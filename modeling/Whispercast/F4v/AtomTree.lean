import Whispercast.F4v.AtomBodies

/-!
# Trees of F4V atoms

`BaseAtom::Encode` on whole atoms, and what the containers find among their subatoms (`SubatomFound`): the tables of a
track, as `ExtractFrames` sees them.
-/

namespace Whispercast.F4v

open Io NumStreamer

/-- The header that `BaseAtom::Encode` writes. -/
def AtomHeader.encode (h : AtomHeader) : Bytes :=
  if h.isExtendedSize then
    [writeUInt32 1 .bigEndian, writeUInt32 h.type .bigEndian, writeUInt64 (UInt64.ofNat h.size) .bigEndian].flatten
  else [writeUInt32 (UInt32.ofNat h.size) .bigEndian, writeUInt32 h.type .bigEndian].flatten

/-- `BaseAtom::Encode` on the encoded body, whose size is checked. -/
def AtomHeader.encodeAtom (h : AtomHeader) (body : Bytes) : Option Bytes :=
  if h.type = atomMdat ∨ body.length = h.bodySize then some (h.encode ++ body) else none

namespace Atom

mutual

/-- `Encoder::WriteAtom`; a failed `CHECK` is `none`. -/
def encode : Atom → Option Bytes
  | leaf h body => if body.encodable then h.encodeAtom body.encode else none
  | container h subatoms => (encodeAll subatoms).bind h.encodeAtom
  | containerVersioned h version data subatoms =>
    (encodeAll subatoms).bind fun s => h.encodeAtom [version.encode, data.encode, s].flatten

/-- The subatoms of a container one after the other. -/
def encodeAll : List Atom → Option Bytes
  | [] => some []
  | a :: subatoms => (encode a).bind fun x => (encodeAll subatoms).map fun y => x ++ y

end

/-- The subatoms of an atom. -/
def subatoms : Atom → List Atom
  | leaf _ _ => []
  | container _ subatoms => subatoms
  | containerVersioned _ _ _ subatoms => subatoms

/-! ## What a container finds -/

/-- The last subatom of some kind: it replaces the ones before it. -/
def lastSome {α : Type} (f : Atom → Option α) (subatoms : List Atom) : Option α := subatoms.reverse.findSome? f

/-- The body of a `VersionedAtom`. -/
def versionedBody : Atom → Option VersionedBody
  | leaf _ (.versioned _ body) => some body
  | _ => none

/-- The subatoms of a container with the given type. -/
def containerOf (type : UInt32) : Atom → Option (List Atom)
  | container h subatoms => if h.type = type then some subatoms else none
  | _ => none

/-- The records of a table of an `STBL` atom. -/
def records {α : Type} (f : VersionedBody → Option α) (subatoms : List Atom) : Option α :=
  lastSome (fun a => a.versionedBody.bind f) subatoms

/-- `StblAtom`. -/
def stblOf (subatoms : List Atom) : StblAtom where
  stsz := records (fun | .stsz _ rs => some (rs.map UInt32.toNat) | _ => none) subatoms
  stco := records (fun | .stco rs => some (rs.map UInt32.toNat) | _ => none) subatoms
  stsc := records (fun | .stsc rs => some (rs.map fun r => ⟨r.1.toNat, r.2.1.toNat⟩) | _ => none) subatoms
  stts := records (fun | .stts rs => some (rs.map fun r => (r.1.toNat, r.2.toNat)) | _ => none) subatoms
  ctts := records (fun | .ctts rs => some (rs.map fun r => (r.1.toNat, r.2.toInt)) | _ => none) subatoms
  stss := records (fun | .stss rs => some (rs.map UInt32.toNat) | _ => none) subatoms

/-- `MinfAtom`, which keeps its first `STBL`. -/
def minfOf (subatoms : List Atom) : MinfAtom where
  stbl := (subatoms.findSome? (containerOf atomStbl)).map stblOf

/-- `MdiaAtom`. -/
def mdiaOf (subatoms : List Atom) : MdiaAtom where
  mdhd := records (fun | .mdhd a => some a.timeScale.toNat | _ => none) subatoms
  minf := (lastSome (containerOf atomMinf) subatoms).map minfOf

/-- `TrakAtom`. -/
def trakOf (subatoms : List Atom) : TrakAtom where
  tkhd := records (fun | .tkhd a => some a.volume.toNat | _ => none) subatoms
  mdia := (lastSome (containerOf atomMdia) subatoms).map mdiaOf

/-- `MoovAtom`. -/
def moov (a : Atom) : MoovAtom where
  traks := a.subatoms.filterMap fun a => (containerOf atomTrak a).map trakOf

/-- A track has a volume, or none. -/
def isTrak (audio : Bool) (a : Atom) : Bool :=
  match containerOf atomTrak a with
  | none => false
  | some subatoms =>
    match (trakOf subatoms).tkhd with
    | none => false
    | some volume => if audio then volume ≠ 0 else volume = 0

end Atom

end Whispercast.F4v
