import Mathlib.Algebra.GroupWithZero.Nat
import Whispercast.F4v.FrameReader
import Whispercast.Library.RunLength

/-!
# Sample tables

The atoms below `MOOV` that say where the samples of a track lie and when they are shown, as far as `ExtractFrames`
looks at them, and `ExtractFrames`, which walks over the five tables at once. A table that is missing is `none`. The
numbers are those of the records: `uint32`, and `int32` for the offsets of `CTTS`; the time is counted in an `int64`.
-/

namespace Whispercast.F4v

open Library RunLength

/-- A number that is kept in an `int64`. -/
def toInt64 (n : Int) : Int := n.bmod (2 ^ 64)

structure StscRecord where
  firstChunk : Nat
  samplesPerChunk : Nat

/-- `StblAtom`: its tables. The records of `STTS` and `CTTS` have a count and an entry. -/
structure StblAtom where
  stsz : Option (List Nat)
  stco : Option (List Nat)
  stsc : Option (List StscRecord)
  stts : Option (List (Nat × Nat))
  ctts : Option (List (Nat × Int))
  stss : Option (List Nat)

structure MinfAtom where
  stbl : Option StblAtom

/-- `MdiaAtom`, with the time scale of its `MdhdAtom`. -/
structure MdiaAtom where
  mdhd : Option Nat
  minf : Option MinfAtom

/-- `TrakAtom`, with the volume of its `TkhdAtom`. -/
structure TrakAtom where
  tkhd : Option Nat
  mdia : Option MdiaAtom

structure MoovAtom where
  traks : List TrakAtom

/-- `MoovAtom::trak`: the first track that has a volume, or has none. -/
def MoovAtom.trak (moov : MoovAtom) (audio : Bool) : Option TrakAtom :=
  moov.traks.find? fun trak =>
    match trak.tkhd with
    | none => false
    | some volume => if audio then volume ≠ 0 else volume = 0

/-- The tables that `ExtractFrames` needs. -/
structure SampleTables where
  timeScale : Nat
  stsz : List Nat
  stco : List Nat
  stsc : List StscRecord
  stts : List (Nat × Nat)
  ctts : Option (List (Nat × Int))
  stss : Option (List Nat)

/-- `ExtractFrames` up to the first table it walks over: `none` where it says that an atom is missing. -/
def MoovAtom.tables (moov : MoovAtom) (audio : Bool) : Option SampleTables := do
  let trak ← moov.trak audio
  let mdia ← trak.mdia
  let timeScale ← mdia.mdhd
  let minf ← mdia.minf
  let stbl ← minf.stbl
  let stsz ← stbl.stsz
  let stco ← stbl.stco
  let stsc ← stbl.stsc
  let stts ← stbl.stts
  some ⟨timeScale, stsz, stco, stsc, stts, stbl.ctts, stbl.stss⟩

namespace SampleTables

/-- What `ExtractFrames` keeps from one sample to the next. -/
structure Walk where
  decodingTime : Int
  stts : Cursor Nat
  ctts : Cursor Int
  frames : List FrameHeader

/-- The type of the frames of a track. -/
def frameType (audio : Bool) : FrameType := if audio then .audioFrame else .videoFrame

/-- The frame of a sample of the given size at the given offset. -/
def addSample (t : SampleTables) (audio : Bool) (s : Walk) (offset : Int) (size : Nat) : Walk :=
  let (delta, stts) := s.stts.next
  let decodingDelta := delta.getD 0
  let (sampleOffset, ctts) := if t.ctts.isSome then s.ctts.next else (none, s.ctts)
  let compositionOffset := sampleOffset.getD 0
  let frame : FrameHeader :=
    { offset := offset
      size := size
      decodingTimestamp := (toInt64 (s.decodingTime * 1000)).tdiv t.timeScale
      compositionOffsetMs := (compositionOffset * 1000).tdiv t.timeScale
      duration := (decodingDelta * 1000 / t.timeScale : Nat)
      sampleIndex := s.decodingTime + compositionOffset
      type := frameType audio
      isKeyframe := false }
  ⟨s.decodingTime + decodingDelta, stts, ctts, s.frames ++ [frame]⟩

/-- The samples of a chunk: the sizes of the samples that are left are given, and the number of samples in the chunk. -/
def addChunk (t : SampleTables) (audio : Bool) : List Nat → Nat → Int → Walk → List Nat × Walk
  | [], _, _, s => ([], s)
  | size :: sizes, 0, _, s => (size :: sizes, s)
  | size :: sizes, n + 1, offset, s => addChunk t audio sizes n (offset + size) (t.addSample audio s offset size)

/-- The `STSC` record of a chunk: the current one and those behind it, or `none` when the records are illegal. -/
def nextStsc (chunkIndex : Nat) (record : StscRecord) : List StscRecord → Option (StscRecord × List StscRecord)
  | [] => some (record, [])
  | next :: rest =>
    if chunkIndex < record.firstChunk ∨ next.firstChunk < chunkIndex ∨ next.firstChunk ≤ record.firstChunk then none
    else if next.firstChunk = chunkIndex then some (next, rest)
    else some (record, next :: rest)

/-- The loop over the chunks, whose numbers begin with 1. -/
def addChunks (t : SampleTables) (audio : Bool) :
    List Nat → Nat → StscRecord → List StscRecord → List Nat → Walk → Option Walk
  | [], _, _, _, _, s => some s
  | chunkOffset :: chunks, chunkIndex, record, rest, sizes, s =>
    match nextStsc chunkIndex record rest with
    | none => none
    | some (record, rest) =>
      let (sizes, s) := t.addChunk audio sizes record.samplesPerChunk chunkOffset s
      addChunks t audio chunks (chunkIndex + 1) record rest sizes s

/-- The frames that are listed in `STSS` are keyframes; their numbers begin with 1. -/
def setKeyframes (frames : List FrameHeader) (keyframes : List Nat) : List FrameHeader :=
  keyframes.foldl (fun frames keyframe =>
    if keyframe < 1 ∨ frames.length < keyframe then frames
    else frames.modify (keyframe - 1) fun frame => { frame with isKeyframe := true }) frames

/-- `ExtractFrames` on the tables: `none` where it gives up. -/
def buildFrames (t : SampleTables) (audio : Bool) : Option (List FrameHeader) :=
  if t.stco.length < t.stsc.length then none
  else
    match t.stsc with
    | [] => none
    | record :: rest =>
      if t.timeScale = 0 then none
      else
        (t.addChunks audio t.stco 1 record rest t.stsz
          ⟨0, .start 0 t.stts, .start 0 (t.ctts.getD []), []⟩).map fun s =>
            setKeyframes s.frames (t.stss.getD [])

end SampleTables

/-- `ExtractFrames`: the frames that it appends. -/
def extractFrames (moov : MoovAtom) (audio : Bool) : List FrameHeader :=
  ((moov.tables audio).bind fun t => t.buildFrames audio).getD []

end Whispercast.F4v
