import Whispercast.Rpc.Codec

/-!
# What a codec has to satisfy

The decoding of messages and of values is written once for both codecs, and so are its proofs. `CodecLaws` is
what they use of a codec: each decoder method takes what the encoder method of the same name has written, and what a
method leaves behind is what the next one expects. `At key ns` are the decoder states in the middle of containers
that have `ns` items left, the innermost one first; `key` says whether a map key comes next. `Fresh` are the ones
at the beginning of an array or a map. `Opens` are texts that the first item of a container can begin with, and
`next` is what may follow a value.

Both codecs satisfy the laws.
-/

namespace Whispercast.Rpc

open Io Library StateReader

/-- Anything may follow. -/
def Anything (_ : Bytes) : Prop := True

section Laws

variable (e : Encoder) (d : Decoder) (blank : UInt8 → Prop) (next : Bytes → Prop)
  (At : Bool → List Nat → DecoderState → Prop) (Fresh : List Nat → DecoderState → Prop) (Opens : Bytes → Prop)

/-- The structs of a codec. -/
structure StructLaws : Prop where
  start : ∀ {n ns}, n < 2 ^ 32 →
    Gets blank Anything (At false ns) d.decodeStructStart (e.encodeStructStart (UInt32.ofNat n)) () (At false (n :: ns))
  attribStart : ∀ {n ns},
    Gets blank Anything (At false ((n + 1) :: ns)) d.decodeStructAttribStart e.encodeStructAttribStart ()
      (At false (n :: ns))
  attribMiddle : ∀ {ns},
    Gets blank Anything (At false ns) d.decodeStructAttribMiddle e.encodeStructAttribMiddle () (At false ns)
  attribEnd : e.encodeStructAttribEnd = []
  more : ∀ {n ns},
    Gets blank Anything (At false ((n + 1) :: ns)) d.decodeStructContinue e.encodeStructContinue true
      (At false ((n + 1) :: ns))
  done : ∀ {ns}, Gets blank Anything (At false (0 :: ns)) d.decodeStructContinue e.encodeStructEnd false (At false ns)
  next_more : ∀ x, next (e.encodeStructContinue ++ x)
  next_done : ∀ x, next (e.encodeStructEnd ++ x)

/-- The arrays of a codec. -/
structure ArrayLaws : Prop where
  start : ∀ {n ns}, n < 2 ^ 32 →
    Gets blank Anything (At false ns) d.decodeArrayStart (e.encodeArrayStart (UInt32.ofNat n)) () (Fresh (n :: ns))
  fresh : ∀ {ns s}, Fresh ns s → At false ns s
  /-- The first item begins right behind the start, which the decoder may look at. -/
  first : ∀ {α : Type} {k : Bool → Decoding α} {n ns u a Q}, Opens u →
    Gets blank next (At false (n :: ns)) (k true) u a Q →
    Gets blank next (Fresh ((n + 1) :: ns)) (d.decodeArrayContinue >>= k) u a Q
  more : ∀ {n ns},
    Gets blank Anything (At false ((n + 1) :: ns)) d.decodeArrayContinue e.encodeArrayContinue true (At false (n :: ns))
  done : ∀ {ns}, Gets blank Anything (At false (0 :: ns)) d.decodeArrayContinue e.encodeArrayEnd false (At false ns)
  next_more : ∀ x, next (e.encodeArrayContinue ++ x)
  next_done : ∀ x, next (e.encodeArrayEnd ++ x)
  opens : ∀ n x, Opens (e.encodeArrayStart n ++ x)
  opens_append : ∀ {u v}, Opens u → (∀ x, next (v ++ x)) → Opens (u ++ v)

/-- The maps of a codec. -/
structure MapLaws : Prop where
  start : ∀ {n ns}, n < 2 ^ 32 →
    Gets blank Anything (At false ns) d.decodeMapStart (e.encodeMapStart (UInt32.ofNat n)) () (Fresh (n :: ns))
  fresh : ∀ {ns s}, Fresh ns s → At false ns s
  first : ∀ {α : Type} {k : Bool → Decoding α} {n ns u a Q}, Opens u →
    Gets blank next (At false ((n + 1) :: ns)) (k true) u a Q →
    Gets blank next (Fresh ((n + 1) :: ns)) (d.decodeMapContinue >>= k) u a Q
  more : ∀ {n ns},
    Gets blank Anything (At false ((n + 1) :: ns)) d.decodeMapContinue e.encodeMapContinue true (At false ((n + 1) :: ns))
  done : ∀ {ns}, Gets blank Anything (At false (0 :: ns)) d.decodeMapContinue e.encodeMapEnd false (At false ns)
  pairStart : ∀ {n ns},
    Gets blank Anything (At false ((n + 1) :: ns)) d.decodeMapPairStart e.encodeMapPairStart () (At true (n :: ns))
  pairMiddle : ∀ {ns},
    Gets blank Anything (At true ns) d.decodeMapPairMiddle e.encodeMapPairMiddle () (At false ns)
  pairEnd : ∀ {ns}, Gets blank next (At false ns) d.decodeMapPairEnd e.encodeMapPairEnd () (At false ns)
  next_middle : ∀ x, next (e.encodeMapPairMiddle ++ x)
  next_end : ∀ x, next x → next (e.encodeMapPairEnd ++ x)
  next_more : ∀ x, next (e.encodeMapContinue ++ x)
  next_done : ∀ x, next (e.encodeMapEnd ++ x)
  opens : ∀ n x, Opens (e.encodeMapStart n ++ x)
  opens_key : ∀ key x, Opens key → Opens (e.encodeMapPairStart ++ (key ++ (e.encodeMapPairMiddle ++ x)))

/-- A type of numbers: the method that writes one, the one that reads it, and the numbers that come back. -/
structure ScalarLaw {α : Type} (enc : Bool → α → Bytes) (dec : Decoding α) (good : α → Prop) : Prop where
  gets : ∀ {k ns v}, good v → Gets blank next (At k ns) dec (enc k v) v (At k ns)
  opens : ∀ key v, good v → Opens (enc key v)

/-- The values that are no containers. `str` and `u64` are the strings and the 64-bit numbers that come back. -/
structure ScalarLaws (str : Bytes → Prop) (u64 : UInt64 → Prop) : Prop where
  void : ScalarLaw blank next (fun _ => At false) Opens (fun _ (_ : Unit) => e.encodeVoid) d.decodeVoid fun _ => True
  bool : ScalarLaw blank next (fun _ => At false) Opens (fun _ => e.encodeBool) d.decodeBool fun _ => True
  int32 : ScalarLaw blank next At Opens e.encodeInt32 d.decodeInt32 fun _ => True
  uint32 : ScalarLaw blank next At Opens e.encodeUInt32 d.decodeUInt32 fun _ => True
  int64 : ScalarLaw blank next At Opens e.encodeInt64 d.decodeInt64 fun _ => True
  uint64 : ScalarLaw blank next At Opens e.encodeUInt64 d.decodeUInt64 u64
  string : ScalarLaw blank next At Opens (fun _ => e.encodeString) d.decodeString str

end Laws

/-- The methods that messages are decoded with, on every input. -/
structure MessageRegular (d : Decoder) (I : DecoderState → Prop) : Prop where
  structStart : Regular .notEnoughData I 1 d.decodeStructStart
  structContinue : Regular .notEnoughData I 0 d.decodeStructContinue
  structAttribStart : Regular .notEnoughData I 0 d.decodeStructAttribStart
  structAttribMiddle : Regular .notEnoughData I 0 d.decodeStructAttribMiddle
  int32 : Regular .notEnoughData I 1 d.decodeInt32
  uint32 : Regular .notEnoughData I 1 d.decodeUInt32
  string : Regular .notEnoughData I 1 d.decodeString
  rawObject : Regular .notEnoughData I 1 d.readRawObject

/-- The methods that values are decoded with, on every input. -/
structure ValueRegular (d : Decoder) : Prop where
  arrayStart : Regular .notEnoughData (fun _ => True) 1 d.decodeArrayStart
  arrayContinue : Regular .notEnoughData (fun _ => True) 0 d.decodeArrayContinue
  mapStart : Regular .notEnoughData (fun _ => True) 1 d.decodeMapStart
  mapContinue : Regular .notEnoughData (fun _ => True) 0 d.decodeMapContinue
  mapPairStart : Regular .notEnoughData (fun _ => True) 0 d.decodeMapPairStart
  mapPairMiddle : Regular .notEnoughData (fun _ => True) 0 d.decodeMapPairMiddle
  mapPairEnd : Regular .notEnoughData (fun _ => True) 0 d.decodeMapPairEnd
  void : Regular .notEnoughData (fun _ => True) 1 d.decodeVoid
  bool : Regular .notEnoughData (fun _ => True) 1 d.decodeBool
  int32 : Regular .notEnoughData (fun _ => True) 1 d.decodeInt32
  uint32 : Regular .notEnoughData (fun _ => True) 1 d.decodeUInt32
  int64 : Regular .notEnoughData (fun _ => True) 1 d.decodeInt64
  uint64 : Regular .notEnoughData (fun _ => True) 1 d.decodeUInt64
  string : Regular .notEnoughData (fun _ => True) 1 d.decodeString

end Whispercast.Rpc
