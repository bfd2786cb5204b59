import Whispercast.Flv.Tag

/-!
# The FLV decoder

Model of `FlvCoder::DecodeHeader` and `FlvCoder::DecodeTag`, and of the writer of the header. A tag starts
with 15 bytes: the size of the previous tag, the type, the size of the body, the timestamp in two parts and
the stream id.
-/

namespace Whispercast.Flv

open Library Io Amf FlvFrameType List Reader

/-- The command line flags of the coder. -/
structure Flags where
  /-- Maximum accepted size of a tag. -/
  flv_max_tag_size : Nat := 5 * 2 ^ 20
  /-- The header is searched for in this many bytes. -/
  flv_coder_search_for_head : Nat := 0

def kFlvHeaderSize : Nat := 9
def kFlvTagHeaderSize : Nat := 15

/-! ## The header -/

structure FlvHeader where
  unknown_ : Nat
  version_ : UInt8
  audio_video_flags_ : UInt8
  data_offset_ : UInt32

namespace FlvHeader

def write (h : FlvHeader) : Bytes :=
  NumStreamer.writeUInt24 h.unknown_ .bigEndian ++ (NumStreamer.writeByte h.version_ ++
    (NumStreamer.writeByte h.audio_video_flags_ ++ NumStreamer.writeUInt32 h.data_offset_ .bigEndian))

/-- `FlvHeader::StandardHeader`: the letters of "FLV" and the first version. -/
def standardHeader (hasVideo hasAudio : Bool) : FlvHeader :=
  ⟨0x464c56, 0x01, (if hasAudio then 0x04 else 0x00) ||| (if hasVideo then 0x01 else 0x00), 0x09⟩

end FlvHeader

/-- A reading function of the coder. -/
abbrev TagReader (α : Type) : Type := StreamReader TagReadStatus α

/-- `return READ_...` with a status that stands for no result. -/
def failTag {α : Type} (s : TagReadStatus) : TagReader α := Reader.fail (.status s)

/-- `in->Skip(n)` of bytes that are known to be there. -/
def skip (n : Nat) : TagReader Unit := do
  let _ ← (Reader.take n .check : TagReader Bytes)
  pure ()

/-- `s.find("FLV")`: the position of the letters. -/
def findFlv : Bytes → Option Nat
  | [] => none
  | b :: bs => if (b :: bs).take 3 = [0x46, 0x4C, 0x56] then some 0 else (findFlv bs).map (· + 1)

/-- Skip what comes before the header, when the coder is told to search for it. -/
def searchForHead (flags : Flags) : TagReader Unit :=
  if 0 < flags.flv_coder_search_for_head then do
    Reader.need flags.flv_coder_search_for_head (.status .noData)
    let s ← Reader.lookahead (Reader.take flags.flv_coder_search_for_head .check)
    match findFlv s with
    | none => failTag .corrupted
    | some pos => skip pos
  else pure ()

def decodeHeader (flags : Flags) : TagReader FlvHeader := do
  searchForHead flags
  Reader.need kFlvHeaderSize (.status .noData)
  let unknown ← NumStreamer.readUInt24 .bigEndian
  let version ← NumStreamer.readByte
  let audioVideoFlags ← NumStreamer.readByte
  let dataOffset ← NumStreamer.readUInt32 .bigEndian
  pure ⟨unknown, version, audioVideoFlags, dataOffset⟩

/-! ## Tags -/

/-- What `DecodeTag` returns besides the statuses that stand for no result. -/
inductive TagResult where
  /-- `READ_OK`: the tag, and the count of bytes `cb`. -/
  | ok (tag : FlvTag) (cb : Nat)
  /-- `READ_SKIP`. -/
  | skip

/-- The checks on type and size of the body. The tag is skipped when its type is not known. -/
def checkTagHead (flags : Flags) (type : UInt8) (bodySize : Nat) :
    TagReader (Option (FlvFrameType × Nat)) :=
  if flags.flv_max_tag_size < bodySize then failTag .corrupted
  else do
    Reader.need (bodySize + 7) (.status .noData)
    match FlvFrameType.ofByte type with
    | none => do
        skip (7 + bodySize)
        pure none
    | some dataType =>
      if dataType ≠ .metadata ∧ bodySize = 0 then failTag .corrupted
      else pure (some (dataType, bodySize))

/-- `DecodeTag` from `MarkerSet` to `MarkerClear`; whatever is returned from here as an error comes after
`MarkerRestore`. -/
def readTagHead (flags : Flags) : TagReader (Option (FlvFrameType × Nat)) := do
  skip 4
  let type ← NumStreamer.readByte
  let bodySize ← NumStreamer.readUInt24 .bigEndian
  checkTagHead flags type bodySize

/-- `mutable_body().Decode`, whose status is not looked at. -/
def readBody (type : FlvFrameType) (bodySize : Nat) : TagReader Body := fun s =>
  (.ok (Body.decode type s bodySize).1.2, (Body.decode type s bodySize).2)

/-- The tag with its decoded parts. -/
def composeTag (timestampLow : Nat) (timestampHi : UInt8) (streamId : Nat) (body : Body) : FlvTag :=
  FlvTag.learnAttributes
    ⟨Attributes.none, ((timestampLow ||| (timestampHi.toNat <<< 24) : Nat) : Int), streamId, body, none⟩

/-- `DecodeTag` behind `MarkerClear`. -/
def readTagBody (type : FlvFrameType) (bodySize : Nat) : TagReader TagResult := do
  let timestampLow ← NumStreamer.readUInt24 .bigEndian
  let timestampHi ← NumStreamer.readByte
  let streamId ← NumStreamer.readUInt24 .bigEndian
  let body ← readBody type bodySize
  pure (.ok (composeTag timestampLow timestampHi streamId body) (kFlvTagHeaderSize + bodySize))

def decodeTag (flags : Flags) : TagReader TagResult := do
  Reader.need kFlvTagHeaderSize (.status .noData)
  let head ← Reader.restoring (readTagHead flags)
  match head with
  | none => pure .skip
  | some (dataType, bodySize) => readTagBody dataType bodySize

/-! ## DecodeTag on any input -/

/-- The fields of a tag header, cut out of the input. -/
structure TagHead where
  previous : Bytes
  type : UInt8
  bodySize : Bytes
  timestampLow : Bytes
  timestampHi : UInt8
  streamId : Bytes
  previous_length : previous.length = 4
  bodySize_length : bodySize.length = 3
  timestampLow_length : timestampLow.length = 3
  streamId_length : streamId.length = 3

namespace TagHead

/-- The bytes of the header. -/
def bytes (h : TagHead) : Bytes :=
  h.previous ++ h.type :: (h.bodySize ++ (h.timestampLow ++ h.timestampHi :: h.streamId))

/-- The size of the body that the header announces. -/
def announced (h : TagHead) : Nat := NumStreamer.numberOf .bigEndian h.bodySize

@[simp] theorem bytes_length (h : TagHead) : h.bytes.length = 15 := by
  rw [bytes, length_append, length_cons, length_append, length_append,
    length_cons, h.previous_length, h.bodySize_length, h.timestampLow_length, h.streamId_length]

theorem take_four (h : TagHead) (rest : Bytes) : (h.bytes ++ rest).take 4 = h.previous := by
  rw [bytes, append_assoc, ← h.previous_length, take_left]

end TagHead

/-- Fifteen bytes are a header. -/
theorem exists_tagHead {s : Bytes} (h : kFlvTagHeaderSize ≤ s.length) :
    ∃ head : TagHead, s = head.bytes ++ s.drop kFlvTagHeaderSize := by
  have hlong : 15 ≤ s.length := h
  have hcut : ∀ i, (s.drop i).take 3 ++ s.drop (i + 3) = s.drop i := by
    intro i
    rw [← drop_drop, take_append_drop]
  have hthree : ∀ {i}, i ≤ 12 → ((s.drop i).take 3).length = 3 := by
    intro i hi
    rw [length_take_of_le]
    rw [length_drop]
    omega
  refine ⟨⟨s.take 4, s[4], (s.drop 5).take 3, (s.drop 8).take 3, s[11], (s.drop 12).take 3,
    length_take_of_le (by omega), hthree (by decide), hthree (by decide), hthree (by decide)⟩, ?_⟩
  rw [TagHead.bytes, append_assoc, cons_append, append_assoc, append_assoc, cons_append]
  rw [kFlvTagHeaderSize, hcut 12, ← drop_eq_getElem_cons, hcut 8, hcut 5, ← drop_eq_getElem_cons, take_append_drop]

section Run

variable {flags : Flags} {s rest : Bytes}

theorem skip_append {u : Bytes} {n : Nat} (h : u.length = n) (rest : Bytes) : skip n (u ++ rest) = (.ok (), rest) := by
  have htake : (take n .check : TagReader Bytes) (u ++ rest) = (.ok u, rest) :=
    Gets.take _ h rest
  exact bind_ok htake _

/-- Skipping over seven bytes and more. -/
theorem skip_behind {u : Bytes} (n : Nat) (h : u.length = 7) (hn : n ≤ rest.length) :
    skip (7 + n) (u ++ rest) = (.ok (), rest.drop n) := by
  have htake : (take (7 + n) .check : TagReader Bytes) (u ++ rest) =
      (.ok ((u ++ rest).take (7 + n)), (u ++ rest).drop (7 + n)) :=
    take_of_le _ (by rw [length_append]; omega)
  have hdrop : (u ++ rest).drop (7 + n) = rest.drop n := by
    rw [← h, drop_length_add_append]
  rw [hdrop] at htake
  exact bind_ok htake _

theorem readUInt24_append {u : Bytes} (h : u.length = 3) (rest : Bytes) :
    (NumStreamer.readUInt24 .bigEndian : TagReader Nat) (u ++ rest) =
      (.ok (NumStreamer.numberOf .bigEndian u), rest) := by
  have htake : (take 3 .check : TagReader Bytes) (u ++ rest) = (.ok u, rest) :=
    Gets.take _ h rest
  exact bind_ok htake _

/-- The header of a tag up to the size, and what is checked on it. -/
theorem readTagHead_append (flags : Flags) (head : TagHead) (rest : Bytes) :
    readTagHead flags (head.bytes ++ rest) = checkTagHead flags head.type head.announced
      (head.timestampLow ++ (head.timestampHi :: (head.streamId ++ rest))) := by
  have hbytes : head.bytes ++ rest = head.previous ++ (head.type :: (head.bodySize ++
      (head.timestampLow ++ (head.timestampHi :: (head.streamId ++ rest))))) := by
    simp only [TagHead.bytes, append_assoc, cons_append]
  rw [hbytes, readTagHead, bind_ok (skip_append head.previous_length _),
    bind_ok (NumStreamer.readByte_run _ _),
    bind_ok (readUInt24_append head.bodySize_length _)]
  rfl

/-- The rest of the header of a tag, and its body. -/
theorem readTagBody_append (head : TagHead) (rest : Bytes) (type : FlvFrameType) :
    readTagBody type head.announced (head.timestampLow ++ (head.timestampHi :: (head.streamId ++ rest))) =
      (.ok (.ok (composeTag (NumStreamer.numberOf .bigEndian head.timestampLow) head.timestampHi
        (NumStreamer.numberOf .bigEndian head.streamId) (Body.decode type rest head.announced).1.2)
        (kFlvTagHeaderSize + head.announced)), (Body.decode type rest head.announced).2) := by
  rw [readTagBody, bind_ok (readUInt24_append head.timestampLow_length _),
    bind_ok (NumStreamer.readByte_run _ _),
    bind_ok (readUInt24_append head.streamId_length _)]
  rfl

/-- Fewer bytes than a header: nothing happens. -/
theorem decodeTag_of_short (h : s.length < kFlvTagHeaderSize) : decodeTag flags s = (.error (.status .noData), s) :=
  bind_error (need_of_lt _ h) _

/-- The result of `DecodeTag` when there is a whole header. -/
theorem decodeTag_append (flags : Flags) (head : TagHead) (rest : Bytes) : decodeTag flags (head.bytes ++ rest) =
      if flags.flv_max_tag_size < head.announced then (.error (.status .corrupted), head.bytes ++ rest)
      else if rest.length < head.announced then (.error (.status .noData), head.bytes ++ rest)
      else match FlvFrameType.ofByte head.type with
        | none => (.ok .skip, rest.drop head.announced)
        | some type =>
          if type ≠ .metadata ∧ head.announced = 0 then
            (.error (.status .corrupted), head.bytes ++ rest)
          else (.ok (.ok (composeTag (NumStreamer.numberOf .bigEndian head.timestampLow) head.timestampHi
            (NumStreamer.numberOf .bigEndian head.streamId)
            (Body.decode type rest head.announced).1.2) (kFlvTagHeaderSize + head.announced)),
            (Body.decode type rest head.announced).2) := by
  have hsize : kFlvTagHeaderSize ≤ (head.bytes ++ rest).length := by
    rw [length_append, TagHead.bytes_length]
    exact Nat.le_add_right _ _
  have hhead := readTagHead_append flags head rest
  rw [decodeTag, bind_ok (need_of_le _ hsize)]
  rw [checkTagHead] at hhead
  split
  · next hmax =>
    rw [if_pos hmax] at hhead
    exact bind_error (restoring_error hhead) _
  · next hmax =>
    have hlen : (head.timestampLow ++ (head.timestampHi :: (head.streamId ++ rest))).length =
        rest.length + 7 := by
      rw [length_append, length_cons, length_append, head.timestampLow_length,
        head.streamId_length]
      omega
    rw [if_neg hmax] at hhead
    split
    · next hshort =>
      rw [bind_error (need_of_lt _ (by omega))] at hhead
      exact bind_error (restoring_error hhead) _
    · next hshort =>
      rw [bind_ok (need_of_le _ (by omega))] at hhead
      cases htype : ofByte head.type with
      | none =>
        have hseven : (head.timestampLow ++ head.timestampHi :: head.streamId).length = 7 := by
          rw [length_append, length_cons, head.timestampLow_length, head.streamId_length]
        have hskip := skip_behind head.announced hseven (Nat.le_of_not_lt hshort)
        rw [append_assoc, cons_append] at hskip
        rw [htype] at hhead
        dsimp only at hhead ⊢
        rw [bind_ok hskip] at hhead
        rw [bind_ok (restoring_ok hhead)]
        rfl
      | some type =>
        rw [htype] at hhead
        dsimp only at hhead ⊢
        split
        · next hzero =>
          rw [if_pos hzero] at hhead
          exact bind_error (restoring_error hhead) _
        · next hzero =>
          rw [if_neg hzero] at hhead
          rw [bind_ok (restoring_ok hhead)]
          exact readTagBody_append head rest type

end Run

/-! ## Alignment -/

/-- The type byte of a tag. -/
def tagType (s : Bytes) : UInt8 := (s.drop 4).headD 0

/-- The size of the body that a tag announces. -/
def announcedSize (s : Bytes) : Nat := NumStreamer.numberOf .bigEndian ((s.drop 5).take 3)

theorem tagType_append (head : TagHead) (rest : Bytes) : tagType (head.bytes ++ rest) = head.type := by
  have hdrop : (head.bytes ++ rest).drop 4 = head.type :: (head.bodySize ++
      (head.timestampLow ++ (head.timestampHi :: (head.streamId ++ rest)))) := by
    rw [TagHead.bytes, append_assoc, ← head.previous_length, drop_left]
    simp only [append_assoc, cons_append]
  rw [tagType, hdrop, headD_cons]

theorem announcedSize_append (head : TagHead) (rest : Bytes) :
    announcedSize (head.bytes ++ rest) = head.announced := by
  have hbytes : head.bytes ++ rest = (head.previous ++ [head.type]) ++ (head.bodySize ++
      (head.timestampLow ++ (head.timestampHi :: (head.streamId ++ rest)))) := by
    simp only [TagHead.bytes, append_assoc, cons_append, nil_append]
  have hfive : (head.previous ++ [head.type]).length = 5 := by
    rw [length_append, head.previous_length, length_singleton]
  have htake : ((head.bytes ++ rest).drop 5).take 3 = head.bodySize := by
    rw [hbytes, ← hfive, drop_left, ← head.bodySize_length, take_left]
  rw [announcedSize, htake]
  rfl

/-- A call of `DecodeTag` leaves the stream at the next tag when it returns `READ_OK` or `READ_SKIP`, and
where it was when it returns anything else. -/
def Aligned (flags : Flags) (s : Bytes) : Prop :=
  match decodeTag flags s with
  | (.ok _, rest) => kFlvTagHeaderSize + announcedSize s ≤ s.length ∧
      rest = s.drop (kFlvTagHeaderSize + announcedSize s)
  | (.error (.status _), rest) => rest = s
  | (.error _, _) => False

/-- The AMF0 values of a metadata body. -/
def metadataValues : Decoder Metadata := do
  let name ← CString.decode
  let values ← CMixedMap.decode
  pure ⟨name, values⟩

/-- A whole metadata tag of an accepted size. -/
def IsMetadataTag (flags : Flags) (s : Bytes) : Prop :=
  kFlvTagHeaderSize + announcedSize s ≤ s.length ∧ announcedSize s ≤ flags.flv_max_tag_size ∧
    tagType s = FlvFrameType.metadata.toByte

/-- The values behind the header take the announced number of bytes; when they cannot be read, that number
is zero. -/
def MetadataFits (s : Bytes) : Prop :=
  match metadataValues (s.drop kFlvTagHeaderSize) with
  | (.ok _, rest) => rest = s.drop (kFlvTagHeaderSize + announcedSize s)
  | (.error _, _) => announcedSize s = 0

/-- Where the metadata decoder leaves the stream. -/
theorem metadata_decode_rest (s : Bytes) : (Metadata.decode s).2 = match metadataValues s with
    | (.ok _, rest) => rest
    | (.error _, _) => s := by
  rw [Metadata.decode]
  rcases hname : CString.decode s with ⟨name | name, s'⟩
  · rw [metadataValues, bind_error hname]
  · rw [metadataValues, bind_ok hname]
    dsimp only
    rcases hvalues : CMixedMap.decode s' with ⟨values | values, _⟩
    · rw [bind_error hvalues]
    · rw [bind_ok hvalues]
      rfl

/-- Audio and video bodies take what the tag announces. -/
theorem body_decode_rest {type : FlvFrameType} {s : Bytes} {size : Nat} (htype : type ≠ .metadata)
    (hsize : size ≤ s.length) : (Body.decode type s size).2 = s.drop size := by
  cases type with
  | audio => rw [Body.decode, if_neg (Nat.not_lt.2 hsize)]
  | video => rw [Body.decode, if_neg (Nat.not_lt.2 hsize)]
  | metadata => exact absurd rfl htype

theorem ofByte_eq_metadata {b : UInt8} (h : FlvFrameType.ofByte b = some .metadata) :
    b = FlvFrameType.metadata.toByte := by
  rw [ofByte] at h
  split at h
  · cases h
  · split at h
    · cases h
    · split at h
      · assumption
      · cases h

theorem drop_tag (head : TagHead) (rest : Bytes) (n : Nat) :
    (head.bytes ++ rest).drop (kFlvTagHeaderSize + n) = rest.drop n := by
  have hlen : kFlvTagHeaderSize = head.bytes.length := (TagHead.bytes_length head).symm
  rw [hlen, drop_length_add_append]

/-- Alignment, read off the result of the call. -/
theorem aligned_append_ok {flags : Flags} {head : TagHead} {rest rest' : Bytes} {r : TagResult}
    (h : decodeTag flags (head.bytes ++ rest) = (.ok r, rest')) (hlen : head.announced ≤ rest.length) :
    Aligned flags (head.bytes ++ rest) ↔ rest' = rest.drop head.announced := by
  rw [Aligned, h]
  rw [announcedSize_append, drop_tag, length_append, TagHead.bytes_length]
  constructor
  · intro haligned
    exact haligned.2
  · intro hrest
    exact ⟨Nat.add_le_add_left hlen _, hrest⟩

theorem aligned_of_error {flags : Flags} {s : Bytes} {e : TagReadStatus}
    (h : decodeTag flags s = (.error (.status e), s)) : Aligned flags s := by
  rw [Aligned, h]

theorem isMetadataTag_append (flags : Flags) (head : TagHead) (rest : Bytes) :
    IsMetadataTag flags (head.bytes ++ rest) ↔ head.announced ≤ rest.length ∧
      head.announced ≤ flags.flv_max_tag_size ∧ head.type = FlvFrameType.metadata.toByte := by
  rw [IsMetadataTag, announcedSize_append, tagType_append, length_append, TagHead.bytes_length]
  constructor
  · intro h
    exact ⟨Nat.le_of_add_le_add_left h.1, h.2⟩
  · intro h
    exact ⟨Nat.add_le_add_left h.1 _, h.2⟩

theorem metadataFits_append {head : TagHead} {rest : Bytes} (hlen : head.announced ≤ rest.length) :
    MetadataFits (head.bytes ++ rest) ↔ (Metadata.decode rest).2 = rest.drop head.announced := by
  have hdrop : (head.bytes ++ rest).drop kFlvTagHeaderSize = rest := drop_tag head rest 0
  rw [MetadataFits, hdrop, drop_tag, announcedSize_append, metadata_decode_rest]
  rcases metadataValues rest with ⟨e | m, -⟩
  · -- The body was not read, so the stream is at the next tag only when the body is empty.
    dsimp only
    constructor
    · intro hzero
      rw [hzero, drop_zero]
    · intro hrest
      have hlength := congrArg length hrest
      rw [length_drop] at hlength
      omega
  · exact Iff.rfl

/-- `DecodeTag` stays aligned exactly on the inputs that are not a whole metadata tag, or whose metadata
fits the announced size. -/
theorem decodeTag_aligned_iff (flags : Flags) (s : Bytes) :
    Aligned flags s ↔ (IsMetadataTag flags s → MetadataFits s) := by
  by_cases hshort : s.length < kFlvTagHeaderSize
  · constructor
    · intro _ hmeta
      exact absurd (Nat.le_trans (Nat.le_add_right _ _) hmeta.1) (Nat.not_le.2 hshort)
    · intro _
      exact aligned_of_error (decodeTag_of_short hshort)
  · rcases exists_tagHead (Nat.le_of_not_lt hshort) with ⟨head, hs⟩
    generalize s.drop kFlvTagHeaderSize = rest at hs
    subst hs
    have hrun := decodeTag_append flags head rest
    rw [isMetadataTag_append]
    by_cases hmax : flags.flv_max_tag_size < head.announced
    · rw [if_pos hmax] at hrun
      exact iff_of_true (aligned_of_error hrun) fun hmeta => absurd hmeta.2.1 (Nat.not_le.2 hmax)
    rw [if_neg hmax] at hrun
    by_cases hwait : rest.length < head.announced
    · rw [if_pos hwait] at hrun
      exact iff_of_true (aligned_of_error hrun) fun hmeta => absurd hmeta.1 (Nat.not_le.2 hwait)
    rw [if_neg hwait] at hrun
    have hlen := Nat.le_of_not_lt hwait
    cases htype : ofByte head.type with
    | none =>
      rw [htype] at hrun
      refine iff_of_true ((aligned_append_ok hrun hlen).2 rfl) fun hmeta => ?_
      rw [hmeta.2.2, ofByte_toByte] at htype
      cases htype
    | some type =>
      rw [htype] at hrun
      dsimp only at hrun
      by_cases hzero : type ≠ .metadata ∧ head.announced = 0
      · rw [if_pos hzero] at hrun
        refine iff_of_true (aligned_of_error hrun) fun hmeta => ?_
        rw [hmeta.2.2, ofByte_toByte] at htype
        exact absurd (Option.some.inj htype).symm hzero.1
      · rw [if_neg hzero] at hrun
        rw [aligned_append_ok hrun hlen]
        by_cases hmeta : type = .metadata
        · -- The metadata decoder reads on from the stream itself.
          subst hmeta
          have hrest : (Body.decode .metadata rest head.announced).2 = (Metadata.decode rest).2 := rfl
          have hbyte := ofByte_eq_metadata htype
          rw [hrest, metadataFits_append hlen]
          constructor
          · intro h _
            exact h
          · intro h
            exact h ⟨hlen, Nat.le_of_not_lt hmax, hbyte⟩
        · refine iff_of_true (body_decode_rest hmeta hlen) fun h => ?_
          rw [h.2.2, ofByte_toByte] at htype
          exact absurd (Option.some.inj htype).symm hmeta

/-- A metadata tag with a body of one byte that is no AMF0 string. -/
def unreadableMetadataTag : Bytes := [0, 0, 0, 0, 0x12, 0, 0, 1, 0, 0, 0, 0, 0, 0, 0, 0x05]

/-- `DecodeTag` returns `READ_OK` for this tag and leaves its body in the stream. -/
theorem decodeTag_not_aligned : ¬ Aligned { } unreadableMetadataTag ∧
    (∃ tag cb, decodeTag { } unreadableMetadataTag = (.ok (.ok tag cb), [0x05])) ∧
    kFlvTagHeaderSize + announcedSize unreadableMetadataTag = unreadableMetadataTag.length := by
  refine ⟨?_, ⟨_, _, rfl⟩, by decide⟩
  intro h
  have hrest : [0x05] = unreadableMetadataTag.drop (kFlvTagHeaderSize + announcedSize unreadableMetadataTag) :=
    h.2
  exact absurd hrest (by decide)

end Whispercast.Flv
