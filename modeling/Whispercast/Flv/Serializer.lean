import Whispercast.Library.Session
import Whispercast.Flv.Coder

/-!
# The FLV serializer

Model of `FlvTagSerializer` on `FlvTag`s, and the round trip: what it writes is decoded to the same tags,
wherever the stream is cut. Other tags than `FlvTag` are left out.
-/

namespace Whispercast.Flv

open Library Io Amf Body List FlvHeader NumStreamer Reader Session

structure FlvTagSerializer where
  write_header_ : Bool
  has_video_ : Bool
  has_audio_ : Bool
  previous_tag_size_ : Int32

namespace FlvTagSerializer

/-- `Initialize`: the serializer, and what is written. -/
def initializeStream (s : FlvTagSerializer) : FlvTagSerializer × Bytes :=
  ({ s with previous_tag_size_ := 0 },
    if s.write_header_ then (FlvHeader.standardHeader s.has_video_ s.has_audio_).write else [])

/-- The type under which a tag is written, by its attributes; other tags are ignored. -/
def frameType (tag : FlvTag) : Option FlvFrameType :=
  if tag.attributes_.audio then some .audio
  else if tag.attributes_.video then some .video
  else if tag.attributes_.metadata then some .metadata
  else none

/-- Size and bytes of the body. `none` is the failed `CHECK_NOT_NULL` of a tag without data. -/
def frameBody (tag : FlvTag) (type : FlvFrameType) : Option (UInt32 × Bytes) :=
  if type = .metadata then some (tag.size, tag.body_.encode)
  else tag.data.map fun data => (UInt32.ofNat data.length, data)

/-- What follows the size of the previous tag. -/
def frame (type : FlvFrameType) (size : UInt32) (timestampMs : Nat) (body : Bytes) : Bytes :=
  NumStreamer.writeByte type.toByte ++ (NumStreamer.writeUInt24 size.toNat .bigEndian ++
    (NumStreamer.writeUInt24 (timestampMs % 2 ^ 24) .bigEndian ++
      (NumStreamer.writeByte (UInt8.ofNat (timestampMs / 2 ^ 24 % 256)) ++
        (NumStreamer.writeUInt24 0 .bigEndian ++ body))))

/-- `SerializeInternal`: the serializer, and what is written. `none` is a failed `CHECK`. -/
def serializeInternal (s : FlvTagSerializer) (tag : FlvTag) (timestampMs : Int) :
    Option (FlvTagSerializer × Bytes) :=
  if timestampMs < 0 then none
  else match frameType tag with
    | none => some (s, [])
    | some type => (frameBody tag type).map fun (size, body) =>
      let bytes := frame type size timestampMs.toNat body
      ({ s with previous_tag_size_ := Int32.ofNat bytes.length },
        NumStreamer.writeInt32 s.previous_tag_size_ .bigEndian ++ bytes)

/-- Serialize tags with their timestamps, one after the other. -/
def serializeAll (s : FlvTagSerializer) : List (FlvTag × Nat) → Option (FlvTagSerializer × Bytes)
  | [] => some (s, [])
  | (tag, timestampMs) :: rest => do
      let (s', out) ← s.serializeInternal tag timestampMs
      let (s'', outs) ← s'.serializeAll rest
      pure (s'', out ++ outs)

/-- `Initialize`, and then `SerializeInternal` for each tag. -/
def run (s : FlvTagSerializer) (tags : List (FlvTag × Nat)) : Option (FlvTagSerializer × Bytes) :=
  (s.initializeStream.1.serializeAll tags).map fun (s', out) => (s', s.initializeStream.2 ++ out)

end FlvTagSerializer

/-! ## Reading a stream -/

/-- What the reader of a stream expects next. -/
inductive Phase where
  | header
  | tags

/-- What the reader of a stream gets. -/
inductive Item where
  | header (h : FlvHeader)
  | tag (t : FlvTag)
  | skipped

/-- Where a call of the decoder leads: to a value, to more input, or to an error. -/
def outcomeOf {α : Type} (phase next : Phase) (item : α → Item) :
    Except (Stop TagReadStatus) α × Bytes → Outcome Phase UInt8 Item (Stop TagReadStatus)
  | (.ok a, rest) => .out (item a) next rest
  | (.error (.status .noData), rest) => .more phase rest
  | (.error e, rest) => .fail e phase rest

/-- The item of a decoded tag. -/
def itemOf : TagResult → Item
  | .ok tag _ => .tag tag
  | .skip => .skipped

/-- `DecodeHeader` first, then `DecodeTag` again and again. -/
def receive (flags : Flags) : Phase → Bytes → Outcome Phase UInt8 Item (Stop TagReadStatus)
  | .header, b => outcomeOf .header .tags Item.header (decodeHeader flags b)
  | .tags, b => outcomeOf .tags .tags itemOf (decodeTag flags b)

/-! ## What is written for a tag -/

/-- The body fits into a tag: its size has three bytes. -/
def FitsTag (tag : FlvTag) : Prop := tag.body_.encode.length < 2 ^ 24

/-- The attributes of a tag say what its body is. -/
def Attributed (tag : FlvTag) : Prop := FlvTagSerializer.frameType tag = some tag.body_.type

/-- The body is what its kind allows: metadata are within the limits of AMF0. -/
def BodyEncodable : Body → Prop
  | .audio a => 0 < a.data_.length
  | .video v => 0 < v.data_.length
  | .metadata m => m.Encodable

/-- The header that is written for a tag. -/
def writtenHead (previous : Int32) (type : FlvFrameType) (size timestampMs : Nat) : TagHead where
  previous := NumStreamer.writeInt32 previous .bigEndian
  type := type.toByte
  bodySize := NumStreamer.writeUInt24 size .bigEndian
  timestampLow := NumStreamer.writeUInt24 (timestampMs % 2 ^ 24) .bigEndian
  timestampHi := UInt8.ofNat (timestampMs / 2 ^ 24 % 256)
  streamId := NumStreamer.writeUInt24 0 .bigEndian
  previous_length := NumStreamer.writeNumber_length 4 _ _
  bodySize_length := NumStreamer.writeNumber_length 3 _ _
  timestampLow_length := NumStreamer.writeNumber_length 3 _ _
  streamId_length := NumStreamer.writeNumber_length 3 _ _

variable (previous : Int32)

theorem writtenHead_announced (type : FlvFrameType) {size : Nat} (timestampMs : Nat)
    (h : size < 2 ^ 24) : (writtenHead previous type size timestampMs).announced = size :=
  numberOf_writeNumber .bigEndian h

/-- `Size` of a body is the number of bytes that `Encode` writes. -/
theorem body_size_toNat {body : Body} (h : BodyEncodable body) (hfits : body.encode.length < 2 ^ 24) :
    body.size.toNat = body.encode.length := by
  have hlt : body.encode.length < 2 ^ 32 := Nat.lt_trans hfits (by decide)
  have hsize : body.size = UInt32.ofNat body.encode.length := by
    cases body with
    | audio a => rfl
    | video v => rfl
    | metadata m =>
      have hname := CObject.encodingSize_eq h.1
      have hvalues := CObject.encodingSize_eq h.2
      rw [CObject.encode] at hname
      rw [size, encode, Metadata.size, Metadata.encode, hname, hvalues, length_append,
        UInt32.ofNat_add]
  rw [hsize, UInt32.toNat_ofNat', Nat.mod_eq_of_lt hlt]

variable {tag : FlvTag}

/-- The serializer writes a header and the encoded body. -/
theorem serializeInternal_eq {s : FlvTagSerializer} {timestampMs : Nat}
    (hattr : Attributed tag) (hbody : BodyEncodable tag.body_) (hfits : FitsTag tag) :
    s.serializeInternal tag timestampMs =
      some ({ s with previous_tag_size_ := Int32.ofNat (11 + tag.body_.encode.length) },
        (writtenHead s.previous_tag_size_ tag.body_.type tag.body_.encode.length timestampMs).bytes ++
          tag.body_.encode) := by
  have hsize := body_size_toNat hbody hfits
  have hframeBody : FlvTagSerializer.frameBody tag tag.body_.type =
      some (tag.body_.size, tag.body_.encode) := by
    rw [FlvTagSerializer.frameBody, FlvTag.data, FlvTag.size]
    cases tag.body_ with
    | audio a => rfl
    | video v => rfl
    | metadata m => rfl
  have hneg : ¬ ((timestampMs : Int) < 0) := by omega
  rw [FlvTagSerializer.serializeInternal, if_neg hneg, hattr]
  dsimp only
  rw [hframeBody, Option.map_some]
  have hlen : (FlvTagSerializer.frame tag.body_.type tag.body_.size (timestampMs : Int).toNat
      tag.body_.encode).length = 11 + tag.body_.encode.length := by
    simp only [FlvTagSerializer.frame, writeByte, writeUInt24, length_append,
      writeNumber_length, length_singleton]
    omega
  rw [hlen, FlvTagSerializer.frame, Int.toNat_natCast, hsize]
  simp only [writtenHead, TagHead.bytes, writeByte, append_assoc, cons_append,
    nil_append]

/-! ## What is read for a tag -/

/-- The encoding of metadata, decoded. -/
theorem metadata_decode_encode {m : Metadata} (h : m.Encodable) (rest : Bytes) :
    Metadata.decode (m.encode ++ rest) = ((.ok, m), rest) := by
  have hname : CString.decode (m.encode ++ rest) = (.ok m.name_, m.values_.toObject.encode ++ rest) := by
    rw [Metadata.encode, append_assoc]
    cases h.1 with
    | string hlen => exact (Amf0Util.readString_decodes (k := 0) hlen).gets _
  have hvalues := (CMixedMap.decode_decodes h.2).gets rest
  rw [Metadata.decode, hname]
  dsimp only
  rw [hvalues]

/-- The encoding of a body, decoded: the body, and what follows it. -/
theorem body_decode_encode {body : Body} (h : BodyEncodable body) (rest : Bytes) :
    (Body.decode body.type (body.encode ++ rest) body.encode.length).1.2 = body ∧
      (Body.decode body.type (body.encode ++ rest) body.encode.length).2 = rest := by
  have hlen : ∀ data : Bytes, ¬ (data ++ rest).length < data.length := by
    intro data
    rw [length_append]
    omega
  cases body with
  | audio a =>
    have hdecode : decode .audio (a.data_ ++ rest) a.data_.length =
        (((decodeAudioFlags AudioFlags.initial a.data_).1, .audio (Audio.ofData a.data_)), rest) := by
      rw [decode, if_neg (hlen a.data_), take_left, drop_left]
    rw [Audio.ofData_data] at hdecode
    rw [type, encode, hdecode]
    exact ⟨rfl, rfl⟩
  | video v =>
    have hdecode : decode .video (v.data_ ++ rest) v.data_.length =
        (((decodeVideoFlags VideoFlags.initial v.data_).1, .video (Video.ofData v.data_)), rest) := by
      rw [decode, if_neg (hlen v.data_), take_left, drop_left]
    rw [Video.ofData_data] at hdecode
    rw [type, encode, hdecode]
    exact ⟨rfl, rfl⟩
  | metadata m =>
    rw [type, encode, decode, metadata_decode_encode h]
    exact ⟨rfl, rfl⟩

/-- A timestamp of 32 bits, put together from its two fields. -/
theorem timestamp_parts {t : Nat} (h : t < 2 ^ 32) :
    t % 2 ^ 24 ||| ((UInt8.ofNat (t / 2 ^ 24 % 256)).toNat <<< 24) = t := by
  have hlow : t % 2 ^ 24 < 2 ^ 24 := Nat.mod_lt _ (by decide)
  have hhigh : (UInt8.ofNat (t / 2 ^ 24 % 256)).toNat = t / 2 ^ 24 := by
    rw [UInt8.toNat_ofNat']
    omega
  rw [hhigh, Nat.or_comm, ← Nat.shiftLeft_add_eq_or_of_lt hlow, Nat.shiftLeft_eq]
  omega

/-- The tag that is read for a written one: its timestamp and its body, and what is learned from it. -/
def readTag (tag : FlvTag) (timestampMs : Nat) : FlvTag :=
  FlvTag.learnAttributes ⟨Attributes.none, timestampMs, 0, tag.body_, none⟩

/-- A tag can be written: its attributes say what its body is, the body is encodable, and its size fits
the size field. -/
def Writable (tag : FlvTag) : Prop := Attributed tag ∧ BodyEncodable tag.body_ ∧ FitsTag tag

/-- A tag can be written and read: its attributes say what its body is, the body is encodable, and it has
at most the maximum size. -/
def Serializable (flags : Flags) (tag : FlvTag) : Prop :=
  Attributed tag ∧ BodyEncodable tag.body_ ∧ tag.body_.encode.length ≤ flags.flv_max_tag_size

theorem Serializable.writable (h : Serializable { } tag) : Writable tag :=
  ⟨h.1, h.2.1, Nat.lt_of_le_of_lt h.2.2 (by decide)⟩

/-- The bytes of a written tag. -/
def tagBytes (previous : Int32) (tag : FlvTag) (timestampMs : Nat) : Bytes :=
  (writtenHead previous tag.body_.type tag.body_.encode.length timestampMs).bytes ++ tag.body_.encode

theorem tagBytes_length (tag : FlvTag) (timestampMs : Nat) :
    (tagBytes previous tag timestampMs).length = kFlvTagHeaderSize + tag.body_.encode.length := by
  rw [tagBytes, length_append, TagHead.bytes_length]
  rfl

section Decode

variable {flags : Flags} {tag : FlvTag} {timestampMs : Nat}

/-- A whole tag is decoded, whatever follows. -/
theorem decodeTag_tagBytes (previous : Int32) (hfits : FitsTag tag) (htag : Serializable flags tag)
    (htime : timestampMs < 2 ^ 32) (rest : Bytes) :
    decodeTag flags (tagBytes previous tag timestampMs ++ rest) =
      (.ok (.ok (readTag tag timestampMs) (kFlvTagHeaderSize + tag.body_.encode.length)), rest) := by
  rcases htag with ⟨-, hbody, hmax⟩
  have hann := writtenHead_announced previous tag.body_.type timestampMs hfits
  have hlen : ¬ (tag.body_.encode ++ rest).length < tag.body_.encode.length := by
    rw [length_append]
    omega
  have hzero : ¬ (tag.body_.type ≠ .metadata ∧ tag.body_.encode.length = 0) := by
    rintro ⟨hmeta, hzero⟩
    cases hkind : tag.body_ with
    | audio a | video v =>
      rw [hkind] at hbody hzero
      exact absurd hzero (Nat.ne_of_gt hbody)
    | metadata m =>
      rw [hkind] at hmeta
      exact hmeta rfl
  have hlow : numberOf .bigEndian (writeUInt24 (timestampMs % 2 ^ 24) .bigEndian) =
      timestampMs % 2 ^ 24 :=
    numberOf_writeNumber .bigEndian (Nat.mod_lt _ (by decide))
  have hstream : numberOf .bigEndian (writeUInt24 0 .bigEndian) = 0 :=
    numberOf_writeNumber .bigEndian (by decide)
  rcases body_decode_encode hbody rest with ⟨hdecode, hrest⟩
  rw [tagBytes, append_assoc, decodeTag_append, hann, if_neg (Nat.not_lt.2 hmax), if_neg hlen]
  have htype : FlvFrameType.ofByte (writtenHead previous tag.body_.type tag.body_.encode.length
      timestampMs).type = some tag.body_.type := FlvFrameType.ofByte_toByte _
  rw [htype]
  dsimp only
  rw [if_neg hzero, hdecode, hrest]
  dsimp only [writtenHead]
  rw [hlow, hstream, composeTag, timestamp_parts htime]
  rfl

/-- A part of a tag is not decoded, and stays in the stream. -/
theorem decodeTag_part (previous : Int32) (hfits : FitsTag tag) (htag : Serializable flags tag) {p : Bytes}
    (hp : p <+: tagBytes previous tag timestampMs) (hne : p.length < (tagBytes previous tag timestampMs).length) :
    decodeTag flags p = (.error (.status .noData), p) := by
  by_cases hshort : p.length < kFlvTagHeaderSize
  · exact decodeTag_of_short hshort
  · -- The header is complete, so the body is not.
    have hann := writtenHead_announced previous tag.body_.type timestampMs hfits
    have hhead := prefix_or_prefix_of_prefix hp (prefix_append _ tag.body_.encode)
    have hfront : (writtenHead previous tag.body_.type tag.body_.encode.length timestampMs).bytes <+: p := by
      rcases hhead with hp' | hp'
      · have hlen := TagHead.bytes_length
          (writtenHead previous tag.body_.type tag.body_.encode.length timestampMs)
        have heq := hp'.eq_of_length_le (by rw [hlen]; exact Nat.le_of_not_lt hshort)
        exact heq ▸ prefix_rfl
      · exact hp'
    rcases hfront with ⟨rest, rfl⟩
    rw [tagBytes_length, length_append, TagHead.bytes_length] at hne
    have hrest : rest.length < tag.body_.encode.length := Nat.lt_of_add_lt_add_left hne
    rw [decodeTag_append, hann, if_neg (Nat.not_lt.2 htag.2.2), if_pos hrest]

end Decode

theorem header_length (h : FlvHeader) : h.write.length = kFlvHeaderSize := by
  simp only [write, writeUInt24, writeByte, writeUInt32,
    length_append, writeNumber_length, length_singleton]
  rfl

/-- The header is read back. -/
theorem decodeHeader_gets (h : FlvHeader) (hunknown : h.unknown_ < 2 ^ 24) :
    Reader.Gets (decodeHeader { }) h.write h := by
  have hoffset : Gets (readUInt32 .bigEndian >>= fun offset =>
      pure ⟨h.unknown_, h.version_, h.audio_video_flags_, offset⟩ : TagReader FlvHeader) _ h :=
    (readUInt32_gets h.data_offset_ .bigEndian).bind_pure _
  have hflags : Gets (readByte >>= fun flags =>
      readUInt32 .bigEndian >>= fun offset =>
        pure ⟨h.unknown_, h.version_, flags, offset⟩ : TagReader FlvHeader) _ h :=
    (readByte_gets h.audio_video_flags_).bind hoffset
  have hversion : Gets (readByte >>= fun version =>
      readByte >>= fun flags => readUInt32 .bigEndian >>= fun offset =>
        pure ⟨h.unknown_, version, flags, offset⟩ : TagReader FlvHeader) _ h :=
    (readByte_gets h.version_).bind hflags
  have hall : Gets (readUInt24 .bigEndian >>= fun unknown =>
      readByte >>= fun version => readByte >>= fun flags =>
        readUInt32 .bigEndian >>= fun offset =>
          pure ⟨unknown, version, flags, offset⟩ : TagReader FlvHeader) h.write h :=
    (readUInt24_gets .bigEndian hunknown).bind hversion
  have hneed := hall.need (.status .noData) (header_length h).ge
  exact Gets.bind (u := []) (Gets.pure ()) hneed

/-! ## Frames -/

/-- The frame of the header. -/
def headerFrame (h : FlvHeader) : Frame UInt8 Item where
  bytes := h.write
  wants := h.write.length
  out := some (.header h)
  pos := by
    rw [FlvHeader.write, List.length_append, NumStreamer.writeUInt24, NumStreamer.writeNumber_length]
    omega
  le_wants := Nat.le_refl _

theorem tagBytes_pos (previous : Int32) (tag : FlvTag) (timestampMs : Nat) :
    0 < (tagBytes previous tag timestampMs).length := by
  rw [tagBytes_length, kFlvTagHeaderSize]
  omega

/-- The frame of a tag. -/
def tagFrame (previous : Int32) (tag : FlvTag) (timestampMs : Nat) : Frame UInt8 Item where
  bytes := tagBytes previous tag timestampMs
  wants := (tagBytes previous tag timestampMs).length
  out := some (.tag (readTag tag timestampMs))
  pos := tagBytes_pos previous tag timestampMs
  le_wants := Nat.le_refl _

theorem receive_header {h : FlvHeader} (hunknown : h.unknown_ < 2 ^ 24) :
    Session.TakesOne (receive { }) .header (headerFrame h) .tags := by
  refine ⟨.header h, rfl, ?_⟩
  intro b hb
  by_cases hlt : b.length < (headerFrame h).wants
  · rw [if_pos hlt]
    have hsize : b.length < kFlvHeaderSize := (header_length h) ▸ hlt
    have hshort : decodeHeader { } b = (.error (.status .noData), b) :=
      bind_error (need_of_lt _ hsize) _
    rw [receive, hshort]
    rfl
  · rw [if_neg hlt]
    rcases prefix_of_wants hb (Nat.le_of_not_lt hlt) with ⟨rest, rfl⟩
    have hdecode := decodeHeader_gets h hunknown rest
    rw [drop_left, receive]
    change outcomeOf .header .tags Item.header (decodeHeader { } (h.write ++ rest)) = _
    rw [hdecode]
    rfl

theorem receive_tag {timestampMs : Nat} (htag : Serializable { } tag) (htime : timestampMs < 2 ^ 32) :
    Session.TakesOne (receive { }) .tags (tagFrame previous tag timestampMs) .tags := by
  refine ⟨.tag (readTag tag timestampMs), rfl, ?_⟩
  intro b hb
  have hfits : FitsTag tag := htag.writable.2.2
  by_cases hlt : b.length < (tagFrame previous tag timestampMs).wants
  · rw [if_pos hlt]
    have hpart : b <+: tagBytes previous tag timestampMs := by
      rcases hb with hb | hb
      · exact hb
      · exact absurd hb.length_le (Nat.not_le.2 hlt)
    rw [receive, decodeTag_part previous hfits htag hpart hlt]
    rfl
  · rw [if_neg hlt]
    rcases prefix_of_wants hb (Nat.le_of_not_lt hlt) with ⟨rest, rfl⟩
    have hdecode := decodeTag_tagBytes previous hfits htag htime rest
    rw [drop_left, receive]
    change outcomeOf .tags .tags itemOf (decodeTag { } (tagBytes previous tag timestampMs ++ rest)) = _
    rw [hdecode]
    rfl

/-! ## The whole stream -/

/-- The size that is written behind a tag. -/
def writtenSize (e : FlvTag × Nat) : Int32 := Int32.ofNat (11 + e.1.body_.encode.length)

/-- The frames of tags, each with the size of the tag before it. -/
def tagFrames (previous : Int32) (tags : List (FlvTag × Nat)) : List (Frame UInt8 Item) :=
  List.zipWith (fun p e => tagFrame p e.1 e.2) (previous :: tags.map writtenSize) tags

theorem tagFrames_cons (e : FlvTag × Nat) (tags : List (FlvTag × Nat)) :
    tagFrames previous (e :: tags) = tagFrame previous e.1 e.2 :: tagFrames (writtenSize e) tags := rfl

theorem outsOf_tagFrames (tags : List (FlvTag × Nat)) :
    Session.outsOf (tagFrames previous tags) = tags.map fun e => Item.tag (readTag e.1 e.2) := by
  induction tags generalizing previous with
  | nil => rfl
  | cons e tags ih =>
    have hout : (tagFrame previous e.1 e.2).out = some (Item.tag (readTag e.1 e.2)) := rfl
    rw [tagFrames_cons, outsOf, filterMap_cons_some hout, map_cons]
    exact congrArg _ (ih (writtenSize e))

variable {tags : List (FlvTag × Nat)}

theorem tagFrames_chain (h : ∀ e ∈ tags, Serializable { } e.1 ∧ e.2 < 2 ^ 32) :
    Session.Chain (Session.TakesOne (receive { })) .tags (tagFrames previous tags) .tags := by
  induction tags generalizing previous with
  | nil => exact .nil _
  | cons e tags ih =>
    have he := h e mem_cons_self
    rw [tagFrames_cons]
    exact .cons (receive_tag previous he.1 he.2) (ih _ fun e' he' => h e' (mem_cons_of_mem e he'))

/-- Every frame is taken as soon as it is there. -/
theorem tagFrames_wants {previous : Int32} : ∀ f ∈ tagFrames previous tags, f.wants = f.bytes.length := by
  induction tags generalizing previous with
  | nil =>
    intro f hf
    exact absurd hf not_mem_nil
  | cons e tags ih =>
    intro f hf
    rcases mem_cons.1 hf with rfl | hf
    · rfl
    · exact ih f hf

/-- The serializer writes the frames. -/
theorem serializeAll_eq (s : FlvTagSerializer) (h : ∀ e ∈ tags, Writable e.1) :
    ∃ s', s.serializeAll tags = some (s', Session.bytesOf (tagFrames s.previous_tag_size_ tags)) := by
  induction tags generalizing s with
  | nil => exact ⟨s, rfl⟩
  | cons e tags ih =>
    rcases e with ⟨tag, timestampMs⟩
    have he : Writable tag := h (tag, timestampMs) mem_cons_self
    have hfirst : s.serializeInternal tag timestampMs = some (_, tagBytes s.previous_tag_size_ tag timestampMs) :=
      serializeInternal_eq he.1 he.2.1 he.2.2
    rcases ih { s with previous_tag_size_ := writtenSize (tag, timestampMs) }
      fun e' he' => h e' (mem_cons_of_mem _ he') with ⟨s', hrest⟩
    refine ⟨s', ?_⟩
    rw [FlvTagSerializer.serializeAll, hfirst]
    change (FlvTagSerializer.serializeAll { s with previous_tag_size_ := writtenSize (tag, timestampMs) }
      tags >>= fun x => pure (x.1, _)) = _
    rw [hrest, tagFrames_cons, bytesOf_cons]
    rfl

namespace FlvTagSerializer

/-- What a reader of the output expects first. -/
def firstPhase (s : FlvTagSerializer) : Phase := if s.write_header_ then .header else .tags

/-- The header as a reader gets it. -/
def headerItems (s : FlvTagSerializer) : List Item :=
  if s.write_header_ then [.header (FlvHeader.standardHeader s.has_video_ s.has_audio_)] else []

/-- The frames of the output. -/
def frames (s : FlvTagSerializer) (tags : List (FlvTag × Nat)) : List (Frame UInt8 Item) :=
  if s.write_header_ then
    headerFrame (FlvHeader.standardHeader s.has_video_ s.has_audio_) :: tagFrames 0 tags
  else tagFrames 0 tags

end FlvTagSerializer

section Stream

variable (s : FlvTagSerializer) {tags : List (FlvTag × Nat)}

theorem run_eq (h : ∀ e ∈ tags, Writable e.1) : ∃ s', s.run tags = some (s', Session.bytesOf (s.frames tags)) ∧
      Session.bytesOf (s.frames tags) = s.initializeStream.2 ++ Session.bytesOf (tagFrames 0 tags) := by
  rcases serializeAll_eq s.initializeStream.1 h with ⟨s', hall⟩
  have hbytes : bytesOf (s.frames tags) =
      s.initializeStream.2 ++ bytesOf (tagFrames 0 tags) := by
    rw [FlvTagSerializer.frames, FlvTagSerializer.initializeStream]
    split
    · rfl
    · rfl
  refine ⟨s', ?_, hbytes⟩
  rw [FlvTagSerializer.run, hall, Option.map_some, hbytes]
  rfl

theorem standardHeader_unknown (hasVideo hasAudio : Bool) :
    (FlvHeader.standardHeader hasVideo hasAudio).unknown_ < 2 ^ 24 := by
  have hlt : 0x464c56 < 2 ^ 24 := by decide
  exact hlt

theorem frames_chain (h : ∀ e ∈ tags, Serializable { } e.1 ∧ e.2 < 2 ^ 32) :
    Session.Chain (Session.TakesOne (receive { })) s.firstPhase (s.frames tags) .tags := by
  rw [FlvTagSerializer.firstPhase, FlvTagSerializer.frames]
  split
  · exact .cons (receive_header (standardHeader_unknown _ _)) (tagFrames_chain 0 h)
  · exact tagFrames_chain 0 h

theorem outsOf_frames (tags : List (FlvTag × Nat)) :
    Session.outsOf (s.frames tags) = s.headerItems ++ tags.map fun e => Item.tag (readTag e.1 e.2) := by
  rw [FlvTagSerializer.frames, FlvTagSerializer.headerItems]
  split
  · have hout : (headerFrame (standardHeader s.has_video_ s.has_audio_)).out =
        some (Item.header (standardHeader s.has_video_ s.has_audio_)) := rfl
    rw [outsOf, filterMap_cons_some hout, singleton_append]
    exact congrArg _ (outsOf_tagFrames 0 tags)
  · rw [nil_append]
    exact outsOf_tagFrames 0 tags

theorem frames_wants (tags : List (FlvTag × Nat)) : ∀ f ∈ s.frames tags, f.wants = f.bytes.length := by
  intro f hf
  rw [FlvTagSerializer.frames] at hf
  split at hf
  · rcases mem_cons.1 hf with rfl | hf
    · rfl
    · exact tagFrames_wants f hf
  · exact tagFrames_wants f hf

end Stream

/-- The size of the tag before the one at a position, without the size field; zero at the start. -/
def previousTagSize (tags : List (FlvTag × Nat)) : Nat → Nat
  | 0 => 0
  | i + 1 => ((tags[i]?).map fun e => 11 + e.1.body_.encode.length).getD 0

/-- The size field of every tag is the size of the tag before it. -/
theorem tagFrames_previous (previous : Nat) (hprevious : previous < 2 ^ 32)
    (h : ∀ e ∈ tags, Serializable { } e.1 ∧ e.2 < 2 ^ 32) :
    ∀ i f, (tagFrames (Int32.ofNat previous) tags)[i]? = some f →
      NumStreamer.numberOf .bigEndian (f.bytes.take 4) = if i = 0 then previous else previousTagSize tags i := by
  induction tags generalizing previous with
  | nil =>
    intro i f hf
    cases hf
  | cons e tags ih =>
    intro i f hf
    cases i with
    | zero =>
      cases hf
      have hfield : (tagFrame (Int32.ofNat previous) e.1 e.2).bytes.take 4 =
          writeNumber 4 .bigEndian (UInt32.ofNat previous).toNat := by
        exact TagHead.take_four (writtenHead _ _ _ _) _
      rw [hfield, if_pos rfl, UInt32.toNat_ofNat', Nat.mod_eq_of_lt hprevious,
        numberOf_writeNumber .bigEndian hprevious]
    | succ i =>
      have hsize : 11 + e.1.body_.encode.length < 2 ^ 32 := by
        have hmax : e.1.body_.encode.length ≤ 5 * 2 ^ 20 := (h e mem_cons_self).1.2.2
        omega
      have hrest := ih (11 + e.1.body_.encode.length) hsize
        (fun e' he' => h e' (mem_cons_of_mem e he')) i f hf
      rw [hrest, if_neg (Nat.succ_ne_zero i)]
      cases i with
      | zero => rfl
      | succ i => rfl

/-- What the serializer writes is read as the same tags with the same timestamps, wherever the stream is
cut, and the size field of every tag is the size of the tag before it. -/
theorem flv_round_trip (s : FlvTagSerializer) {tags : List (FlvTag × Nat)}
    (h : ∀ e ∈ tags, Serializable { } e.1 ∧ e.2 < 2 ^ 32) :
    ∃ (s' : FlvTagSerializer) (out : Bytes) (blocks : List Bytes), s.run tags = some (s', out) ∧
      (∀ pieces : List Bytes, pieces.flatten = out →
        Session.session (receive { }) s.firstPhase [] pieces =
          ⟨s.headerItems ++ tags.map (fun e => Item.tag (readTag e.1 e.2)), .tags, [], none⟩) ∧
      out = s.initializeStream.2 ++ blocks.flatten ∧ blocks.length = tags.length ∧
      ∀ i block, blocks[i]? = some block →
        NumStreamer.numberOf .bigEndian (block.take 4) = previousTagSize tags i := by
  rcases run_eq s fun e he => (h e he).1.writable with ⟨s', hrun, hout⟩
  refine ⟨s', _, (tagFrames 0 tags).map Frame.bytes, hrun, ?_, ?_, ?_, ?_⟩
  · intro pieces hpieces
    have hend : ∀ phase, receive { } phase [] = .more phase [] := by
      intro phase
      cases phase with
      | header => rfl
      | tags => rfl
    rw [session_complete (delivers_takesOne hend) (frames_chain s h) hpieces
      (frames_wants s tags), outsOf_frames]
  · rw [hout, bytesOf, flatMap_def]
  · rw [length_map, tagFrames, length_zipWith, length_cons, length_map]
    omega
  · intro i block hblock
    rw [getElem?_map] at hblock
    rcases Option.map_eq_some_iff.1 hblock with ⟨f, hf, rfl⟩
    rw [tagFrames_previous 0 (by decide) h i f hf]
    cases i with
    | zero => rfl
    | succ i => rfl

/-- An audio tag and a metadata tag. -/
theorem flv_round_trip_two :
    ∃ (s' : FlvTagSerializer) (out : Bytes) (blocks : List Bytes), (⟨true, true, true, 0⟩ : FlvTagSerializer).run
        [(⟨⟨false, true, false, false, true⟩, 0, 0, .audio (Audio.ofData [0x2F, 1, 2]), none⟩, 16777217),
          (⟨⟨true, false, false, false, false⟩, 0, 0, .metadata ⟨[0x61], ⟨0, [([0x62], .null)]⟩⟩, none⟩, 5)] =
          some (s', out) ∧
      (∀ pieces : List Bytes, pieces.flatten = out →
        (Session.session (receive { }) .header [] pieces).outs.length = 3) ∧
      out.length = 9 + blocks.flatten.length := by
  have hmap : (CMixedMap.toObject ⟨0, [([0x62], .null)]⟩).Encodable := by
    refine .mixedMap 0 ?_ (pairwise_singleton _ _) ?_
    · intro e he
      rw [mem_singleton.1 he]
      exact ⟨by decide, by decide⟩
    · intro e he
      rw [mem_singleton.1 he]
      exact .null
  have hname : (CObject.string [0x61]).Encodable := .string (by decide)
  have htags : ∀ e ∈ [((⟨⟨false, true, false, false, true⟩, 0, 0, .audio (Audio.ofData [0x2F, 1, 2]), none⟩ :
      FlvTag), 16777217), (⟨⟨true, false, false, false, false⟩, 0, 0,
        .metadata ⟨[0x61], ⟨0, [([0x62], .null)]⟩⟩, none⟩, 5)], Serializable { } e.1 ∧ e.2 < 2 ^ 32 := by
    intro e he
    rcases mem_cons.1 he with rfl | he
    · exact ⟨⟨rfl, Nat.succ_pos 2, by decide⟩, by decide⟩
    · rw [mem_singleton.1 he]
      exact ⟨⟨rfl, ⟨hname, hmap⟩, by decide⟩, by decide⟩
  rcases flv_round_trip ⟨true, true, true, 0⟩ htags with ⟨s', out, blocks, hrun, hsession, hout, -, -⟩
  refine ⟨s', out, blocks, hrun, ?_, ?_⟩
  · intro pieces hpieces
    have hresult := hsession pieces hpieces
    change session (receive { }) .header [] pieces = _ at hresult
    rw [hresult]
    rfl
  · rw [hout, length_append]
    rfl

/-- A tag above the maximum size is written, and then refused by the decoder. -/
theorem oversized_refused (h : Writable tag) (hbig : 5 * 2 ^ 20 < tag.body_.encode.length) : ∃ s' out header rest,
      (⟨true, true, true, 0⟩ : FlvTagSerializer).run [(tag, 0)] = some (s', out) ∧
        decodeHeader { } out = (.ok header, rest) ∧
        decodeTag { } rest = (.error (.status .corrupted), rest) := by
  have hwritable : ∀ e ∈ [(tag, 0)], Writable e.1 := by
    intro e he
    rw [mem_singleton.1 he]
    exact h
  rcases run_eq ⟨true, true, true, 0⟩ hwritable with ⟨s', hrun, hout⟩
  have hheader := decodeHeader_gets (standardHeader true true) (standardHeader_unknown _ _)
    (tagBytes 0 tag 0)
  have hann := writtenHead_announced 0 tag.body_.type 0 h.2.2
  have hbytes : bytesOf (FlvTagSerializer.frames ⟨true, true, true, 0⟩ [(tag, 0)]) =
      (standardHeader true true).write ++ tagBytes 0 tag 0 := by
    rw [hout]
    exact congrArg _ (append_nil _)
  refine ⟨s', _, standardHeader true true, tagBytes 0 tag 0, hrun, ?_, ?_⟩
  · rw [hbytes]
    exact hheader
  · rw [tagBytes, decodeTag_append, hann, if_pos hbig]

/-- A metadata tag with a name and no values. -/
def namedTag (name : Bytes) : FlvTag :=
  ⟨⟨true, false, false, false, false⟩, 0, 0, .metadata ⟨name, ⟨0, []⟩⟩, none⟩

theorem namedTag_length {name : Bytes} (h : name.length = 5 * 2 ^ 20) :
    (namedTag name).body_.encode.length = 5 * 2 ^ 20 + 13 := by
  have hname : (Amf0Util.writeString name).length = 5 + 5 * 2 ^ 20 := by
    rw [Amf0Util.writeString_length, h]
    decide
  have hvalues : (CMixedMap.toObject ⟨0, []⟩).encode.length = 8 := by decide
  rw [namedTag, encode, Metadata.encode, length_append, hname, hvalues]
  rfl

theorem namedTag_encodable {name : Bytes} (h : name.length = 5 * 2 ^ 20) : BodyEncodable (namedTag name).body_ := by
  have hname : (CObject.string name).Encodable := by
    apply CObject.Encodable.string
    rw [h]
    decide
  have hvalues : (CMixedMap.toObject ⟨0, []⟩).Encodable :=
    .mixedMap 0 (fun e he => absurd he not_mem_nil) Pairwise.nil
      fun e he => absurd he not_mem_nil
  exact ⟨hname, hvalues⟩

/-- Metadata that AMF0 can encode is written also when it is larger than the maximum size of a tag, and then
the decoder refuses it: a name of five megabytes. -/
theorem oversized_metadata_refused : ∃ name : Bytes, name = List.replicate (5 * 2 ^ 20) 0 ∧
    Attributed (namedTag name) ∧ BodyEncodable (namedTag name).body_ ∧
      ∃ s' out header rest,
        (⟨true, true, true, 0⟩ : FlvTagSerializer).run [(namedTag name, 0)] = some (s', out) ∧
          decodeHeader { } out = (.ok header, rest) ∧
          decodeTag { } rest = (.error (.status .corrupted), rest) := by
  refine ⟨_, rfl, ?_⟩
  generalize hname : replicate (5 * 2 ^ 20) (0 : UInt8) = name
  have hlength : name.length = 5 * 2 ^ 20 := by rw [← hname, length_replicate]
  have hbody := namedTag_encodable hlength
  have hfits : FitsTag (namedTag name) := by
    rw [FitsTag, namedTag_length hlength]
    decide
  have hbig : 5 * 2 ^ 20 < (namedTag name).body_.encode.length := by
    rw [namedTag_length hlength]
    decide
  exact ⟨rfl, hbody, oversized_refused ⟨rfl, hbody, hfits⟩ hbig⟩

end Whispercast.Flv
