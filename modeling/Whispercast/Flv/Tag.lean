import Whispercast.Amf.RoundTrip

/-!
# FLV tags

Model of `flv/flv_consts.h`, `flv/flv_tag.h` and of the body decoders of `flv/flv_tag.cc` and
`flv/flv_coder.cc`. The flags of an audio or video body are read from its data and are read-only, so a
body carries them with the proof that they are those of its data.

Left out: the flavour mask of a tag, names for printing.
-/

namespace Whispercast.Flv

open Library Io Amf

inductive TagReadStatus where
  | noData
  | ok
  | skip
  | corrupted
  | eof
  deriving DecidableEq

inductive FlvFrameType where
  | video
  | audio
  | metadata
  deriving DecidableEq

/-- The byte of a frame type. -/
def FlvFrameType.toByte : FlvFrameType → UInt8
  | .video => 0x09
  | .audio => 0x08
  | .metadata => 0x12

/-- The frame type of a byte, when it is one of the three. -/
def FlvFrameType.ofByte (b : UInt8) : Option FlvFrameType :=
  if b = 0x09 then some .video else if b = 0x08 then some .audio else if b = 0x12 then some .metadata
  else none

@[simp] theorem FlvFrameType.ofByte_toByte (t : FlvFrameType) : ofByte t.toByte = some t := by
  cases t with
  | video => rfl
  | audio => rfl
  | metadata => rfl

/-! ## Audio -/

/-- The flags of an audio body, as the bits that the enumerations of the source name. -/
structure AudioFlags where
  type_ : UInt8
  format_ : UInt8
  rate_ : UInt8
  size_ : UInt8
  is_aac_header_ : Bool

/-- The flags of a new `Audio`. -/
def AudioFlags.initial : AudioFlags := ⟨0, 0, 0, 0, false⟩

def flvFlagSoundFormatAac : UInt8 := 0x0A

/-- `FlvCoder::DecodeAudioFlags`, on the flags as they were before. -/
def decodeAudioFlags (flags : AudioFlags) (ms : Bytes) : TagReadStatus × AudioFlags :=
  match ms with
  | [] => (.noData, flags)
  | fb :: rest =>
    let flags' : AudioFlags :=
      ⟨fb &&& 0x01, (fb &&& 0xF0) >>> 4, (fb &&& 0x0C) >>> 2, (fb &&& 0x02) >>> 1, flags.is_aac_header_⟩
    if flags'.format_ = flvFlagSoundFormatAac then
      match rest with
      | b :: _ :: _ :: _ => (.ok, { flags' with is_aac_header_ := b == 0x00 })
      | _ => (.noData, flags')
    else (.ok, flags')

structure Audio where
  data_ : Bytes
  flags_ : AudioFlags
  /-- The flags are extracted from the data. -/
  learned : flags_ = (decodeAudioFlags AudioFlags.initial data_).2

/-- The body with the given data. -/
def Audio.ofData (data : Bytes) : Audio := ⟨data, _, rfl⟩

@[simp] theorem Audio.ofData_data (a : Audio) : Audio.ofData a.data_ = a := by
  rcases a with ⟨-, -, rfl⟩
  rfl

/-! ## Video -/

/-- The flags of a video body. -/
structure VideoFlags where
  codec_ : UInt8
  frame_type_ : UInt8
  avc_packet_type_ : UInt8
  avc_composition_offset_ms_ : Nat

/-- The flags of a new `Video`: H263, a key frame, an AVC sequence header. -/
def VideoFlags.initial : VideoFlags := ⟨0x02, 0x01, 0x00, 0⟩

def flvFlagVideoCodecAvc : UInt8 := 0x07

def flvFlagVideoFrametypeKeyframe : UInt8 := 0x01

def avcSequenceHeader : UInt8 := 0x00

def avcNalu : UInt8 := 0x01

/-- `FlvCoder::DecodeVideoFlags`, on the flags as they were before. -/
def decodeVideoFlags (flags : VideoFlags) (ms : Bytes) : TagReadStatus × VideoFlags :=
  match ms with
  | [] => (.noData, flags)
  | fb :: rest =>
    let flags' : VideoFlags :=
      { flags with
        codec_ := fb &&& 0x0F
        frame_type_ := (fb &&& 0xF0) >>> 4 }
    if flags'.codec_ = flvFlagVideoCodecAvc then
      match rest with
      | b :: o1 :: o2 :: o3 :: _ =>
        (.ok,
          { flags' with
            avc_packet_type_ := b
            avc_composition_offset_ms_ := NumStreamer.numberOf .bigEndian [o1, o2, o3] })
      | _ => (.noData, flags')
    else (.ok, flags')

/-- `FlvTag::Video`, without its moov tag. -/
structure Video where
  data_ : Bytes
  flags_ : VideoFlags
  /-- The flags are extracted from the data. -/
  learned : flags_ = (decodeVideoFlags VideoFlags.initial data_).2

/-- The body with the given data. -/
def Video.ofData (data : Bytes) : Video := ⟨data, _, rfl⟩

@[simp] theorem Video.ofData_data (v : Video) : Video.ofData v.data_ = v := by
  rcases v with ⟨-, -, rfl⟩
  rfl

/-- The moov data of `FlvCoder::DecodeAuxiliaryMoovTag` once the size field is read at `offset`; the size
is an `int32`. -/
def moovOfSize (data : Bytes) (offset : Nat) : Option Video :=
  let sizeMoov : Int32 :=
    Int32.ofNat (offset + 4 + NumStreamer.numberOf .bigEndian ((data.drop offset).take 4))
  if (data.length : Int) < sizeMoov.toInt ∨ sizeMoov.toInt ≤ 0 then none
  else some (Video.ofData (data.take sizeMoov.toInt.toNat))

/-- `FlvCoder::DecodeAuxiliaryMoovTag`: the video body of the moov tag. -/
def decodeAuxiliaryMoovTag (v : Video) : Option Video :=
  if v.flags_.frame_type_ ≠ flvFlagVideoFrametypeKeyframe ∨ v.flags_.codec_ ≠ flvFlagVideoCodecAvc ∨
      v.flags_.avc_packet_type_ ≠ avcNalu then none
  else if v.data_.length < 35 + 4 then none
  else if v.data_.take 5 ≠ [0x17, 0x01, 0x00, 0x00, 0x00] ∨
      (v.data_.drop 9).take 4 ≠ [0x65, 0x88, 0x80, 0x40] then
    if v.data_.take 11 ≠ [0x17, 0x01, 0x00, 0x00, 0x00, 0x00, 0x00, 0x00, 0x02, 0x09, 0x10] ∨
        (v.data_.drop 35).take 4 ≠ [0x78, 0x32, 0x36, 0x34] then none
    else moovOfSize v.data_ 11
  else moovOfSize v.data_ 5

/-! ## Metadata -/

structure Metadata where
  name_ : Bytes
  values_ : CMixedMap

/-- `FlvTag::Metadata::Decode` on a new body. On an error the stream is as before, and the body has what
was read. -/
def Metadata.decode (ms : Bytes) : (TagReadStatus × Metadata) × Bytes :=
  match CString.decode ms with
  | (.error _, _) => ((.corrupted, ⟨[], ⟨0, []⟩⟩), ms)
  | (.ok name, ms') =>
    match CMixedMap.decode ms' with
    | (.error _, _) => ((.corrupted, ⟨name, CMixedMap.reached 0 ms'⟩), ms)
    -- A wrong size is logged only.
    | (.ok values, ms'') => ((.ok, ⟨name, values⟩), ms'')

def Metadata.encode (m : Metadata) : Bytes := Amf0Util.writeString m.name_ ++ m.values_.toObject.encode

def Metadata.size (m : Metadata) : UInt32 :=
  (CObject.string m.name_).encodingSize + m.values_.toObject.encodingSize

/-- Name and values are within the limits of AMF0. -/
def Metadata.Encodable (m : Metadata) : Prop :=
  (CObject.string m.name_).Encodable ∧ m.values_.toObject.Encodable

/-! ## Tags -/

inductive Body where
  | audio (body : Audio)
  | video (body : Video)
  | metadata (body : Metadata)

namespace Body

/-- The frame type of a body. -/
def type : Body → FlvFrameType
  | audio _ => .audio
  | video _ => .video
  | metadata _ => .metadata

/-- `Body::Decode` of a new body of the given type. -/
def decode (type : FlvFrameType) (ms : Bytes) (size : Nat) : (TagReadStatus × Body) × Bytes :=
  match type with
  | .audio =>
    if ms.length < size then ((.noData, audio (Audio.ofData [])), ms)
    else (((decodeAudioFlags AudioFlags.initial (ms.take size)).1, audio (Audio.ofData (ms.take size))),
      ms.drop size)
  | .video =>
    if ms.length < size then ((.noData, video (Video.ofData [])), ms)
    else (((decodeVideoFlags VideoFlags.initial (ms.take size)).1, video (Video.ofData (ms.take size))),
      ms.drop size)
  | .metadata =>
    match Metadata.decode ms with
    | ((status, body), ms') => ((status, metadata body), ms')

def encode : Body → Bytes
  | audio a => a.data_
  | video v => v.data_
  | metadata m => m.encode

def size : Body → UInt32
  | audio a => UInt32.ofNat a.data_.length
  | video v => UInt32.ofNat v.data_.length
  | metadata m => m.size

end Body

/-- Attributes of a tag. -/
structure Attributes where
  metadata : Bool
  audio : Bool
  video : Bool
  droppable : Bool
  canResync : Bool

/-- No attributes. -/
def Attributes.none : Attributes := ⟨false, false, false, false, false⟩

structure FlvTag where
  attributes_ : Attributes
  timestamp_ms_ : Int
  stream_id_ : Nat
  body_ : Body
  /-- `avc_moov_` of a video body. -/
  avc_moov_ : Option Video

namespace FlvTag

/-- The attributes that `LearnAttributes` adds for a body. -/
def learnedAttributes : Body → Attributes
  | .video v =>
    { Attributes.none with
      video := true
      canResync := v.flags_.frame_type_ == flvFlagVideoFrametypeKeyframe
      droppable := v.flags_.codec_ != flvFlagVideoCodecAvc ||
        v.flags_.avc_packet_type_ != avcSequenceHeader }
  | .audio a =>
    { Attributes.none with
      audio := true
      canResync := true
      droppable := a.flags_.format_ != flvFlagSoundFormatAac || !a.flags_.is_aac_header_ }
  | .metadata _ => { Attributes.none with metadata := true }

def addAttributes (t : FlvTag) (a : Attributes) : FlvTag :=
  { t with
    attributes_ :=
      ⟨t.attributes_.metadata || a.metadata, t.attributes_.audio || a.audio,
        t.attributes_.video || a.video, t.attributes_.droppable || a.droppable,
        t.attributes_.canResync || a.canResync⟩ }

/-- The moov tag that `LearnAttributes` sets. -/
def learnedMoov (t : FlvTag) : Option Video :=
  match t.body_ with
  | .video v => if v.flags_.codec_ = flvFlagVideoCodecAvc then decodeAuxiliaryMoovTag v else t.avc_moov_
  | _ => t.avc_moov_

def learnAttributes (t : FlvTag) : FlvTag :=
  { t.addAttributes (learnedAttributes t.body_) with avc_moov_ := t.learnedMoov }

/-- `FlvTag::Data`: the data of an audio or video body. -/
def data (t : FlvTag) : Option Bytes :=
  match t.body_ with
  | .audio a => some a.data_
  | .video v => some v.data_
  | .metadata _ => none

def size (t : FlvTag) : UInt32 := t.body_.size

end FlvTag

end Whispercast.Flv
