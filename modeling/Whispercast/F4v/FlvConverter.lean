import Whispercast.F4v.AtomTree
import Whispercast.Flv.Tag
import Whispercast.Library.Run

/-!
# From F4V to FLV

Model of `F4vToFlvConverter` (`f4v/f4v_to_flv.cc`), with `GetEsdsAtom`, `GetAvccAtom` and the formats that
`ExtractMediaInfo` finds (`f4v/f4v_util.cc`). The metadata tag of a `MOOV` atom is a parameter. A failed `CHECK` is
`none`, and so is the first element of a vector without elements.
-/

namespace Whispercast.F4v

open Io Flv Option

/-- `f4v::Tag`: an atom with its position, or a frame. -/
inductive F4vTag where
  | atom (atom : Atom) (position : Nat)
  | frame (frame : Frame)

/-! ## What is found in MOOV -/

/-- `MediaInfo::Audio::Format`. -/
inductive AudioFormat where
  | aac | mp3
  deriving DecidableEq

/-- `MediaInfo::Video::Format`. -/
inductive VideoFormat where
  | h263 | h264 | onVp6
  deriving DecidableEq

/-- What `ConvertMoov` uses of a `MediaInfo`: the formats, where there is audio and video. -/
structure MediaFormats where
  audio : Option AudioFormat := none
  video : Option VideoFormat := none
  deriving DecidableEq

namespace Atom

/-- The subatoms of a versioned container with the given type. -/
def versionedContainerOf (type : UInt32) : Atom → Option (List Atom)
  | containerVersioned h _ _ subatoms => if h.type = type then some subatoms else none
  | _ => none

/-- The body of an `ESDS` atom. -/
def esdsOf : Atom → Option EsdsAtom
  | leaf _ (.versioned _ (.esds esds)) => some esds
  | _ => none

/-- An `AVCC` atom. -/
def avccOf : Atom → Option Atom
  | leaf h (.avcc avcc) => some (leaf h (.avcc avcc))
  | _ => none

/-- The subatoms of the `STSD` atom of a track. -/
def stsd (moov : Atom) (audio : Bool) : Option (List Atom) := do
  let trak ← moov.subatoms.find? (isTrak audio)
  let mdia ← lastSome (containerOf atomMdia) trak.subatoms
  let minf ← lastSome (containerOf atomMinf) mdia
  let stbl ← minf.findSome? (containerOf atomStbl)
  lastSome (versionedContainerOf (fourCC 's' 't' 's' 'd')) stbl

/-- The subatoms of the `MP4A` atom. -/
def mp4a (moov : Atom) : Option (List Atom) :=
  (moov.stsd true).bind (lastSome (versionedContainerOf (fourCC 'm' 'p' '4' 'a')))

/-- The subatoms of the `AVC1` atom. -/
def avc1 (moov : Atom) : Option (List Atom) :=
  (moov.stsd false).bind (lastSome (versionedContainerOf (fourCC 'a' 'v' 'c' '1')))

/-- `GetEsdsAtom`: in `MP4A`, or in its `WAVE` atom. -/
def getEsdsAtom (moov : Atom) : Option EsdsAtom :=
  moov.mp4a.bind fun mp4a =>
    match lastSome esdsOf mp4a with
    | some esds => some esds
    | none => (lastSome (containerOf (fourCC 'w' 'a' 'v' 'e')) mp4a).bind (lastSome esdsOf)

def getAvccAtom (moov : Atom) : Option Atom := moov.avc1.bind (lastSome avccOf)

/-- The atoms and time scales that `ExtractMediaInfo` asks for in a track. -/
def hasTrack (moov : Atom) (audio : Bool) : Bool :=
  (do
    let mvhd ← records (fun | .mvhd a => some a.timeScale.toNat | _ => none) moov.subatoms
    let trak ← moov.moov.trak audio
    let mdia ← trak.mdia
    let minf ← mdia.minf
    let timeScale ← mdia.mdhd
    let stbl ← minf.stbl
    let _ ← stbl.stsz
    let _ ← moov.stsd audio
    let _ ← stbl.stsc
    guard (mvhd ≠ 0 ∧ timeScale ≠ 0)).isSome

/-- `ExtractMediaInfo`: the video track is looked at when the audio track is complete. -/
def extractMediaInfo (moov : Atom) : MediaFormats :=
  if moov.hasTrack true ∧ moov.mp4a.isSome then
    { audio := some .aac
      video := if moov.hasTrack false ∧ moov.avc1.isSome then some .h264 else none }
  else {}

/-- `ExtractMediaInfoFromMoov`, as far as `ConvertMoov` uses the result. The frames are to begin at the offset 0, so the
offset of the first frame is read. -/
def extractMediaInfoFromMoov (moov : Atom) (frames : List FrameHeader) : Option MediaFormats :=
  frames.head?.map fun _ => moov.extractMediaInfo

end Atom

/-! ## The converter -/

structure F4vToFlvConverter where
  audio_format_ : AudioFormat := .aac
  video_format_ : VideoFormat := .h264

namespace F4vToFlvConverter

/-- A new tag; its body is decoded and the status is checked. -/
def newTag (type : FlvFrameType) (attributes : Attributes) (timestamp : Int) (buf : Bytes) : Option FlvTag :=
  match Body.decode type buf buf.length with
  | ((.ok, body), _) => some ⟨attributes, timestamp, 0, body, none⟩
  | _ => none

def createAudioTag (c : F4vToFlvConverter) (timestamp : Int) (is_aac_header : Bool) (data : Bytes) : Option FlvTag :=
  -- 44 kHz, 16 bit, stereo
  let audio_first_byte : UInt8 := 0x0f ||| match c.audio_format_ with
    | .aac => 0xa0
    | .mp3 => 0x20
  let audio_second_byte : UInt8 := if is_aac_header then 1 else 0
  newTag .audio { Attributes.none with audio := true } timestamp
    (NumStreamer.writeByte audio_first_byte ++ (NumStreamer.writeByte audio_second_byte ++ data))

/-- `CreateVideoTag`. Of the composition offset 24 bits are written. -/
def createVideoTag (c : F4vToFlvConverter) (timestamp composition_offset_ms : Int) (is_avc_header is_keyframe : Bool)
    (data : Bytes) : Option FlvTag :=
  let video_first_byte : UInt8 := (if is_avc_header || is_keyframe then 0x10 else 0x20) ||| match c.video_format_ with
    | .h263 => 0x02
    | .h264 => 0x07
    | .onVp6 => 0x04
  newTag .video { Attributes.none with video := true } timestamp
    (NumStreamer.writeByte video_first_byte ++ (NumStreamer.writeByte (if is_avc_header then 0x00 else 0x01) ++
      (NumStreamer.writeUInt24 (composition_offset_ms % 2 ^ 24).toNat .bigEndian ++ data)))

def getEsds (c : F4vToFlvConverter) (timestamp : Int) (esds : EsdsAtom) : Option FlvTag :=
  c.createAudioTag timestamp true esds.extraData

/-- `GetAvcc`: the body of the atom, without type and size. -/
def getAvcc (c : F4vToFlvConverter) (timestamp : Int) (avcc : Atom) : Option FlvTag :=
  avcc.encode.bind fun ms => c.createVideoTag timestamp 0 true true (ms.drop 8)

section

variable (getMetadata : Atom → Option Metadata)

/-- `GetMetadata`. -/
def metadataTag (timestamp : Int) (moov : Atom) : Option FlvTag :=
  (getMetadata moov).map fun metadata =>
    ⟨{ Attributes.none with metadata := true }, timestamp, 0, .metadata metadata, none⟩

/-- A tag for an atom that may be missing. -/
def tagOf {α : Type} (create : α → Option FlvTag) : Option α → Option (List FlvTag)
  | none => some []
  | some a => (create a).map fun tag => [tag]

/-- `ConvertMoov`. The vector of frames has no elements. -/
def convertMoov (c : F4vToFlvConverter) (timestamp : Int) (moov : Atom) : Option (F4vToFlvConverter × List FlvTag) := do
  let info ← moov.extractMediaInfoFromMoov []
  let c : F4vToFlvConverter :=
    { audio_format_ := info.audio.getD c.audio_format_, video_format_ := info.video.getD c.video_format_ }
  let metadata ← metadataTag getMetadata timestamp moov
  let avcc ← tagOf (c.getAvcc timestamp) moov.getAvccAtom
  let esds ← tagOf (c.getEsds timestamp) moov.getEsdsAtom
  some (c, metadata :: (avcc ++ esds))

/-- `ConvertTag`. The timestamp of an atom is 0. -/
def convertTag (c : F4vToFlvConverter) : F4vTag → Option (F4vToFlvConverter × List FlvTag)
  | .atom atom _ => if atom.type = atomMoov then c.convertMoov getMetadata 0 atom else some (c, [])
  | .frame frame =>
    match frame.header.type with
    | .audioFrame =>
      (c.createAudioTag frame.header.timestamp false frame.data).map fun tag => (c, [tag])
    | .videoFrame =>
      (c.createVideoTag frame.header.timestamp frame.header.compositionOffsetMs false frame.header.isKeyframe
        frame.data).map fun tag => (c, [tag])
    | .rawFrame => some (c, [])

/-- The converter behind some tags. -/
def convertTags (tags : List F4vTag) : Option F4vToFlvConverter :=
  Library.run (fun c tag => (convertTag getMetadata c tag).map Prod.fst) {} tags

end

/-! ## What a tag is converted to -/

/-- `newTag` of a body whose flags are decoded. -/
theorem newTag_audio {buf : Bytes} (attributes : Attributes) (timestamp : Int)
    (h : (decodeAudioFlags AudioFlags.initial buf).1 = .ok) :
    newTag .audio attributes timestamp buf = some ⟨attributes, timestamp, 0, .audio (Audio.ofData buf), none⟩ := by
  simp [newTag, Body.decode, h]

theorem newTag_video {buf : Bytes} (attributes : Attributes) (timestamp : Int)
    (h : (decodeVideoFlags VideoFlags.initial buf).1 = .ok) :
    newTag .video attributes timestamp buf = some ⟨attributes, timestamp, 0, .video (Video.ofData buf), none⟩ := by
  simp [newTag, Body.decode, h]

/-- An AAC body that is not an AAC header, with the given payload behind the two bytes of the codec. -/
def IsAacData (payload : Bytes) : Body → Prop
  | .audio a => a.flags_.format_ = flvFlagSoundFormatAac ∧ a.flags_.is_aac_header_ = false ∧ a.data_.drop 2 = payload
  | _ => False

/-- A body that is an AAC header. -/
def IsAacHeader : Body → Prop
  | .audio a => a.flags_.format_ = flvFlagSoundFormatAac ∧ a.flags_.is_aac_header_ = true
  | _ => False

/-- A body that is an AVC sequence header. -/
def IsAvcSequenceHeader : Body → Prop
  | .video v => v.flags_.codec_ = flvFlagVideoCodecAvc ∧ v.flags_.avc_packet_type_ = avcSequenceHeader
  | _ => False

/-- An AVC NALU body with the payload, the keyframe flag and the composition offset of a frame. -/
def IsAvcNalu (frame : Frame) : Body → Prop
  | .video v =>
    v.flags_.codec_ = flvFlagVideoCodecAvc ∧ v.flags_.avc_packet_type_ = avcNalu ∧ v.data_.drop 5 = frame.data ∧
      (v.flags_.frame_type_ = flvFlagVideoFrametypeKeyframe ↔ frame.header.isKeyframe = true) ∧
      (0 ≤ frame.header.compositionOffsetMs → frame.header.compositionOffsetMs < 2 ^ 23 →
        (v.flags_.avc_composition_offset_ms_ : Int) = frame.header.compositionOffsetMs)
  | _ => False

/-- A `MOOV` atom with H264 video and AAC audio. -/
def IsMoov (atom : Atom) : Prop := atom.type = atomMoov ∧ atom.extractMediaInfo = ⟨some .aac, some .h264⟩

instance (atom : Atom) : Decidable (IsMoov atom) := inferInstanceAs (Decidable (_ ∧ _))

/-- The tags keep the meaning of the tag that they are created from. A raw frame and another atom have no tags to keep
it. -/
def Kept (tag : F4vTag) (tags : Option (List FlvTag)) : Prop :=
  match tag with
  | .atom atom _ =>
    IsMoov atom → ∃ ts, tags = some ts ∧
      (∀ avcc, atom.getAvccAtom = some avcc → ∃ t ∈ ts, IsAvcSequenceHeader t.body_) ∧
      (∀ esds, atom.getEsdsAtom = some esds → ∃ t ∈ ts, IsAacHeader t.body_)
  | .frame frame =>
    match frame.header.type with
    | .audioFrame =>
      ∃ t, tags = some [t] ∧ t.timestamp_ms_ = frame.header.timestamp ∧ IsAacData frame.data t.body_
    | .videoFrame => ∃ t, tags = some [t] ∧ t.timestamp_ms_ = frame.header.timestamp ∧ IsAvcNalu frame t.body_
    | .rawFrame => True

/-- The tags whose meaning is lost: every such `MOOV` atom, and every audio frame. -/
def Lost : F4vTag → Prop
  | .atom atom _ => IsMoov atom
  | .frame frame => frame.header.type = .audioFrame

section Results

variable {getMetadata : Atom → Option Metadata}

/-- A `MOOV` atom is never converted: the first of no frames is asked for its offset. -/
theorem convertMoov_eq_none (c : F4vToFlvConverter) (timestamp : Int) (moov : Atom) :
    c.convertMoov getMetadata timestamp moov = none := rfl

/-- The converter never learns other formats than those it begins with. -/
theorem convertTag_converter {c c' : F4vToFlvConverter} {tag : F4vTag} {ts : List FlvTag}
    (h : convertTag getMetadata c tag = some (c', ts)) : c' = c := by
  cases tag with
  | atom atom position =>
    simp only [convertTag, convertMoov_eq_none] at h
    split at h
    · cases h
    · cases h
      rfl
  | frame frame =>
    simp only [convertTag] at h
    cases htype : frame.header.type with
    | audioFrame | videoFrame =>
      rw [htype] at h
      obtain ⟨t, -, ht⟩ := map_eq_some_iff.1 h
      exact (congrArg Prod.fst ht).symm
    | rawFrame =>
      rw [htype] at h
      cases h
      rfl

theorem convertTags_converter {c : F4vToFlvConverter} {tags : List F4vTag}
    (h : convertTags getMetadata tags = some c) : c = {} := by
  refine Library.run_invariant (I := fun c => c = {}) (M := fun _ => True) ?_ rfl (fun _ _ => trivial) h
  intro c tag c' hc _ hstep
  obtain ⟨⟨_, _⟩, hconvert, rfl⟩ := map_eq_some_iff.1 hstep
  exact (convertTag_converter hconvert).trans hc

/-- The second byte of an audio tag for an ordinary frame says that it is an AAC header. -/
theorem createAudioTag_header {timestamp : Int} {data : Bytes} {t : FlvTag}
    (h : createAudioTag {} timestamp false data = some t) : IsAacHeader t.body_ := by
  cases hflags : (decodeAudioFlags AudioFlags.initial (0xaf :: 0x00 :: data)).1 with
  | ok =>
    obtain rfl := Option.some.inj ((newTag_audio _ timestamp hflags).symm.trans h)
    -- The flags are read when there are two more bytes.
    match data with
    | [] => cases hflags
    | [_] => cases hflags
    | _ :: _ :: _ => exact ⟨rfl, rfl⟩
  | _ =>
    have hnone : createAudioTag {} timestamp false data = none := by
      change newTag _ _ _ (0xaf :: 0x00 :: data) = _
      simp [newTag, Body.decode, hflags]
    cases hnone.symm.trans h

/-- The frame type that a tag for a frame has. -/
theorem frameType_iff (key : Bool) :
    (((if (false || key) = true then 0x10 else 0x20) ||| 0x07 : UInt8) &&& 0xF0) >>> 4 = flvFlagVideoFrametypeKeyframe ↔
      key = true := by
  cases key with
  | false => decide
  | true => decide

/-- The codec that a tag for a frame has. -/
theorem frameCodec_eq (key : Bool) :
    ((if (false || key) = true then 0x10 else 0x20) ||| 0x07 : UInt8) &&& 0x0F = flvFlagVideoCodecAvc := by
  cases key with
  | false => decide
  | true => decide

/-- The 24 bits of the composition offset. -/
theorem writeUInt24_eq (x : Nat) : ∃ o1 o2 o3, NumStreamer.writeUInt24 x .bigEndian = [o1, o2, o3] ∧
      (x < 2 ^ 24 → NumStreamer.numberOf .bigEndian [o1, o2, o3] = x) := by
  have hlength : (NumStreamer.writeUInt24 x .bigEndian).length = 3 := NumStreamer.writeNumber_length 3 _ _
  obtain ⟨o1, o2, o3, h⟩ := List.length_eq_three.1 hlength
  refine ⟨o1, o2, o3, h, fun hx => ?_⟩
  rw [← h]
  exact NumStreamer.numberOf_writeNumber .bigEndian (n := 3) (by simpa using hx)

/-- A video tag for an ordinary frame decodes as what the frame is. -/
theorem createVideoTag_kept (frame : Frame) :
    ∃ t, createVideoTag {} frame.header.timestamp frame.header.compositionOffsetMs false frame.header.isKeyframe
        frame.data = some t ∧ t.timestamp_ms_ = frame.header.timestamp ∧ IsAvcNalu frame t.body_ := by
  obtain ⟨o1, o2, o3, hoffset, hnumber⟩ := writeUInt24_eq (frame.header.compositionOffsetMs % 2 ^ 24).toNat
  generalize hb : ((if (false || frame.header.isKeyframe) = true then 0x10 else 0x20) ||| 0x07 : UInt8) = b
  have hcodec : b &&& 0x0F = flvFlagVideoCodecAvc := hb ▸ frameCodec_eq _
  have htype : (b &&& 0xF0) >>> 4 = flvFlagVideoFrametypeKeyframe ↔ frame.header.isKeyframe = true :=
    hb ▸ frameType_iff _
  have hflags : decodeVideoFlags VideoFlags.initial (b :: 0x01 :: o1 :: o2 :: o3 :: frame.data) =
      (.ok, ⟨b &&& 0x0F, (b &&& 0xF0) >>> 4, 0x01, NumStreamer.numberOf .bigEndian [o1, o2, o3]⟩) := by
    simp [decodeVideoFlags, hcodec]
  refine ⟨⟨{ Attributes.none with video := true }, frame.header.timestamp, 0,
    .video (Video.ofData (b :: 0x01 :: o1 :: o2 :: o3 :: frame.data)), none⟩, ?_, rfl, ?_⟩
  · unfold createVideoTag
    simp only [hoffset, hb]
    exact newTag_video _ _ (congrArg Prod.fst hflags)
  · refine ⟨?_, ?_, rfl, ?_, fun h0 hlt => ?_⟩
    · exact (congrArg (fun f => f.2.codec_) hflags).trans hcodec
    · exact congrArg (fun f => f.2.avc_packet_type_) hflags
    · have hframe := congrArg (fun f => f.2.frame_type_) hflags
      exact (Eq.congr_left hframe).trans htype
    · have hread := congrArg (fun f => f.2.avc_composition_offset_ms_) hflags
      have hmod : frame.header.compositionOffsetMs % 2 ^ 24 = frame.header.compositionOffsetMs :=
        Int.emod_eq_of_lt h0 (by omega)
      rw [hmod] at hnumber
      have h := hread.trans (hnumber (by omega))
      exact (congrArg Nat.cast h).trans (Int.toNat_of_nonneg h0)

/-- A tag keeps its meaning unless it is a `MOOV` atom with H264 and AAC or an audio frame: whatever the converter has
seen before, it aborts at every such `MOOV` atom, and an AAC frame becomes what a decoder takes for an AAC header, or a
tag that it cannot decode. -/
theorem convertTag_kept_iff {before : List F4vTag} {c : F4vToFlvConverter}
    (hrun : convertTags getMetadata before = some c) (tag : F4vTag) :
    Kept tag ((convertTag getMetadata c tag).map Prod.snd) ↔ ¬ Lost tag := by
  obtain rfl := convertTags_converter hrun
  cases tag with
  | atom atom position =>
    constructor
    · intro hkept hmoov
      obtain ⟨_, hts, -, -⟩ := hkept hmoov
      simp [convertTag, hmoov.1, convertMoov_eq_none] at hts
    · intro hlost hmoov
      exact absurd hmoov hlost
  | frame frame =>
    cases htype : frame.header.type with
    | audioFrame =>
      simp only [Kept, Lost, convertTag, htype, not_true_eq_false, iff_false]
      rintro ⟨t, ht, -, hdata⟩
      obtain ⟨_, hresult, hts⟩ := map_eq_some_iff.1 ht
      obtain ⟨t', hcreate, rfl⟩ := map_eq_some_iff.1 hresult
      obtain rfl : t' = t := by simpa using hts
      have hheader := createAudioTag_header hcreate
      -- The same flag would be set and not set.
      cases hbody : t'.body_ with
      | audio a =>
        rw [hbody] at hheader hdata
        exact Bool.false_ne_true (hdata.2.1.symm.trans hheader.2)
      | video v =>
        rw [hbody] at hdata
        exact hdata
      | metadata m =>
        rw [hbody] at hdata
        exact hdata
    | videoFrame =>
      obtain ⟨t, hcreate, htime, hnalu⟩ := createVideoTag_kept frame
      simp only [Kept, Lost, convertTag, htype, hcreate]
      exact ⟨fun _ => nofun, fun _ => ⟨t, rfl, htime, hnalu⟩⟩
    | rawFrame =>
      simp [Kept, Lost, htype]

end Results

section Samples

/-- The metadata tag of the samples. -/
def sampleMetadata (_ : Atom) : Option Metadata := some ⟨[], ⟨0, []⟩⟩

/-- A frame of the samples: 23 ms long, behind a frame of the same kind. -/
def sampleFrame (type : FrameType) : Frame := ⟨⟨40, 4, 23, 0, 23, 1, type, false⟩, [0x21, 0x10, 0x04, 0x60]⟩

theorem convertTag_kept_video : Kept (.frame (sampleFrame .videoFrame))
      ((convertTag sampleMetadata {} (.frame (sampleFrame .videoFrame))).map Prod.snd) :=
  (convertTag_kept_iff (show convertTags sampleMetadata [] = some {} from rfl) _).2 nofun

/-- An atom with the size that its body has. -/
def sampleLeaf (type : UInt32) (body : LeafBody) : Atom := .leaf ⟨type, body.encode.length, false⟩ body

/-- A container with the size that its subatoms have. -/
def sampleContainer (type : UInt32) (subatoms : List Atom) : Atom :=
  .container ⟨type, (subatoms.map fun a => a.header.size).sum, false⟩ subatoms

/-- Version 0 without flags. -/
def sampleVersion : Version := ⟨0, ⟨[0, 0, 0], rfl⟩⟩

/-- Reserved bytes. -/
def sampleZeros (n : Nat) : FixedBytes n := ⟨List.replicate n 0, List.length_replicate⟩

/-- An atom with a version. -/
def sampleVersioned (type : UInt32) (body : VersionedBody) : Atom :=
  sampleLeaf type (.versioned sampleVersion body)

/-- A container with a version and data. -/
def sampleDescription (type : UInt32) (data : ContainerData) (subatoms : List Atom) : Atom :=
  .containerVersioned ⟨type, 4 + data.encode.length + (subatoms.map fun a => a.header.size).sum, false⟩ sampleVersion
    data subatoms

/-- A track with one frame of 4 bytes. -/
def sampleTrak (volume : UInt16) (description : Atom) : Atom :=
  sampleContainer atomTrak
    [sampleVersioned (fourCC 't' 'k' 'h' 'd')
      (.tkhd ⟨0, 0, 1, sampleZeros 4, 23, sampleZeros 8, 0, 0, volume, sampleZeros 2, sampleZeros 36, (0, 0), (0, 0)⟩),
     sampleContainer atomMdia
      [sampleVersioned (fourCC 'm' 'd' 'h' 'd') (.mdhd ⟨0, 0, 1000, 23, 0, sampleZeros 2⟩),
       sampleContainer atomMinf
        [sampleContainer atomStbl
          [sampleDescription (fourCC 's' 't' 's' 'd') (.stsd 1) [description],
           sampleVersioned (fourCC 's' 't' 't' 's') (.stts [(1, 23)]),
           sampleVersioned (fourCC 's' 't' 's' 'c') (.stsc [(1, 1, 1)]),
           sampleVersioned (fourCC 's' 't' 's' 'z') (.stsz 0 [4]),
           sampleVersioned (fourCC 's' 't' 'c' 'o') (.stco [40])]]]]

/-- An audio track with AAC. -/
def sampleMp4a : Atom :=
  sampleDescription (fourCC 'm' 'p' '4' 'a')
    (.mp4a { dataReferenceIndex := 1, numberOfChannels := 2, sampleSizeInBits := 16, sampleRate := (44100, 0) })
    [sampleVersioned (fourCC 'e' 's' 'd' 's')
      (.esds { rawData := { rawData := [], extraData := [0x12, 0x10] : EsdsAtom }.encodeVersionedBody
               extraData := [0x12, 0x10] })]

/-- A video track with H264. -/
def sampleAvc1 : Atom :=
  sampleDescription (fourCC 'a' 'v' 'c' '1')
    (.avc1 ⟨0, 0, 0, 0, 0, 0, 0, 0, 0, 0, 0, 1, List.replicate 31 0, 24, 0⟩)
    [sampleLeaf (fourCC 'a' 'v' 'c' 'C') (.avcc ⟨1, 66, 0, 30, 4, [[0x67, 0x42]], [[0x68, 0xce]]⟩)]

/-- A `MOOV` atom with H264 video and AAC audio. -/
def sampleMoov : Atom :=
  sampleContainer atomMoov
    [sampleVersioned (fourCC 'm' 'v' 'h' 'd')
      (.mvhd ⟨0, 0, 1000, 23, 0, 0, sampleZeros 10, sampleZeros 36, 0, 0, 0, 0, 0, 0, 2⟩),
     sampleTrak 256 sampleMp4a, sampleTrak 0 sampleAvc1]

/-- The `MOOV` atom aborts the conversion, and the audio frame becomes an AAC header. -/
theorem convertTag_moov_audio_lost : IsMoov sampleMoov ∧ convertTag sampleMetadata {} (.atom sampleMoov 0) = none ∧
      (∃ ts, (convertTag sampleMetadata {} (.frame (sampleFrame .audioFrame))).map Prod.snd = some ts ∧
        ∀ t ∈ ts, IsAacHeader t.body_) ∧
      ¬ Kept (.atom sampleMoov 0) ((convertTag sampleMetadata {} (.atom sampleMoov 0)).map Prod.snd) ∧
      ¬ Kept (.frame (sampleFrame .audioFrame))
        ((convertTag sampleMetadata {} (.frame (sampleFrame .audioFrame))).map Prod.snd) := by
  have hmoov : IsMoov sampleMoov := by decide +kernel
  refine ⟨hmoov, rfl, ⟨_, rfl, ?_⟩, fun hkept => ?_, ?_⟩
  · intro t ht
    rw [List.mem_singleton.1 ht]
    exact ⟨rfl, rfl⟩
  · obtain ⟨ts, hts, -, -⟩ := hkept hmoov
    cases hts
  · rintro ⟨t, ht, -, hdata⟩
    obtain rfl := List.singleton_inj.1 (Option.some.inj ht)
    cases hdata.2.1

end Samples

end F4vToFlvConverter

end Whispercast.F4v
