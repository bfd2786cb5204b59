import Whispercast.F4v.AtomTypes

/-!
# The bodies of F4V atoms

`EncodeBody` of the atoms that hold no other atoms, and of the data in front of the subatoms of a
`ContainerVersionedAtom`.
-/

namespace Whispercast.F4v

open Io Library Reader NumStreamer

/-- A function that reads a part of an atom. -/
abbrev BodyReader (α : Type) : Type := StreamReader TagDecodeStatus α

/-! ## Records -/

/-- The class of the records of a `MultiRecordVersionedAtom`: a record has a fixed size and is read back. -/
structure RecordClass (α : Type) where
  encodingSize : Nat
  encode : α → Bytes
  decode : BodyReader α
  encodingSize_pos : 0 < encodingSize
  encode_length : ∀ r, (encode r).length = encodingSize
  decode_gets : ∀ r, Gets decode (encode r) r

/-- `StcoRecord`; `StssRecord` and `StszRecord` are the same. -/
def stcoRecord : RecordClass UInt32 where
  encodingSize := 4
  encode r := writeUInt32 r .bigEndian
  decode := readUInt32 .bigEndian
  encodingSize_pos := by decide
  encode_length _ := writeNumber_length 4 _ _
  decode_gets r := readUInt32_gets r .bigEndian

def co64Record : RecordClass UInt64 where
  encodingSize := 8
  encode r := writeUInt64 r .bigEndian
  decode := readUInt64 .bigEndian
  encodingSize_pos := by decide
  encode_length _ := writeNumber_length 8 _ _
  decode_gets r := readUInt64_gets r .bigEndian

def cttsRecord : RecordClass (UInt32 × Int32) where
  encodingSize := 8
  encode r := [writeUInt32 r.1 .bigEndian, writeInt32 r.2 .bigEndian].flatten
  decode := do
    let sampleCount ← readUInt32 .bigEndian
    let sampleOffset ← readInt32 .bigEndian
    pure (sampleCount, sampleOffset)
  encodingSize_pos := by decide
  encode_length r := by simp [writeUInt32, writeInt32]
  decode_gets r := by
    apply (readUInt32_gets r.1 .bigEndian).cons
    apply (readInt32_gets r.2 .bigEndian).cons
    exact .pure r

def sttsRecord : RecordClass (UInt32 × UInt32) where
  encodingSize := 8
  encode r := [writeUInt32 r.1 .bigEndian, writeUInt32 r.2 .bigEndian].flatten
  decode := do
    let sampleCount ← readUInt32 .bigEndian
    let sampleDelta ← readUInt32 .bigEndian
    pure (sampleCount, sampleDelta)
  encodingSize_pos := by decide
  encode_length r := by simp [writeUInt32]
  decode_gets r := by
    apply (readUInt32_gets r.1 .bigEndian).cons
    apply (readUInt32_gets r.2 .bigEndian).cons
    exact .pure r

def stscRecord : RecordClass (UInt32 × UInt32 × UInt32) where
  encodingSize := 12
  encode r := [writeUInt32 r.1 .bigEndian, writeUInt32 r.2.1 .bigEndian, writeUInt32 r.2.2 .bigEndian].flatten
  decode := do
    let firstChunk ← readUInt32 .bigEndian
    let samplesPerChunk ← readUInt32 .bigEndian
    let sampleDescriptionIndex ← readUInt32 .bigEndian
    pure (firstChunk, samplesPerChunk, sampleDescriptionIndex)
  encodingSize_pos := by decide
  encode_length r := by simp [writeUInt32]
  decode_gets r := by
    apply (readUInt32_gets r.1 .bigEndian).cons
    apply (readUInt32_gets r.2.1 .bigEndian).cons
    apply (readUInt32_gets r.2.2 .bigEndian).cons
    exact .pure r

namespace RecordClass

variable {α : Type} (c : RecordClass α)

def encodeVersionedBody (records : List α) : Bytes :=
  [writeUInt32 (UInt32.ofNat records.length) .bigEndian, records.flatMap c.encode].flatten

end RecordClass

/-! ## Atoms with a fixed layout -/

def writeTime (version : UInt8) (t : UInt64) : Bytes :=
  if version = 0 then writeUInt32 t.toUInt32 .bigEndian else writeUInt64 t .bigEndian

def writeFPU16U16 (x : UInt16 × UInt16) : Bytes :=
  [writeUInt16 x.1 .bigEndian, writeUInt16 x.2 .bigEndian].flatten

namespace VmhdAtom

def encodeVersionedBody (a : VmhdAtom) : Bytes :=
  [writeUInt16 a.graphicsMode .bigEndian, a.opcolor.1].flatten

end VmhdAtom

namespace SmhdAtom

def encodeVersionedBody (a : SmhdAtom) : Bytes := [writeUInt16 a.balance .bigEndian, a.reserved.1].flatten

end SmhdAtom

namespace MvhdAtom

def encodeVersionedBody (version : UInt8) (a : MvhdAtom) : Bytes :=
  [writeTime version a.creationTime, writeTime version a.modificationTime, writeUInt32 a.timeScale .bigEndian,
   writeTime version a.duration, writeUInt32 a.preferredRate .bigEndian, writeUInt16 a.preferredVolume .bigEndian,
   a.reserved.1, a.matrixStructure.1, writeUInt32 a.previewTime .bigEndian, writeUInt32 a.previewDuration .bigEndian,
   writeUInt32 a.posterTime .bigEndian, writeUInt32 a.selectionTime .bigEndian,
   writeUInt32 a.selectionDuration .bigEndian, writeUInt32 a.currentTime .bigEndian,
   writeUInt32 a.nextTrackId .bigEndian].flatten

end MvhdAtom

namespace TkhdAtom

def encodeVersionedBody (version : UInt8) (a : TkhdAtom) : Bytes :=
  [writeTime version a.creationTime, writeTime version a.modificationTime, writeUInt32 a.id .bigEndian,
   a.reserved1.1, writeTime version a.duration, a.reserved2.1, writeUInt16 a.layer .bigEndian,
   writeUInt16 a.alternateGroup .bigEndian, writeUInt16 a.volume .bigEndian, a.reserved3.1, a.matrixStructure.1,
   writeFPU16U16 a.width, writeFPU16U16 a.height].flatten

end TkhdAtom

namespace MdhdAtom

def encodeVersionedBody (version : UInt8) (a : MdhdAtom) : Bytes :=
  [writeTime version a.creationTime, writeTime version a.modificationTime, writeUInt32 a.timeScale .bigEndian,
   writeTime version a.duration, writeUInt16 a.language .bigEndian, a.reserved.1].flatten

end MdhdAtom

namespace HdlrAtom

def encodeVersionedBody (a : HdlrAtom) : Bytes :=
  [writeUInt32 a.preDefined .bigEndian, writeUInt32 a.handlerType .bigEndian, a.reserved.1, a.name].flatten

end HdlrAtom

/-! ## Descriptors -/

namespace EsdsAtom

/-- `MP4ESDescrTag`, `MP4DecConfigDescrTag`, `MP4DecSpecificDescrTag`, `MP4UnknownTag`. -/
def esDescrTag : UInt8 := 0x03
def decConfigDescrTag : UInt8 := 0x04
def decSpecificDescrTag : UInt8 := 0x05

/-- `WriteTagTypeAndLength`: the length in four bytes. -/
def writeTagTypeAndLength (type : UInt8) (length : Nat) : Bytes :=
  [type, UInt8.ofNat (length / 2 ^ 21 % 128 + 128), UInt8.ofNat (length / 2 ^ 14 % 128 + 128),
   UInt8.ofNat (length / 2 ^ 7 % 128 + 128), UInt8.ofNat (length % 128)]

def encodeVersionedBody (a : EsdsAtom) : Bytes :=
  if a.rawData ≠ [] then a.rawData
  else
    [writeTagTypeAndLength esDescrTag 34, writeUInt16 a.mp4EsDescTagId .bigEndian, writeByte a.mp4EsDescTagPriority,
     writeTagTypeAndLength decConfigDescrTag 20, writeByte a.mp4DecConfigDescTagObjectTypeId,
     writeByte a.mp4DecConfigDescTagStreamType, writeUInt24 a.mp4DecConfigDescTagBufferSizeDb .bigEndian,
     writeUInt32 a.mp4DecConfigDescTagMaxBitRate .bigEndian, writeUInt32 a.mp4DecConfigDescTagAvgBitRate .bigEndian,
     writeTagTypeAndLength decSpecificDescrTag 2, a.extraData, [0x06, 0x80, 0x80, 0x80, 0x01, 0x02]].flatten

end EsdsAtom

/-! ## Decoder configuration records -/

namespace AvccAtom

/-- `AvccParameter::Encode`. -/
def encodeParameter (p : Bytes) : Bytes := [writeUInt16 (UInt16.ofNat p.length) .bigEndian, p].flatten

def encodeBody (a : AvccAtom) : Bytes :=
  [writeByte a.configurationVersion, writeByte a.profile, writeByte a.profileCompatibility, writeByte a.level,
   writeByte (0xfc ||| (a.naluLengthSize - 1)), writeByte (0xe0 ||| UInt8.ofNat a.seqParameters.length),
   a.seqParameters.flatMap encodeParameter, writeByte (UInt8.ofNat a.picParameters.length),
   a.picParameters.flatMap encodeParameter].flatten

end AvccAtom

/-! ## File types -/

namespace FtypAtom

def encodeBody (a : FtypAtom) : Bytes :=
  [writeUInt32 a.majorBrand .bigEndian, writeUInt32 a.minorVersion .bigEndian,
   a.compatibleBrands.flatMap fun brand => writeUInt32 brand .bigEndian].flatten

end FtypAtom

/-! ## All of them -/

namespace VersionedBody

/-- `EncodeVersionedBody`. -/
def encode (version : UInt8) : VersionedBody → Bytes
  | co64 records => co64Record.encodeVersionedBody records
  | ctts records => cttsRecord.encodeVersionedBody records
  | stco records => stcoRecord.encodeVersionedBody records
  | stsc records => stscRecord.encodeVersionedBody records
  | stss records => stcoRecord.encodeVersionedBody records
  | stts records => sttsRecord.encodeVersionedBody records
  | stsz uniformSampleSize records =>
    [writeUInt32 uniformSampleSize .bigEndian, stcoRecord.encodeVersionedBody records].flatten
  | vmhd a => a.encodeVersionedBody
  | smhd a => a.encodeVersionedBody
  | mvhd a => a.encodeVersionedBody version
  | tkhd a => a.encodeVersionedBody version
  | mdhd a => a.encodeVersionedBody version
  | hdlr a => a.encodeVersionedBody
  | esds a => a.encodeVersionedBody

/-- The `CHECK` on the version when a body is encoded. -/
def encodable (version : UInt8) : VersionedBody → Bool
  | mvhd _ | tkhd _ | mdhd _ => version = 0 || version = 1
  | _ => true

end VersionedBody

namespace Version

def encode (v : Version) : Bytes := [writeByte v.version, v.flags.1].flatten

end Version

namespace LeafBody

/-- `EncodeBody`. -/
def encode : LeafBody → Bytes
  | raw rawData => rawData
  | null => []
  | mdat => []
  | free bodySize => List.replicate bodySize 0
  | ftyp a => a.encodeBody
  | avcc a => a.encodeBody
  | versioned version body => [version.encode, body.encode version.version].flatten

/-- The `CHECK`s of `EncodeBody`. -/
def encodable : LeafBody → Bool
  | versioned version body => body.encodable version.version
  | _ => true

end LeafBody

/-! ## The data of a container -/

namespace Avc1Data

/-- The bytes that follow the name of an encoder, up to 31. -/
def padding (nameLength : Nat) : Nat := if nameLength < 31 then 31 - nameLength else 0

/-- `Avc1Atom::EncodeData`. -/
def encode (d : Avc1Data) : Bytes :=
  [writeUInt16 d.reserved .bigEndian, writeUInt16 d.referenceIndex .bigEndian,
   writeUInt16 d.qtVideoEncodingVersion .bigEndian, writeUInt16 d.qtVideoEncodingRevisionLevel .bigEndian,
   writeUInt32 d.qtVEncodingVendor .bigEndian, writeUInt32 d.qtVideoTemporalQuality .bigEndian,
   writeUInt32 d.qtVideoSpatialQuality .bigEndian, writeUInt32 d.videoFramePixelSize .bigEndian,
   writeUInt32 d.horizontalDpi .bigEndian, writeUInt32 d.verticalDpi .bigEndian,
   writeUInt32 d.qtVideoDataSize .bigEndian, writeUInt16 d.videoFrameCount .bigEndian,
   writeByte (UInt8.ofNat d.videoEncoderName.length), d.videoEncoderName,
   List.replicate (padding d.videoEncoderName.length) 0, writeUInt16 d.videoPixelDepth .bigEndian,
   writeUInt16 d.qtVideoColorTableId .bigEndian].flatten

end Avc1Data

namespace Mp4aData

/-- `Mp4aAtom::EncodeData`. -/
def encode (d : Mp4aData) : Bytes :=
  [writeUInt16 d.unknown .bigEndian, writeUInt16 d.dataReferenceIndex .bigEndian,
   writeUInt16 d.innerVersion .bigEndian, writeUInt16 d.revisionLevel .bigEndian, writeUInt32 d.vendor .bigEndian,
   writeUInt16 d.numberOfChannels .bigEndian, writeUInt16 d.sampleSizeInBits .bigEndian,
   writeInt16 d.compressionId .bigEndian, writeUInt16 d.packetSize .bigEndian, writeFPU16U16 d.sampleRate,
   if d.innerVersion = 0 then []
   else
    [writeUInt32 d.samplesPerPacket .bigEndian, writeUInt32 d.bytesPerPacket .bigEndian,
     writeUInt32 d.bytesPerFrame .bigEndian, writeUInt32 d.bytesPerSample .bigEndian].flatten].flatten

end Mp4aData

namespace ContainerData

/-- `EncodeData`. -/
def encode : ContainerData → Bytes
  | stsd count => writeUInt32 count .bigEndian
  | avc1 d => d.encode
  | mp4a d => d.encode
  | mp4aRaw rawData => rawData

end ContainerData

end Whispercast.F4v
