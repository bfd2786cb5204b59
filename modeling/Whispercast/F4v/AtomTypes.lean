import Whispercast.F4v.SampleTables
import Whispercast.Io.NumStreaming

/-!
# F4V atoms

The atoms of `whisperstreamlib/f4v/atoms`: what a decoded atom keeps. The type of an atom selects its class; the types
whose classes come from `generate_atoms.py`, and all unknown ones, keep their body as it is. The atoms that hold other
atoms are `ContainerAtom` and `ContainerVersionedAtom`. The position of an atom, which is there for debugging, is kept
only where the decoder uses it.
-/

namespace Whispercast.F4v

open Io

def fourCC (a b c d : Char) : UInt32 := UInt32.ofNat (((a.toNat * 256 + b.toNat) * 256 + c.toNat) * 256 + d.toNat)

def atomMoov : UInt32 := fourCC 'm' 'o' 'o' 'v'
def atomMdat : UInt32 := fourCC 'm' 'd' 'a' 't'
def atomTrak : UInt32 := fourCC 't' 'r' 'a' 'k'
def atomMdia : UInt32 := fourCC 'm' 'd' 'i' 'a'
def atomMinf : UInt32 := fourCC 'm' 'i' 'n' 'f'
def atomStbl : UInt32 := fourCC 's' 't' 'b' 'l'

/-- What `BaseAtom` keeps of the header of an atom. -/
structure AtomHeader where
  type : UInt32
  bodySize : Nat
  forceExtendedSize : Bool

namespace AtomHeader

def isExtendedSize (h : AtomHeader) : Bool := h.forceExtendedSize || decide (2 ^ 32 - 1 - 8 < h.bodySize)

def headerSize (h : AtomHeader) : Nat := if h.isExtendedSize then 16 else 8

def size (h : AtomHeader) : Nat := h.bodySize + h.headerSize

end AtomHeader

/-- `version_` and `flags_` of a `VersionedAtom`. -/
structure Version where
  version : UInt8
  flags : FixedBytes 3

structure FtypAtom where
  majorBrand : UInt32
  minorVersion : UInt32
  compatibleBrands : List UInt32

/-- `AvccAtom`; a parameter is its raw data. -/
structure AvccAtom where
  configurationVersion : UInt8
  profile : UInt8
  profileCompatibility : UInt8
  level : UInt8
  naluLengthSize : UInt8
  seqParameters : List Bytes
  picParameters : List Bytes

structure VmhdAtom where
  graphicsMode : UInt16
  opcolor : FixedBytes 6

structure SmhdAtom where
  balance : UInt16
  reserved : FixedBytes 2

structure MvhdAtom where
  creationTime : UInt64
  modificationTime : UInt64
  timeScale : UInt32
  duration : UInt64
  preferredRate : UInt32
  preferredVolume : UInt16
  reserved : FixedBytes 10
  matrixStructure : FixedBytes 36
  previewTime : UInt32
  previewDuration : UInt32
  posterTime : UInt32
  selectionTime : UInt32
  selectionDuration : UInt32
  currentTime : UInt32
  nextTrackId : UInt32

/-- `TkhdAtom`; `width_` and `height_` are fixed point numbers with an integer and a fraction. -/
structure TkhdAtom where
  creationTime : UInt64
  modificationTime : UInt64
  id : UInt32
  reserved1 : FixedBytes 4
  duration : UInt64
  reserved2 : FixedBytes 8
  layer : UInt16
  alternateGroup : UInt16
  volume : UInt16
  reserved3 : FixedBytes 2
  matrixStructure : FixedBytes 36
  width : UInt16 × UInt16
  height : UInt16 × UInt16

structure MdhdAtom where
  creationTime : UInt64
  modificationTime : UInt64
  timeScale : UInt32
  duration : UInt64
  language : UInt16
  reserved : FixedBytes 2

structure HdlrAtom where
  preDefined : UInt32
  handlerType : UInt32
  reserved : FixedBytes 12
  name : Bytes

/-- `EsdsAtom`: the raw body, and what is found in it. -/
structure EsdsAtom where
  rawData : Bytes
  mp4EsDescTagId : UInt16 := 0
  mp4EsDescTagPriority : UInt8 := 0
  mp4DecConfigDescTagObjectTypeId : UInt8 := 0
  mp4DecConfigDescTagStreamType : UInt8 := 0
  mp4DecConfigDescTagBufferSizeDb : Nat := 0
  mp4DecConfigDescTagMaxBitRate : UInt32 := 0
  mp4DecConfigDescTagAvgBitRate : UInt32 := 0
  extraData : Bytes := []

/-- The body of a `VersionedAtom`, behind the version. The records of a `MultiRecordVersionedAtom` are a list. -/
inductive VersionedBody where
  | co64 (records : List UInt64)
  | ctts (records : List (UInt32 × Int32))
  | stco (records : List UInt32)
  | stsc (records : List (UInt32 × UInt32 × UInt32))
  | stss (records : List UInt32)
  | stts (records : List (UInt32 × UInt32))
  | stsz (uniformSampleSize : UInt32) (records : List UInt32)
  | vmhd (atom : VmhdAtom)
  | smhd (atom : SmhdAtom)
  | mvhd (atom : MvhdAtom)
  | tkhd (atom : TkhdAtom)
  | mdhd (atom : MdhdAtom)
  | hdlr (atom : HdlrAtom)
  | esds (atom : EsdsAtom)

/-- The body of an atom that holds no other atoms. -/
inductive LeafBody where
  | raw (rawData : Bytes)
  | null
  | mdat
  | free (bodySize : Nat)
  | ftyp (atom : FtypAtom)
  | avcc (atom : AvccAtom)
  | versioned (version : Version) (body : VersionedBody)

/-- The data of `Avc1Atom`. -/
structure Avc1Data where
  reserved : UInt16
  referenceIndex : UInt16
  qtVideoEncodingVersion : UInt16
  qtVideoEncodingRevisionLevel : UInt16
  qtVEncodingVendor : UInt32
  qtVideoTemporalQuality : UInt32
  qtVideoSpatialQuality : UInt32
  videoFramePixelSize : UInt32
  horizontalDpi : UInt32
  verticalDpi : UInt32
  qtVideoDataSize : UInt32
  videoFrameCount : UInt16
  videoEncoderName : Bytes
  videoPixelDepth : UInt16
  qtVideoColorTableId : UInt16

/-- The sound description of `Mp4aAtom`. -/
structure Mp4aData where
  unknown : UInt16 := 0
  dataReferenceIndex : UInt16 := 0
  innerVersion : UInt16 := 0
  revisionLevel : UInt16 := 0
  vendor : UInt32 := 0
  numberOfChannels : UInt16 := 0
  sampleSizeInBits : UInt16 := 0
  compressionId : Int16 := 0
  packetSize : UInt16 := 0
  sampleRate : UInt16 × UInt16 := (0, 0)
  samplesPerPacket : UInt32 := 0
  bytesPerPacket : UInt32 := 0
  bytesPerFrame : UInt32 := 0
  bytesPerSample : UInt32 := 0

/-- What a `ContainerVersionedAtom` keeps between its version and its subatoms. -/
inductive ContainerData where
  | stsd (count : UInt32)
  | avc1 (data : Avc1Data)
  | mp4a (data : Mp4aData)
  /-- `Mp4aAtom` with a body that it does not understand. -/
  | mp4aRaw (rawData : Bytes)

/-- A decoded atom. -/
inductive Atom where
  | leaf (header : AtomHeader) (body : LeafBody)
  | container (header : AtomHeader) (subatoms : List Atom)
  | containerVersioned (header : AtomHeader) (version : Version) (data : ContainerData) (subatoms : List Atom)

namespace Atom

/-- The header of an atom. -/
def header : Atom → AtomHeader
  | leaf h _ => h
  | container h _ => h
  | containerVersioned h _ _ _ => h

/-- `type`, where an unknown type is the one that it has in the file. -/
def type (a : Atom) : UInt32 := a.header.type

end Atom

end Whispercast.F4v
