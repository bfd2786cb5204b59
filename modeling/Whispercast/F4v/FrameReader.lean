import Whispercast.Io.DataBlock

/-!
# F4V frames

`f4v::FrameHeader`, and the part of `f4v::Decoder` that reads frames from the body of an `MDAT` atom. The frames come
from the tables of the `MOOV` atom; `IOReadFrame` skips those that lie wrong, and puts raw frames where the tables leave
data between them. A failed `CHECK` is `none`.
-/

namespace Whispercast.F4v

open Io

inductive TagDecodeStatus where
  | success | noData | error
  deriving DecidableEq

/-- `FrameHeader::Type`. -/
inductive FrameType where
  | audioFrame | videoFrame | rawFrame
  deriving DecidableEq

/-- `f4v::FrameHeader`. Its numbers are `int64`. -/
structure FrameHeader where
  offset : Int
  size : Int
  decodingTimestamp : Int
  compositionOffsetMs : Int
  duration : Int
  sampleIndex : Int
  type : FrameType
  isKeyframe : Bool
  deriving DecidableEq

/-- `timestamp()`. -/
def FrameHeader.timestamp (h : FrameHeader) : Int := h.decodingTimestamp

structure Frame where
  header : FrameHeader
  data : Bytes
  deriving DecidableEq

/-- The fields of `f4v::Decoder` that belong to the frames of the current `MDAT` atom. -/
structure FrameReader where
  mdatBegin : Int
  mdatEnd : Int
  mdatOffset : Int
  mdatFrames : List FrameHeader
  mdatNext : Nat
  mdatPrevFrame : Option FrameHeader

/-- The loop of `BuildFrames`, with at most `n` frames left. -/
def mergeLoop : Nat → List FrameHeader → List FrameHeader → List FrameHeader
  | 0, _, _ => []
  | _ + 1, [], [] => []
  | n + 1, a :: audio, [] => a :: mergeLoop n audio []
  | n + 1, [], v :: video => v :: mergeLoop n [] video
  | n + 1, a :: audio, v :: video =>
    if a.offset < v.offset then a :: mergeLoop n audio (v :: video) else v :: mergeLoop n (a :: audio) video

/-- `BuildFrames`: the frames of both tracks, the one with the smaller offset first. -/
def mergeFrames (audio video : List FrameHeader) : List FrameHeader :=
  mergeLoop (audio.length + video.length) audio video

namespace FrameReader

/-- The reader behind the header of an `MDAT` atom. -/
def enter (mdatBegin mdatEnd : Int) (frames : List FrameHeader) : FrameReader where
  mdatBegin := mdatBegin
  mdatEnd := mdatEnd
  mdatOffset := mdatBegin
  mdatFrames := frames
  mdatNext := 0
  mdatPrevFrame := none

/-- A raw frame from the current offset on. -/
def rawFrame (r : FrameReader) (size : Int) : FrameHeader where
  offset := r.mdatOffset
  size := size
  decodingTimestamp := (r.mdatPrevFrame.map FrameHeader.timestamp).getD 0
  compositionOffsetMs := 0
  duration := 0
  sampleIndex := 0
  type := .rawFrame
  isKeyframe := false

/-- The raw frame from the first part of a frame that overlaps the end. -/
def cutFrame (r : FrameReader) (frameHeader : FrameHeader) : FrameHeader :=
  { frameHeader with
    offset := r.mdatOffset, size := r.mdatEnd - r.mdatOffset, type := .rawFrame, isKeyframe := false }

/-- What the loop of `IOReadFrame` ends with: nothing more to read, or a frame, and whether it advances to the next
one. -/
inductive Pick where
  | done
  | frame (header : FrameHeader) (advanceToNextFrame : Bool)

/-- The loop of `IOReadFrame` over the frames that are left, of which `next` is the first. -/
def pickFrame (r : FrameReader) : List FrameHeader → Nat → Option (Pick × Nat)
  | [], next => do
      guard (next = r.mdatFrames.length)
      if r.mdatEnd ≤ r.mdatOffset then
        guard (r.mdatOffset = r.mdatEnd)
        some (.done, next)
      else some (.frame (r.rawFrame (r.mdatEnd - r.mdatOffset)) false, next)
  | frameHeader :: rest, next => do
      guard (next < r.mdatFrames.length)
      if frameHeader.offset < r.mdatBegin then r.pickFrame rest (next + 1)
      else if r.mdatEnd ≤ frameHeader.offset then r.pickFrame rest (next + 1)
      else if frameHeader.offset < r.mdatOffset then
        guard r.mdatPrevFrame.isSome
        r.pickFrame rest (next + 1)
      else
        guard (r.mdatOffset ≤ frameHeader.offset)
        if r.mdatOffset < frameHeader.offset then
          some (.frame (r.rawFrame (min frameHeader.offset r.mdatEnd - r.mdatOffset)) false, next)
        else
          guard (r.mdatOffset = frameHeader.offset)
          let frameEnd := frameHeader.offset + frameHeader.size
          if r.mdatEnd < frameEnd then some (.frame (r.cutFrame frameHeader) true, next)
          else
            guard (r.mdatBegin ≤ frameHeader.offset ∧ frameHeader.offset = r.mdatOffset ∧ frameEnd ≤ r.mdatEnd)
            some (.frame frameHeader true, next)

/-- `IOReadFrame`: no frame on success means that there are no more. -/
def ioReadFrame (r : FrameReader) (io : Bytes) : Option (TagDecodeStatus × Option Frame × FrameReader × Bytes) := do
  guard (r.mdatBegin ≤ r.mdatOffset ∧ r.mdatOffset ≤ r.mdatEnd)
  guard (r.mdatPrevFrame.all fun prev => prev.offset + prev.size = r.mdatOffset)
  match ← r.pickFrame (r.mdatFrames.drop r.mdatNext) r.mdatNext with
  | (.done, next) => some (.success, none, { r with mdatNext := next }, io)
  | (.frame header advanceToNextFrame, next) =>
    if (io.length : Int) < header.size then some (.noData, none, { r with mdatNext := next }, io)
    else
      -- `Frame::Decode` moves the data, and it is counted what has gone.
      let rest := io.drop header.size.toNat
      let read : Int := io.length - rest.length
      guard (read = header.size)
      some (.success, some ⟨header, io.take header.size.toNat⟩,
        { r with
          mdatOffset := r.mdatOffset + read
          mdatPrevFrame := some header
          mdatNext := if advanceToNextFrame then next + 1 else next }, rest)

end FrameReader

end Whispercast.F4v
