import Whispercast.Library.Session
import Whispercast.Rtmp.Event

/-!
# The RTMP coder

Model of `rtmp/rtmp_coder.{h,cc}`. `Encode` writes an event in chunks, each with a header of its own;
`Decode` takes one chunk after the other from the input, keeps the body of an unfinished event of each
channel, and returns an event when its body is complete.

The loop of `Decode` is the repetition of a step that takes one chunk; `READ_NO_DATA` is the outcome that
asks for more. The chunks that `Encode` writes are kept apart here; the stream gets them one behind the
other.
-/

namespace Whispercast.Rtmp

open Library Io Amf

/-- A chunk of an event: a header, and data of the body. -/
structure Chunk where
  header : Bytes
  data : Bytes

/-- What a chunk is in the stream. -/
def Chunk.bytes (k : Chunk) : Bytes := k.header ++ k.data

namespace Coder

/-! ## Decode -/

/-- What a step of `Decode` ends with: an event, if one is complete, more input is needed, or a status. -/
abbrev Step : Type := Outcome Coder UInt8 (Option Event) (Stop ReadStatus)

/-- `to_read`: how much of the body is in this chunk. -/
def toRead (c : Coder) (event_size : UInt32) (initial_event_body_size : Nat) : Int :=
  min (c.read_chunk_size_ : Int) (event_size - UInt32.ofNat initial_event_body_size).toInt32.toInt

/-- The body of a channel grows by the data of a chunk. -/
def appendBody (c : Coder) (channel_id : UInt32) (data : Bytes) : Coder :=
  { c with
    partial_bodies_ := Function.update c.partial_bodies_ channel_id (c.partial_bodies_ channel_id ++ data)
    memory_used_ := c.memory_used_ + data.length }

/-- The first header in a series of chunks becomes the last one of its channel. -/
def setLastRead (c : Coder) (header : Header) (event_size : UInt32) : Coder :=
  { c with
    last_read_event_header_ := Function.update c.last_read_event_header_ header.channel_id_ header
    last_read_event_size_ := Function.update c.last_read_event_size_ header.channel_id_ event_size }

/-- A body is handed to an event: what `DecodeBody` leaves of it stays, and the memory is free. -/
def releaseBody (c : Coder) (channel_id : UInt32) (event_body left : Bytes) : Coder :=
  { c with
    partial_bodies_ := Function.update c.partial_bodies_ channel_id left
    memory_used_ := c.memory_used_ - event_body.length }

/-- The chunk size for reading after an event. -/
def setReadChunkSize (c : Coder) : EventBody → Coder
  | .chunkSize chunk_size => if kMaxChunkSize < chunk_size then c else { c with read_chunk_size_ := chunk_size.toNat }
  | _ => c

/-- A complete body is decoded. -/
def composeEvent (c : Coder) (header : Header) (event_body rest : Bytes) : Step :=
  match decodeBody header.event_type_ event_body with
  | (.ok body, _) =>
    .out (some ⟨header, body.1, body.2.symm⟩)
      ((c.releaseBody header.channel_id_ event_body []).setReadChunkSize body.1) rest
  | (.error (.status .noData), left) => .more (c.releaseBody header.channel_id_ event_body left) rest
  | (.error e, left) => .fail e (c.releaseBody header.channel_id_ event_body left) rest

/-- What follows when all of the chunk is there. -/
def takeChunk (c : Coder) (header : Header) (event_size : UInt32) (data rest input : Bytes) : Step :=
  let filled := c.appendBody header.channel_id_ data
  if filled.memory_limit_ < filled.memory_used_ then .fail (.status .oom) filled input
  else
    let noted := if (c.partial_bodies_ header.channel_id_).length = 0
      then filled.setLastRead header event_size else filled
    if (noted.partial_bodies_ header.channel_id_).length < event_size.toNat then .out none noted rest
    else noted.composeEvent header (noted.partial_bodies_ header.channel_id_) rest

/-- The body of the loop of `Decode`. -/
def decodeChunk (c : Coder) (input : Bytes) : Step :=
  match Header.decode c input with
  | (.error (.status .noData), _) => .more c input
  | (.error e, _) => .fail e c input
  | (.ok (header, event_size), rest) =>
    let to_read := c.toRead event_size (c.partial_bodies_ header.channel_id_).length
    if to_read < 0 then .fail (.status .corruptedData) c input
    else if (rest.length : Int) < to_read then .more c input
    else c.takeChunk header event_size (rest.take to_read.toNat) (rest.drop to_read.toNat) input

/-- `Decode`. Every chunk takes its header byte, so the length of the input bounds their number. -/
def decode (c : Coder) (input : Bytes) : Outcome Coder UInt8 Event (Stop ReadStatus) :=
  Session.untilOut decodeChunk (input.length + 1) c input

/-! ## Encode -/

/-- The chunk size for writing from an event on. -/
def setWriteChunkSize (c : Coder) : EventBody → Option Coder
  | .chunkSize chunk_size =>
    if 0 < chunk_size.toInt32.toInt then some { c with write_chunk_size_ := chunk_size.toNat } else none
  | _ => some c

/-- The first header of an event becomes the last one of its channel. -/
def setLastWrite (c : Coder) (header : Header) (event_size : UInt32) : Coder :=
  { c with
    last_write_event_header_ := Function.update c.last_write_event_header_ header.channel_id_ header
    last_write_event_size_ := Function.update c.last_write_event_size_ header.channel_id_ event_size }

/-- The body of the loop of `EncodeWithAuxBuffer`: the chunk, and what is left of the event stream. -/
def encodeChunk (c : Coder) (header : Header) (num_chunks : Nat) (event_stream : Bytes) :
    Option (Coder × Chunk × Bytes) := do
  let bytes ← header.encode c (UInt32.ofNat event_stream.length) (decide (0 < num_chunks))
  let chunk_size := min event_stream.length c.write_chunk_size_
  let noted := if num_chunks = 0 then c.setLastWrite header (UInt32.ofNat event_stream.length) else c
  some (noted, ⟨bytes, event_stream.take chunk_size⟩, event_stream.drop chunk_size)

/-- The loop of `EncodeWithAuxBuffer`, by a fuel: a chunk for every piece of the event stream, and one
chunk for an empty one. -/
def encodeLoop (header : Header) : Nat → Coder → Nat → Bytes → Option (Coder × List Chunk)
  | 0, _, _, _ => none
  | n + 1, c, num_chunks, event_stream => do
      let (c', chunk, left) ← c.encodeChunk header num_chunks event_stream
      if left = [] then some (c', [chunk])
      else do
        let (c'', chunks) ← encodeLoop header n c' (num_chunks + 1) left
        some (c'', chunk :: chunks)

def encodeWithAuxBuffer (c : Coder) (event : Event) (event_stream : Bytes) : Option (Coder × List Chunk) := do
  let sized ← c.setWriteChunkSize event.body
  encodeLoop event.header_ (event_stream.length + 1) sized 0 event_stream

def encode (c : Coder) (event : Event) : Option (Coder × List Chunk) :=
  c.encodeWithAuxBuffer event event.body.encodeBody

/-- One event after the other, each with the event stream it is sent with. -/
def encodeAll : Coder → List (Event × Bytes) → Option (Coder × List (List Chunk))
  | c, [] => some (c, [])
  | c, (event, event_stream) :: rest => do
      let (c', chunks) ← c.encodeWithAuxBuffer event event_stream
      let (c'', more) ← encodeAll c' rest
      some (c'', chunks :: more)

end Coder

end Whispercast.Rtmp
