import Whispercast.Logio.RecordWriter

/-!
# Reading records

Model of `io::RecordReader` (`common/io/logio/recordio.cc`). A call is given the stream of blocks, and a stream for
the record or none. `ZlibInflateWrapper::Inflate` is a parameter: whether it ends with `Z_STREAM_END`, and what it
writes. A `CHECK` that fails is `none`.
-/

namespace Whispercast.Logio

open Io

inductive ReadResult where
  | ok
  | noData
  | crcCorrupted
  | zipCorrupted
  | crcBlockBroken
  deriving DecidableEq

/-- What a `RecordReader` is made with. -/
structure ReaderParams where
  block_size_ : Nat
  computeCRC : Bytes → Int32
  inflate : Bytes → Bool × Bytes

structure RecordReader where
  content_ : Bytes := []
  record_content_ : Bytes := []
  prev_block_crc_ : Int32 := 0
  skip_record_ : Bool := false
  deriving DecidableEq

namespace RecordReader

/-- `ReadInt32` of the first bytes. -/
def int32At (s : Bytes) : Int32 := (UInt32.ofNat (NumStreamer.numberOf .bigEndian (s.take 4))).toInt32

/-- The length in the header of a piece, behind its flags. -/
def lengthAt (s : Bytes) : Nat := NumStreamer.numberOf .bigEndian ((s.drop 1).take 3)

def clear (r : RecordReader) : RecordReader := { r with content_ := [] }

/-- The checksum that a block has of the one before is not that of the last block. Zero stands for none. -/
def Broken (prev_crc prev_block_crc : Int32) : Prop :=
  prev_crc ≠ 0 ∧ prev_block_crc ≠ 0 ∧ prev_crc ≠ prev_block_crc

instance (prev_crc prev_block_crc : Int32) : Decidable (Broken prev_crc prev_block_crc) :=
  inferInstanceAs (Decidable (_ ∧ _))

/-- `ReadNextBlock` on a block of which `data` is all but the three numbers at its end. The first two are written
again behind `data` for the checksum. -/
def acceptBlock (p : ReaderParams) (r : RecordReader) (data : Bytes) (content_size prev_crc crc : Int32) :
    ReadResult × RecordReader :=
  let temp := data ++ NumStreamer.writeInt32 content_size .bigEndian ++ NumStreamer.writeInt32 prev_crc .bigEndian
  if p.computeCRC temp ≠ crc ∨ (p.block_size_ - kBlockTrailerEnd : Int) < content_size.toInt then (.crcCorrupted, r)
  else
    -- A negative size stands for all of the stream.
    let content := if content_size.toInt < 0 then temp else temp.take content_size.toInt.toNat
    (if Broken prev_crc r.prev_block_crc_ then .crcBlockBroken else .ok,
      { r with prev_block_crc_ := crc, content_ := r.content_ ++ content })

def readNextBlock (p : ReaderParams) (r : RecordReader) (input : Bytes) : Option (ReadResult × RecordReader × Bytes) :=
  if input.length < p.block_size_ then some (.noData, r, input)
  else if p.block_size_ < kBlockTrailerEnd then none
  else
    let trailer := input.drop (p.block_size_ - kBlockTrailerEnd)
    let (ret, r) := acceptBlock p r (input.take (p.block_size_ - kBlockTrailerEnd)) (int32At trailer)
      (int32At (trailer.drop 4)) (int32At (trailer.drop 8))
    some (ret, r, input.drop p.block_size_)

def skipRecord (r : RecordReader) : Option RecordReader :=
  match r.content_ with
  | flags :: _ :: _ :: _ :: rest =>
    some { r with
      content_ := rest.drop (lengthAt r.content_), skip_record_ := flags &&& RecordFlags.hasCont ≠ 0 }
  | _ => none

/-- `while ( skip_record_ && !content_.IsEmpty() ) SkipRecord()`. Each turn takes a header at least. -/
def skipRecords : Nat → RecordReader → Option RecordReader
  | 0, _ => none
  | n + 1, r => if r.skip_record_ = true ∧ r.content_ ≠ [] then (skipRecord r).bind (skipRecords n) else some r

/-- What a turn of the loop in `ReadRecord` does: it returns a result and what it appended to `out`, or goes on. -/
inductive Turn where
  | returned (result : ReadResult) (out : Bytes) (r : RecordReader)
  | next (r : RecordReader)

/-- The rest of the loop behind a turn. -/
def Turn.andThen (input : Bytes) (again : RecordReader → Option (ReadResult × Bytes × RecordReader × Bytes)) :
    Turn → Option (ReadResult × Bytes × RecordReader × Bytes)
  | .returned result out r => some (result, out, r, input)
  | .next r => again r

/-- A turn of the loop in `ReadRecord`, on a content that has been read; `out` tells whether `out != NULL`. -/
def readPiece (p : ReaderParams) (out : Bool) (r : RecordReader) : Option Turn :=
  match r.content_ with
  | flags :: _ :: _ :: _ :: rest =>
    let len := lengthAt r.content_
    if flags &&& RecordFlags.isFirst ≠ 0 ∧ r.record_content_ ≠ [] then
      some (.returned .crcCorrupted [] { r with content_ := rest.drop len, record_content_ := [] })
    else if r.record_content_ = [] ∧ flags &&& RecordFlags.isFirst = 0 then
      some (.next { r with content_ := rest.drop len })
    else
      let r := { r with content_ := rest.drop len, record_content_ := r.record_content_ ++ rest.take len }
      let done := { r with record_content_ := [] }
      if flags &&& RecordFlags.hasCont ≠ 0 then some (.next r)
      else if out = false then some (.returned .ok [] done)
      else if flags &&& RecordFlags.isZipped ≠ 0 then
        let (ended, data) := p.inflate r.record_content_
        some (.returned (if ended then .ok else .zipCorrupted) data done)
      else some (.returned .ok r.record_content_ done)
  | _ => none

/-- The loop of `ReadRecord`, for `n` turns at most. -/
def readLoop (p : ReaderParams) (out : Bool) :
    Nat → RecordReader → Bytes → Option (ReadResult × Bytes × RecordReader × Bytes)
  | 0, _, _ => none
  | n + 1, r, input =>
    (if r.content_ = [] then readNextBlock p r input else some (.ok, r, input)).bind fun (ret, r, input) =>
      let pending := ret = .crcBlockBroken ∧ r.record_content_ ≠ []
      let ret := if pending then .ok else ret
      let r := if pending then { r with skip_record_ := true } else r
      if ret ≠ .ok then some (ret, [], r, input)
      else
        (skipRecords (r.content_.length + 1) r).bind fun r =>
          if r.content_ = [] then readLoop p out n r input
          else (readPiece p out r).bind (Turn.andThen input fun r => readLoop p out n r input)

/-- `ReadRecord`: its result, what it appends to `out`, the reader, and what is left of the stream. A turn that goes
on has read a block or taken a piece. -/
def readRecord (p : ReaderParams) (out : Bool) (r : RecordReader) (input : Bytes) :
    Option (ReadResult × Bytes × RecordReader × Bytes) :=
  readLoop p out (input.length + r.content_.length + 1) r input

/-! ## The caller -/

/-- Repeated calls of `ReadRecord` until `READ_NO_DATA`, `n` calls at most, with what each of the others gave. -/
def drainLoop (p : ReaderParams) :
    Nat → RecordReader → Bytes → Option (List (ReadResult × Bytes) × RecordReader × Bytes)
  | 0, _, _ => none
  | n + 1, r, input =>
    (readRecord p true r input).bind fun (result, data, r, input) =>
      if result = .noData then some ([], r, input)
      else (drainLoop p n r input).map fun (results, r, input) => ((result, data) :: results, r, input)

/-- All that can be read now. A call that returns something has read a block or taken a piece. -/
def drain (p : ReaderParams) (r : RecordReader) (input : Bytes) :
    Option (List (ReadResult × Bytes) × RecordReader × Bytes) :=
  drainLoop p (input.length + r.content_.length + 1) r input

/-- Pieces of the stream arrive, and after each of them all that can be read is read. -/
def feed (p : ReaderParams) : List Bytes → RecordReader → Bytes → Option (List (ReadResult × Bytes))
  | [], _, _ => some []
  | piece :: pieces, r, input =>
    (drain p r (input ++ piece)).bind fun (results, r, input) => (feed p pieces r input).map (results ++ ·)

end RecordReader

end Whispercast.Logio
