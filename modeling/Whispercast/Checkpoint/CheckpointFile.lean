import Whispercast.Checkpoint.StateMap
import Whispercast.Logio.RoundTrip

/-!
# Checkpoint files

Model of `CheckpointWriter` and `ReadCheckpointFile` (`common/io/checkpoint/checkpointing.cc`). A checkpoint file has the
records of a `RecordWriter`: a mark, a name and a value for each entry, and a mark at the end. A file is its number and
its content. No operation on a file fails; a `CHECK` that fails is `none`.
-/

namespace Whispercast.Checkpoint

open Io Logio
open Http (ascii)

def kCheckpointBegin : Bytes := ascii "__checkpoint_begin__"
def kCheckpointEnd : Bytes := ascii "__checkpoint_end__"
def kDefaultCheckpointBlockSize : Nat := 65536

/-- The parameters of the `RecordWriter` of a checkpoint: zlib's `crc32`, and the size from which on a block is written,
nine tenths of the content of a block. -/
def recordParams (crc : Bytes → Int32) : WriterParams where
  block_size_ := kDefaultCheckpointBlockSize
  dumpable_size_ := 9 * (kDefaultCheckpointBlockSize - kBlockTrailerEnd) / 10
  computeCRC := crc

/-- Nothing is inflated. -/
def readerParams (crc : Bytes → Int32) : ReaderParams := (recordParams crc).reader fun _ => (false, [])

/-- The files of checkpoints, in the order of their numbers. -/
abbrev CheckpointFiles : Type := List (Nat × Bytes)

/-! ## Writing -/

/-- `CheckpointWriter`; `file_` is the number of the open file. -/
structure CheckpointWriter where
  file_ : Option Nat := none
  recorder_ : RecordWriter := {}
  names_ : List Bytes := []
  buf_ : Bytes := []

namespace CheckpointWriter

variable (crc : Bytes → Int32)

/-- `GetLastNumberedFile`, and one more. -/
def nextNumber (files : CheckpointFiles) : Nat := (files.getLast?.map fun f => f.1 + 1).getD 0

/-- `AppendRecord(buffer, size, out)` with a negative size: the header of a piece, and no data. -/
def appendNegative (p : WriterParams) (size : Int32) (r : RecordWriter) : Option (Bool × Bytes × RecordWriter) :=
  if p.block_size_ ≤ kBlockTrailerEnd + kRecordHeaderSize + r.content_.length then none
  else
    RecordWriter.maybeDump p ([], 0, { r with
      content_ := r.content_ ++ RecordFlags.isFirst :: NumStreamer.writeUInt24 size.toUInt32.toNat .bigEndian
      content_record_count_ := r.content_record_count_ + 1 })

/-- `recorder_->AppendRecord` into `buf_`. The size of a text is passed as an `int32`. -/
def append (w : CheckpointWriter) (data : Bytes) : Option (Bool × CheckpointWriter) :=
  let size := Int32.ofNat data.length
  (if size.toInt < 0 then appendNegative (recordParams crc) size w.recorder_
    else RecordWriter.appendBuffer (recordParams crc) (data.take size.toInt.toNat) w.recorder_).map
      fun (finished, out, recorder) => (finished, { w with recorder_ := recorder, buf_ := w.buf_ ++ out })

def beginCheckpoint (w : CheckpointWriter) (files : CheckpointFiles) : Option (CheckpointWriter × CheckpointFiles) :=
  if w.file_.isSome ∨ w.names_ ≠ [] ∨ w.buf_ ≠ [] then none
  else
    (RecordWriter.new (recordParams crc)).bind fun recorder =>
      (append crc { w with file_ := some (nextNumber files), recorder_ := recorder } kCheckpointBegin).map fun (_, w) =>
        (w, files ++ [(nextNumber files, [])])

/-- `WriteBuffer`: the buffer goes to the end of the open file. -/
def writeBuffer (w : CheckpointWriter) (files : CheckpointFiles) : Option (CheckpointWriter × CheckpointFiles) :=
  w.file_.bind fun n =>
    if w.buf_.length % kDefaultCheckpointBlockSize ≠ 0 then none
    else some ({ w with buf_ := [] }, files.map fun f => if f.1 = n then (f.1, f.2 ++ w.buf_) else f)

def addRecord (w : CheckpointWriter) (files : CheckpointFiles) (name value : Bytes) :
    Option (Bool × CheckpointWriter × CheckpointFiles) :=
  if w.file_.isNone then none
  else if name ∈ w.names_ then some (false, w, files)
  else
    (append crc { w with names_ := w.names_ ++ [name] } name).bind fun (fin1, w) =>
      (append crc w value).bind fun (fin2, w) =>
        if fin1 || fin2 then (writeBuffer w files).map fun (w, files) => (true, w, files)
        else some (true, w, files)

/-- `AddRecord` of every entry, as long as it succeeds. -/
def addRecords (w : CheckpointWriter) (files : CheckpointFiles) :
    StateMap → Option (Bool × CheckpointWriter × CheckpointFiles)
  | [] => some (true, w, files)
  | (name, value) :: entries =>
    (addRecord crc w files name value).bind fun (ok, w, files) =>
      if ok then addRecords w files entries else some (false, w, files)

/-- `EndCheckpoint`, with `ClearCheckpoint`. -/
def endCheckpoint (w : CheckpointWriter) (files : CheckpointFiles) : Option (CheckpointWriter × CheckpointFiles) :=
  if w.file_.isNone then none
  else
    (append crc w kCheckpointEnd).bind fun (_, w) =>
      (RecordWriter.finalizeContent (recordParams crc) w.recorder_).bind fun (block, recorder) =>
        (writeBuffer { w with recorder_ := recorder, buf_ := w.buf_ ++ block } files).map fun (_, files) => ({}, files)

end CheckpointWriter

/-- `WriteCheckpointFile`: whether it succeeds, and the files. -/
def writeCheckpointFile (crc : Bytes → Int32) (files : CheckpointFiles) (m : StateMap) :
    Option (Bool × CheckpointFiles) :=
  (CheckpointWriter.beginCheckpoint crc {} files).bind fun (w, files) =>
    (w.addRecords crc files m).bind fun (ok, w, files) =>
      if ok then (w.endCheckpoint crc files).map fun (_, files) => (true, files) else some (false, files)

/-! ## Reading -/

/-- The local variables of `ReadCheckpointFile`. -/
structure CheckpointScan where
  checkpoint : StateMap := []
  reading_name : Bool := true
  name : Bytes := []
  first_record : Bool := true

namespace CheckpointScan

/-- A record is grouped into an entry; the file begins incorrectly with `none`. -/
def takeRecord (s : CheckpointScan) (rec : Bytes) : Option CheckpointScan :=
  if s.first_record then if rec = kCheckpointBegin then some { s with first_record := false } else none
  else if s.reading_name then some { s with reading_name := false, name := rec }
  else some { s with reading_name := true, checkpoint := s.checkpoint.insert s.name rec }

/-- The inner loop of `ReadCheckpointFile`, for `n` records at most. Without a result it returns false, with the
checkpoint so far. -/
def recordLoop (p : ReaderParams) : Nat → RecordReader → Bytes → CheckpointScan →
    Option (Except StateMap (RecordReader × CheckpointScan))
  | 0, _, _, _ => none
  | n + 1, r, input, s =>
    (RecordReader.readRecord p true r input).bind fun (err, rec, r, input) =>
      if err = .noData then if input = [] then some (.ok (r, s)) else none
      else if err ≠ .ok then some (.error s.checkpoint)
      else
        match s.takeRecord rec with
        | none => some (.error s.checkpoint)
        | some s => recordLoop p n r input s

/-- The outer loop of `ReadCheckpointFile`, for `n` blocks at most: whether the file is finished correctly, and the
checkpoint. -/
def blockLoop (p : ReaderParams) : Nat → RecordReader → Bytes → CheckpointScan → Option (Bool × StateMap)
  | 0, _, _, _ => none
  | n + 1, r, file, s =>
    if file = [] then some (decide (s.name = kCheckpointEnd), s.checkpoint)
    else if file.length < kDefaultCheckpointBlockSize then some (false, s.checkpoint)
    else
      let input := file.take kDefaultCheckpointBlockSize
      (recordLoop p (input.length + r.content_.length + 1) r input s).bind fun
        | .error checkpoint => some (false, checkpoint)
        | .ok (r, s) => blockLoop p n r (file.drop kDefaultCheckpointBlockSize) s

end CheckpointScan

def readCheckpointFile (crc : Bytes → Int32) (file : Bytes) : Option (Bool × StateMap) :=
  CheckpointScan.blockLoop (readerParams crc) (file.length + 1) {} file {}

/-- The loop of `ReadCheckpoint` over the files, the newest first, with the checkpoint that was read last. -/
def readNewest (crc : Bytes → Int32) (checkpoint : StateMap) : CheckpointFiles → Option (Bool × StateMap)
  | [] => some (false, checkpoint)
  | f :: files =>
    (readCheckpointFile crc f.2).bind fun (ok, checkpoint) =>
      if ok then some (true, checkpoint) else readNewest crc checkpoint files

/-- `ReadCheckpoint` into an empty map. -/
def readCheckpoint (crc : Bytes → Int32) (files : CheckpointFiles) : Option (Bool × StateMap) :=
  readNewest crc [] files.reverse

end Whispercast.Checkpoint
