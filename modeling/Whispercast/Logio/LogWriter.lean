import Whispercast.Logio.LogReader
import Whispercast.Logio.Recording

/-!
# Writing a log

Model of `io::LogWriter` (`common/io/logio/logio.cc`) in an empty directory, where no operation on a file fails. A
`CHECK` that fails is `none`.
-/

namespace Whispercast.Logio

open Io

/-- `LogWriter`, which is initialized: the files behind it, and the file that is open, at whose end it writes. -/
structure LogWriter where
  files : List Bytes := []
  file_ : Bytes := []
  buf_ : Bytes := []
  recorder_ : RecordWriter := {}
  deriving DecidableEq

namespace LogWriter

/-- `OpenNextLog`: the next file is a new one. -/
def openNextLog (w : LogWriter) : LogWriter := { w with files := w.files ++ [w.file_], file_ := [] }

/-- The loop of `WriteBuffer`, for `n` turns at most. -/
def writeLoop (p : WriterParams) (blocks_per_file : Nat) : Nat → LogWriter → Option (Bool × LogWriter)
  | 0, _ => none
  | n + 1, w =>
    if w.buf_ = [] then some (true, w)
    else
      let pos := w.file_.length
      if pos % p.block_size_ ≠ 0 ∨ p.block_size_ * blocks_per_file < pos then some (false, w)
      else if ¬ pos < p.block_size_ * blocks_per_file then none
      else if w.buf_.length % p.block_size_ ≠ 0 then none
      else
        let to_write := min (p.block_size_ * blocks_per_file - pos) w.buf_.length
        let w := { w with file_ := w.file_ ++ w.buf_.take to_write, buf_ := w.buf_.drop to_write }
        writeLoop p blocks_per_file n (if w.file_.length = p.block_size_ * blocks_per_file then w.openNextLog else w)

/-- `WriteBuffer`. Each turn writes something. -/
def writeBuffer (p : WriterParams) (blocks_per_file : Nat) (w : LogWriter) : Option (Bool × LogWriter) :=
  writeLoop p blocks_per_file (w.buf_.length + 1) w

/-- `WriteRecord`, after the recorder was called. -/
def writeRecord (p : WriterParams) (blocks_per_file : Nat) (w : LogWriter)
    (result : Option (Bool × Bytes × RecordWriter)) : Option (Bool × LogWriter) :=
  result.bind fun (finished, out, recorder) =>
    let w := { w with buf_ := w.buf_ ++ out, recorder_ := recorder }
    if finished then writeBuffer p blocks_per_file w else some (true, w)

def flush (p : WriterParams) (blocks_per_file : Nat) (w : LogWriter) : Option (Bool × LogWriter) :=
  (RecordWriter.finalizeContent p w.recorder_).bind fun (out, recorder) =>
    let w := { w with buf_ := w.buf_ ++ out, recorder_ := recorder }
    if w.buf_ = [] then some (true, w) else writeBuffer p blocks_per_file w

/-- A call of a `LogWriter`: `WriteRecord(buffer, size)`, `WriteRecord(in)` or `Flush`. -/
def step (p : WriterParams) (blocks_per_file : Nat) (w : LogWriter) : WriterCall → Option LogWriter
  | .buffer data =>
    (writeRecord p blocks_per_file w (RecordWriter.appendBuffer p data w.recorder_)).map Prod.snd
  | .stream data =>
    (writeRecord p blocks_per_file w (RecordWriter.appendStream p data w.recorder_)).map Prod.snd
  | .finalize => (flush p blocks_per_file w).map Prod.snd

def tell (p : WriterParams) (blocks_per_file : Nat) (w : LogWriter) : Option LogPos :=
  if w.file_.length % p.block_size_ ≠ 0 then none
  else if w.file_.length = blocks_per_file * p.block_size_ then
    some ⟨w.files.length + 1, 0, w.recorder_.content_record_count_⟩
  else some ⟨w.files.length, (w.file_.length / p.block_size_ : Nat), w.recorder_.content_record_count_⟩

/-- `Close`: the files that it leaves. -/
def close (p : WriterParams) (blocks_per_file : Nat) (w : LogWriter) : Option Disk :=
  (RecordWriter.finalizeContent p w.recorder_).bind fun (out, recorder) =>
    (writeBuffer p blocks_per_file { w with buf_ := w.buf_ ++ out, recorder_ := recorder }).map fun (_, w) =>
      (w.files ++ [w.file_]).map some

end LogWriter

/-- The state of a new `LogWriter` behind some calls. -/
def logWriter (p : WriterParams) (blocks_per_file : Nat) (calls : List WriterCall) : Option LogWriter :=
  (RecordWriter.new p).bind fun recorder =>
    Library.run (LogWriter.step p blocks_per_file) { recorder_ := recorder } calls

/-- The log that a new `LogWriter` leaves. -/
def writeLog (p : WriterParams) (blocks_per_file : Nat) (calls : List WriterCall) : Option Disk :=
  (logWriter p blocks_per_file calls).bind (LogWriter.close p blocks_per_file)

/-- The parameters of a reader for a log. -/
def WriterParams.logReader (p : WriterParams) (blocks_per_file : Nat) (inflate : Bytes → Bool × Bytes) : LogParams where
  toReaderParams := p.reader inflate
  blocks_per_file_ := blocks_per_file

end Whispercast.Logio
