import Whispercast.Logio.Retry

/-!
# A directory of logs

Model of `LogWriter` (`common/io/logio/logio.cc`) on a directory that may have files of earlier writers, with
`GetLastNumberedFile` and `Rename` (`common/io/ioutil.cc`). With `temporary_incomplete_file_` the open file lies in the
directory `temp`, and is moved when it is closed, unless there is one of its name. No operation on a file fails for
another reason; a `CHECK` that fails is `none`.
-/

namespace Whispercast.Logio

open Io Library List

/-- The file with a number is written or removed. -/
def Disk.put (d : Disk) (n : Nat) (file : Option Bytes) : Disk :=
  (d ++ List.replicate (n + 1 - d.length) none).set n file

/-- `GetLastNumberedFile`; without a file it is `none`. -/
def Disk.getLastNumberedFile (d : Disk) : Option Nat :=
  (List.range d.length).reverse.find? fun n => (d.file n).isSome

/-- The log files of a directory, and those of its directory `temp`. -/
structure LogDir where
  files : Disk := []
  temp : Disk := []

/-- `Rename` of the temporary file with a number, without overwriting. -/
def LogDir.rename (dir : LogDir) (n : Nat) : LogDir :=
  match dir.temp.file n with
  | none => dir
  | some file =>
    if (dir.files.file n).isSome then dir
    else { files := dir.files.put n (some file), temp := dir.temp.put n none }

/-- What a `LogWriter` is made with, besides its directory. -/
structure DirParams extends WriterParams where
  blocks_per_file_ : Nat
  temporary_incomplete_file_ : Bool

/-- The size of a full file. -/
def DirParams.fileSize (p : DirParams) : Nat := p.block_size_ * p.blocks_per_file_

/-- `LogWriter`, on a directory in which its file is open. -/
structure DirWriter where
  dir : LogDir
  file_num_ : Nat
  buf_ : Bytes := []
  recorder_ : RecordWriter := {}

namespace DirWriter

variable (p : DirParams)

/-- The directory of the open file. -/
def open_ (w : DirWriter) : Disk := if p.temporary_incomplete_file_ then w.dir.temp else w.dir.files

/-- The content of the open file. A file that is opened is created. -/
def file_ (w : DirWriter) : Bytes := ((w.open_ p).file w.file_num_).getD []

/-- The open file gets a content. -/
def putFile (w : DirWriter) (content : Bytes) : DirWriter :=
  if p.temporary_incomplete_file_ then
    { w with dir := { w.dir with temp := w.dir.temp.put w.file_num_ (some content) } }
  else { w with dir := { w.dir with files := w.dir.files.put w.file_num_ (some content) } }

def closeLog (w : DirWriter) : DirWriter :=
  if p.temporary_incomplete_file_ then { w with dir := w.dir.rename w.file_num_ } else w

/-- `OpenNextLog` without an open file, for `n` files at most. -/
def openLog : Nat → DirWriter → Option DirWriter
  | 0, _ => none
  | n + 1, w =>
    let content := w.file_ p
    let w := w.putFile p (content.take (content.length / p.block_size_ * p.block_size_))
    if (w.file_ p).length = p.fileSize then openLog n { w.closeLog p with file_num_ := w.file_num_ + 1 } else some w

/-- As many files as there may be from here on. -/
def filesLeft (w : DirWriter) : Nat := w.dir.files.length + w.dir.temp.length + 1

/-- `OpenNextLog` with an open file. -/
def openNextLog (w : DirWriter) : Option DirWriter :=
  let w := { w.closeLog p with file_num_ := w.file_num_ + 1 }
  openLog p w.filesLeft w

/-- `Initialize`. -/
def initializeLog (dir : LogDir) : Option DirWriter :=
  let w : DirWriter := { dir := dir, file_num_ := dir.files.getLastNumberedFile.getD 0 }
  openLog p w.filesLeft w

/-- The loop of `WriteBuffer`, for `n` turns at most. -/
def writeLoop : Nat → DirWriter → Option (Bool × DirWriter)
  | 0, _ => none
  | n + 1, w =>
    if w.buf_ = [] then some (true, w)
    else
      let pos := (w.file_ p).length
      if pos % p.block_size_ ≠ 0 ∨ p.fileSize < pos then some (false, w)
      else if ¬ pos < p.fileSize then none
      else if w.buf_.length % p.block_size_ ≠ 0 then none
      else
        let to_write := min (p.fileSize - pos) w.buf_.length
        let w := { w.putFile p (w.file_ p ++ w.buf_.take to_write) with buf_ := w.buf_.drop to_write }
        if (w.file_ p).length = p.fileSize then (w.openNextLog p).bind (writeLoop n) else writeLoop n w

/-- `WriteBuffer`. Each turn writes something. -/
def writeBuffer (w : DirWriter) : Option (Bool × DirWriter) := writeLoop p (w.buf_.length + 1) w

/-- `WriteRecord` or `Flush`. -/
def step (w : DirWriter) (call : WriterCall) : Option DirWriter :=
  (LogWriter.record p.toWriterParams { buf_ := w.buf_, recorder_ := w.recorder_ } call).bind fun (writes, v) =>
    let w := { w with buf_ := v.buf_, recorder_ := v.recorder_ }
    if writes then (w.writeBuffer p).map Prod.snd else some w

/-- `Close`: the directory that it leaves. -/
def close (w : DirWriter) : Option LogDir :=
  (RecordWriter.finalizeContent p.toWriterParams w.recorder_).bind fun (out, recorder) =>
    (writeBuffer p { w with buf_ := w.buf_ ++ out, recorder_ := recorder }).map fun (_, w) => (w.closeLog p).dir

end DirWriter

/-- A session: a new `LogWriter` is initialized, called and closed. -/
def logSession (p : DirParams) (dir : LogDir) (calls : List WriterCall) : Option LogDir :=
  (RecordWriter.new p.toWriterParams).bind fun recorder =>
    (DirWriter.initializeLog p dir).bind fun w =>
      (run (DirWriter.step p) { w with recorder_ := recorder } calls).bind (DirWriter.close p)

/-- The directory behind some sessions, each given by its calls. -/
def logSessions (p : DirParams) (dir : LogDir) (sessions : List (List WriterCall)) : Option LogDir :=
  run (logSession p) dir sessions

/-- The parameters of a reader for a directory. -/
def DirParams.logReader (p : DirParams) (inflate : Bytes → Bool × Bytes) : LogParams where
  toReaderParams := p.toWriterParams.reader inflate
  blocks_per_file_ := p.blocks_per_file_

/-! ## Files -/

namespace Disk

variable {d : Disk} {n m : Nat} {file : Option Bytes}

theorem file_put (d : Disk) (n : Nat) (file : Option Bytes) (m : Nat) :
    (d.put n file).file m = if m = n then file else d.file m := by
  have hlen : n < (d ++ replicate (n + 1 - d.length) none).length := by
    rw [length_append, length_replicate]
    omega
  rw [Disk.file, put]
  by_cases hmn : m = n
  · subst hmn
    rw [getElem?_set_self hlen, if_pos rfl]
    rfl
  · rw [getElem?_set_ne (Ne.symm hmn), if_neg hmn, Disk.file]
    by_cases hm : m < d.length
    · rw [getElem?_append_left hm]
    · rw [getElem?_append_right (Nat.le_of_not_lt hm), getElem?_replicate, getElem?_eq_none (by omega)]
      split_ifs <;> rfl

theorem file_eq_none (h : d.length ≤ n) : d.file n = none := by
  rw [Disk.file, getElem?_eq_none h]
  rfl

/-- A file at the end is replaced. -/
theorem put_last (d : Disk) (old file : Option Bytes) : Disk.put (d ++ [old]) d.length file = d ++ [file] := by
  rw [put, length_append, length_singleton, Nat.sub_self, replicate_zero, append_nil,
    set_append_right _ _ (le_refl _), Nat.sub_self]
  rfl

/-- A new file at the end. -/
theorem put_next (d : Disk) (file : Option Bytes) : d.put d.length file = d ++ [file] := by
  rw [put, Nat.add_sub_cancel_left, set_append_right _ _ (le_refl _), Nat.sub_self]
  rfl

theorem file_append (d d' : Disk) (n : Nat) : Disk.file (d ++ d') (d.length + n) = d'.file n := by
  rw [Disk.file, getElem?_append_right (Nat.le_add_right _ _), Nat.add_sub_cancel_left]
  rfl

theorem file_length (d : Disk) (file : Option Bytes) : Disk.file (d ++ [file]) d.length = file := by
  have h := file_append d [file] 0
  rw [Nat.add_zero] at h
  rw [h]
  rfl

theorem getLastNumberedFile_append (d : Disk) (file : Bytes) :
    Disk.getLastNumberedFile (d ++ [some file]) = some d.length := by
  rw [getLastNumberedFile, length_append, length_singleton, range_succ, reverse_append]
  have hlast : (Disk.file (d ++ [some file]) d.length).isSome = true := by
    rw [file_length]
    rfl
  simp [hlast]

end Disk

end Whispercast.Logio
