import Whispercast.Logio.RecordReader

/-!
# Reading a log

Model of `io::LogReader` (`common/io/logio/logio.cc`) on a directory whose files do not change. A log is a sequence of
numbered files of at most `blocks_per_file_` blocks. No operation on a file fails but for the want of it. A `CHECK`
that fails is `none`.
-/

namespace Whispercast.Logio

open Io

/-- The files of a log, by their numbers. -/
abbrev Disk : Type := List (Option Bytes)

/-- The file with a number. -/
def Disk.file (d : Disk) (n : Nat) : Option Bytes := (d[n]?).join

/-- The least number of a file. -/
def Disk.first (d : Disk) : Option Nat := d.findIdx? Option.isSome

structure LogPos where
  file_num_ : Int := -1
  block_num_ : Int := 0
  record_num_ : Int := 0
  deriving DecidableEq

def LogPos.IsNull (p : LogPos) : Prop := p.file_num_ = -1

instance (p : LogPos) : Decidable p.IsNull := inferInstanceAs (Decidable (_ = _))

/-- What a `LogReader` is made with. -/
structure LogParams extends ReaderParams where
  blocks_per_file_ : Nat

/-- An `io::File` that is open: which one it is, and its position. -/
structure File where
  number : Nat
  position_ : Nat := 0

structure LogReader where
  file_ : Option File := none
  file_num_ : Int := -1
  record_num_ : Nat := 0
  reader_ : RecordReader := {}
  num_errors_ : Nat := 0
  buf_ : Bytes := []

namespace LogReader

/-- `CloseInternal(false)`. -/
def closeInternal (r : LogReader) : LogReader where
  num_errors_ := r.num_errors_
  reader_ := r.reader_.clear

def rewind (d : Disk) (r : LogReader) : LogReader :=
  match d.first with
  | some n => { r.closeInternal with file_num_ := n }
  | none => r.closeInternal

/-- `OpenFile`. The name of the file is composed of a number that is not negative. -/
def openFile (d : Disk) (file_num : Int) (r : LogReader) : Option (Bool × LogReader) :=
  let r := { r.closeInternal with file_num_ := file_num }
  if file_num < 0 then none
  else if (d.file file_num.toNat).isSome then some (true, { r with file_ := some { number := file_num.toNat } })
  else some (false, r)

/-- The file is read from its position on, a block at most. -/
def fileRead (p : LogParams) (d : Disk) (f : File) : Bytes :=
  (((d.file f.number).getD []).drop f.position_).take p.block_size_

/-- `ReadBlock` from where the file is known to have a block, or no more data. -/
def readHere (p : LogParams) (d : Disk) (r : LogReader) : Option (Bool × LogReader) :=
  r.file_.bind fun f =>
    if r.buf_ ≠ [] then none
    else if (fileRead p d f).length < p.block_size_ then some (false, r)
    else some (true, { r with
      file_ := some { f with position_ := f.position_ + p.block_size_ }
      buf_ := fileRead p d f })

def readBlock (p : LogParams) (d : Disk) (r : LogReader) : Option (Bool × LogReader) :=
  r.file_.bind fun f =>
    if f.position_ = p.block_size_ * p.blocks_per_file_ then
      (openFile d (r.file_num_ + 1) r).bind fun (opened, r) => if opened then readHere p d r else some (false, r)
    else readHere p d r

/-- A call of `ReadRecord`, whose result is kept apart. -/
def readRecord (p : LogParams) (out : Bool) (r : LogReader) : Option (ReadResult × Bytes × LogReader) :=
  (RecordReader.readRecord p.toReaderParams out r.reader_ r.buf_).map fun (res, data, reader, buf) =>
    (res, data, { r with reader_ := reader, buf_ := buf })

/-- The loop of `AdvanceToPosInFile` that skips records, as many as are still to be skipped. -/
def skipTo (p : LogParams) : Nat → LogReader → Option (Bool × LogReader)
  | 0, r => some (true, r)
  | n + 1, r => (readRecord p false r).bind fun (res, _, r) =>
    if res ≠ .ok then some (false, r) else skipTo p n { r with record_num_ := r.record_num_ + 1 }

def advanceToPosInFile (p : LogParams) (d : Disk) (pos : LogPos) (r : LogReader) : Option (Bool × LogReader) :=
  r.file_.bind fun f =>
    if r.file_num_ ≠ pos.file_num_ then none
    else
      let r := { r with reader_ := r.reader_.clear, buf_ := [] }
      if pos.block_num_ < 0 then some (false, r)
      else
        let r := { r with file_ := some { f with position_ := pos.block_num_.toNat * p.block_size_ } }
        if pos.record_num_ = 0 then some (true, r)
        else (readBlock p d r).bind fun (ok, r) =>
          if ok = false then some (false, r)
          else if r.buf_.length ≠ p.block_size_ then none
          else skipTo p pos.record_num_.toNat { r with record_num_ := 0 }

/-- `Seek` takes a short way to the beginning of a file behind one that can be read. -/
def Shortcut (d : Disk) (pos : LogPos) : Prop :=
  pos.block_num_ = 0 ∧ pos.record_num_ = 0 ∧ 0 < pos.file_num_ ∧ (d.file (pos.file_num_ - 1).toNat).isSome

instance (d : Disk) (pos : LogPos) : Decidable (Shortcut d pos) := inferInstanceAs (Decidable (_ ∧ _))

def seek (p : LogParams) (d : Disk) (pos : LogPos) (r : LogReader) : Option (Bool × LogReader) :=
  if pos.IsNull then some (true, rewind d r)
  else if Shortcut d pos then some (true, { r with file_num_ := pos.file_num_, record_num_ := 0 })
  else (openFile d pos.file_num_ r).bind fun (opened, r) =>
    if opened then advanceToPosInFile p d pos r else some (false, r)

/-- The loop of `GetNextRecord`, for `n` calls of `ReadRecord` at most. What is given is what is appended to `out`. -/
def nextLoop (p : LogParams) (d : Disk) : Nat → LogReader → Option (Bool × Bytes × LogReader)
  | 0, _ => none
  | n + 1, r => (readRecord p true r).bind fun (res, data, r) =>
    if res = .noData then
      (readBlock p d { r with record_num_ := 0 }).bind fun (ok, r) =>
        if ok then nextLoop p d n r else some (false, [], r)
    else
      let errors := if res ≠ .ok then r.num_errors_ + 1 else r.num_errors_
      some (true, data, { r with num_errors_ := errors, record_num_ := r.record_num_ + 1 })

/-- All bytes of the files. -/
def diskSize (d : Disk) : Nat := (d.map fun f => (f.getD []).length).sum

/-- `GetNextRecord`. Its loop reads another block in each turn but the last one. -/
def getNextRecord (p : LogParams) (d : Disk) (r : LogReader) : Option (Bool × Bytes × LogReader) :=
  let r := if r.file_num_ = -1 then rewind d r else r
  if r.file_num_ = -1 then some (false, [], r)
  else if r.file_ = none then
    (openFile d r.file_num_ r).bind fun (opened, r) =>
      if opened then nextLoop p d (diskSize d + 2) r else some (false, [], r)
  else nextLoop p d (diskSize d + 2) r

def tell (p : LogParams) (r : LogReader) : Option LogPos :=
  match r.file_ with
  | none => some ⟨r.file_num_, 0, r.record_num_⟩
  | some f =>
    if f.position_ = 0 then some ⟨r.file_num_, 0, r.record_num_⟩
    else if f.position_ % p.block_size_ ≠ 0 then none
    else some ⟨r.file_num_, (f.position_ / p.block_size_ : Nat) - (if r.record_num_ = 0 then 0 else 1), r.record_num_⟩

/-! ## Callers -/

/-- `n` calls of `GetNextRecord`, each of which gives a record. -/
def readRecords (p : LogParams) (d : Disk) : Nat → LogReader → Option (List Bytes × LogReader)
  | 0, r => some ([], r)
  | n + 1, r => (getNextRecord p d r).bind fun (more, data, r) =>
    if more then (readRecords p d n r).map fun (datas, r) => (data :: datas, r) else none

/-- Calls of `GetNextRecord` up to the one that returns false give these records. -/
inductive Delivers (p : LogParams) (d : Disk) : LogReader → List Bytes → Prop where
  | done {r r' : LogReader} {data : Bytes} (h : getNextRecord p d r = some (false, data, r')) : Delivers p d r []
  | more {r r' : LogReader} {data : Bytes} {datas : List Bytes} (h : getNextRecord p d r = some (true, data, r'))
      (hrest : Delivers p d r' datas) : Delivers p d r (data :: datas)

end LogReader

end Whispercast.Logio
