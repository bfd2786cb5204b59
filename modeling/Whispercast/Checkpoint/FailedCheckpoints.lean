import Whispercast.Checkpoint.BufferWrites
import Whispercast.Checkpoint.StateKeeper
import Whispercast.Logio.Retry

/-!
# Checkpoints that fail

Model of `StateKeeper::CheckpointInternal` (`common/io/checkpoint/state_keeper.cc`) and of the functions of the
`CheckpointWriter` that it calls (`common/io/checkpoint/checkpointing.cc`), where a flush of the log, the opening of a
file and a `write` call may fail. `CleanOldState`, which deletes files, is a parameter. A `CHECK` that fails is `none`.
-/

namespace Whispercast.Checkpoint

open Io Logio Library CheckpointWriter List Option
open Http (ascii)
open RecordWriter

/-- `CheckpointWriter`, with its pointer to the recorder. -/
structure Checkpointer where
  file_ : Option Nat := none
  recorder_ : Option RecordWriter := none
  names_ : List Bytes := []
  buf_ : Bytes := []

/-- What becomes of the files in a `Checkpoint` command. -/
structure CheckpointCalls where
  /-- `Flush` of the log writer, and what `Tell` returns then. -/
  flush : Option LogPos
  /-- Whether `BeginCheckpoint` can open a file. -/
  opens : Bool
  /-- The `write` calls of an `AddRecord`, by its number. -/
  adds : Nat → List WriteCall
  /-- The `write` calls of `EndCheckpoint`. -/
  ends : List WriteCall

namespace Checkpointer

variable (crc : Bytes → Int32)

/-- The writer, with its recorder. -/
def toWriter (w : Checkpointer) (recorder : RecordWriter) : CheckpointWriter := ⟨w.file_, recorder, w.names_, w.buf_⟩

def ofWriter (w : CheckpointWriter) : Checkpointer := ⟨w.file_, some w.recorder_, w.names_, w.buf_⟩

/-- `recorder_->AppendRecord` into `buf_`. -/
def append (w : Checkpointer) (data : Bytes) : Option (Bool × Checkpointer) :=
  w.recorder_.bind fun recorder =>
    (CheckpointWriter.append crc (w.toWriter recorder) data).map fun (finished, w) => (finished, ofWriter w)

/-- The open file receives some bytes. -/
def receive (w : Checkpointer) (out : Bytes) (files : CheckpointFiles) : CheckpointFiles :=
  files.map fun f => if w.file_ = some f.1 then (f.1, f.2 ++ out) else f

def writeBuffer (w : Checkpointer) (files : CheckpointFiles) (calls : List WriteCall) :
    Option (Bool × Checkpointer × CheckpointFiles) :=
  (CheckpointWriter.writeBufferOn (w.toWriter {}) calls).map fun (ok, out, w', _) =>
    (ok, { w with buf_ := w'.buf_ }, w.receive out files)

/-- `BeginCheckpoint`: whether it succeeds, the writer, and the files. -/
def beginCheckpoint (opens : Bool) (w : Checkpointer) (files : CheckpointFiles) :
    Option (Bool × Checkpointer × CheckpointFiles) :=
  if w.file_.isSome then none
  else if w.recorder_.isSome then none
  else if w.names_ ≠ [] then none
  else if w.buf_ ≠ [] then none
  else if ¬ opens then some (false, w, files)
  else
    let file_num := CheckpointWriter.nextNumber files
    (RecordWriter.new (recordParams crc)).bind fun recorder =>
      (append crc { w with file_ := some file_num, recorder_ := some recorder } kCheckpointBegin).map fun (_, w) =>
        (true, w, files ++ [(file_num, [])])

local instance name_lawfulBEq : LawfulBEq Bytes := inferInstance

def addRecord (w : Checkpointer) (files : CheckpointFiles) (name value : Bytes) (calls : List WriteCall) :
    Option (Bool × Checkpointer × CheckpointFiles) :=
  if w.file_.isNone then none
  else if name ∈ w.names_ then some (false, w, files)
  else
    (append crc { w with names_ := w.names_ ++ [name] } name).bind fun (fin1, w) =>
      (append crc w value).bind fun (fin2, w) =>
        if fin1 || fin2 then writeBuffer w files calls else some (true, w, files)

/-- `AddRecord` of every entry, as long as it succeeds. The first one has number `k`. -/
def addRecords (adds : Nat → List WriteCall) (w : Checkpointer) (files : CheckpointFiles) (k : Nat) :
    StateMap → Option (Bool × Checkpointer × CheckpointFiles)
  | [] => some (true, w, files)
  | (name, value) :: entries =>
    (addRecord crc w files name value (adds k)).bind fun (ok, w, files) =>
      if ok then addRecords adds w files (k + 1) entries else some (false, w, files)

def clearCheckpoint (_ : Checkpointer) : Checkpointer := {}

def endCheckpoint (w : Checkpointer) (files : CheckpointFiles) (calls : List WriteCall) :
    Option (Bool × Checkpointer × CheckpointFiles) :=
  if w.file_.isNone then none
  else
    (append crc w kCheckpointEnd).bind fun (_, w) =>
      w.recorder_.bind fun recorder =>
        (RecordWriter.finalizeContent (recordParams crc) recorder).bind fun (block, recorder) =>
          (writeBuffer { w with recorder_ := some recorder, buf_ := w.buf_ ++ block } files calls).map
            fun (ok, w, files) => (ok, w.clearCheckpoint, files)

def checkpointInternal (cleanOldState : CheckpointFiles → CheckpointFiles) (io : CheckpointCalls) (data : StateMap)
    (w : Checkpointer) (files : CheckpointFiles) : Option (Bool × Checkpointer × CheckpointFiles) :=
  match io.flush with
  | none => some (false, w, files)
  | some pos =>
    (beginCheckpoint crc io.opens w files).bind fun (ok, w, files) =>
      if ¬ ok then some (false, w, files)
      else
        (addRecords crc io.adds w files 0 ((kStateKeeperLogPosKey, pos.strEncode) :: data)).bind fun (ok, w, files) =>
          if ¬ ok then some (false, w, files)
          else
            (endCheckpoint crc w files io.ends).map fun (ok, w, files) =>
              if ok then (true, w, cleanOldState files) else (false, w, files)

/-- `WriterThread` takes a `Checkpoint` command. -/
def step (cleanOldState : CheckpointFiles → CheckpointFiles) (s : Checkpointer × CheckpointFiles)
    (c : CheckpointCalls × StateMap) : Option (Checkpointer × CheckpointFiles) :=
  (checkpointInternal crc cleanOldState c.1 c.2 s.1 s.2).map Prod.snd

end Checkpointer

/-! ## Recording -/

section Recorder

variable {p : WriterParams} {n count : Nat} {first : Bool} {data out : Bytes} {r : RecordWriter}

/-- A block that is not too full takes what fits, and the rest goes to new ones. -/
theorem appendLoop_isSome (hroom : kBlockTrailerEnd + kRecordHeaderSize + r.content_.length < p.block_size_)
    (hn : data.length < n) :
    ∃ out count r', RecordWriter.appendLoop p n first data r = some (out, count, r') ∧
      r'.content_.length + kBlockTrailerEnd ≤ p.block_size_ := by
  induction n generalizing first data r with
  | zero => omega
  | succ n ih =>
    rw [appendLoop, if_neg (Nat.not_le.2 hroom)]
    by_cases hfit : data.length ≤ p.block_size_ - kBlockTrailerEnd - kRecordHeaderSize - r.content_.length
    · rw [if_pos hfit]
      refine ⟨_, _, _, rfl, ?_⟩
      rw [length_content_putPiece]
      omega
    · rw [if_neg hfit]
      generalize hflags : RecordFlags.hasCont ||| (if first then RecordFlags.isFirst else 0) = flags
      have hlen := length_content_putPiece r flags
        (data.take (p.block_size_ - kBlockTrailerEnd - kRecordHeaderSize - r.content_.length))
      rw [List.length_take_of_le (by omega)] at hlen
      rw [finalizeContent, if_neg (ne_nil_of_length_pos (by omega)), if_neg (by omega)]
      -- The next block is empty.
      obtain ⟨out, count, r', hloop, hr'⟩ := @ih false
        (data.drop (p.block_size_ - kBlockTrailerEnd - kRecordHeaderSize - r.content_.length))
        { prev_block_crc_ := p.computeCRC (blockBody p.block_size_ (r.putPiece flags (data.take
          (p.block_size_ - kBlockTrailerEnd - kRecordHeaderSize - r.content_.length))).content_ r.prev_block_crc_) }
        (by simp only [List.length_nil]; omega) (by rw [List.length_drop]; omega)
      exact ⟨_, _, r', by rw [bind_some]; exact congrArg (Option.map _) hloop, hr'⟩

theorem maybeDump_isSome (h : r.content_.length + kBlockTrailerEnd ≤ p.block_size_) :
    ∃ finished out' r', RecordWriter.maybeDump p (out, count, r) = some (finished, out', r') ∧
      r'.content_.length ≤ p.dumpable_size_ := by
  rw [maybeDump]
  by_cases hdump : p.dumpable_size_ < r.content_.length
  · rw [if_pos hdump, finalizeContent, if_neg (ne_nil_of_length_pos (by omega)),
      if_neg (Nat.not_lt.2 h)]
    exact ⟨_, _, _, rfl, Nat.zero_le _⟩
  · rw [if_neg hdump]
    exact ⟨_, _, _, rfl, Nat.le_of_not_lt hdump⟩

end Recorder

namespace Checkpointer

section

variable {crc : Bytes → Int32} {w : Checkpointer} {files : CheckpointFiles} {calls : List WriteCall}

/-- A checkpoint is under way. -/
structure UnderWay (crc : Bytes → Int32) (w : Checkpointer) : Prop where
  file : w.file_.isSome
  recorder : ∃ recorder, w.recorder_ = some recorder ∧ recorder.content_.length ≤ (recordParams crc).dumpable_size_
  blocks : w.buf_.length % kDefaultCheckpointBlockSize = 0

theorem UnderWay.isOpen (h : w.UnderWay crc) : ¬ w.file_.isNone = true := by
  rw [isNone_iff_eq_none]
  exact isSome_iff_ne_none.1 h.file

/-- What `AppendRecord` does with a recorder whose block is not dumped. -/
theorem appendRecord_isSome {r : RecordWriter} (hr : r.content_.length ≤ (recordParams crc).dumpable_size_)
    (data : Bytes) :
    ∃ finished out r', (if (Int32.ofNat data.length).toInt < 0 then
        CheckpointWriter.appendNegative (recordParams crc) (Int32.ofNat data.length) r
      else RecordWriter.appendBuffer (recordParams crc) (data.take (Int32.ofNat data.length).toInt.toNat) r) =
        some (finished, out, r') ∧ r'.content_.length ≤ (recordParams crc).dumpable_size_ ∧
      kDefaultCheckpointBlockSize ∣ out.length := by
  have hroom : kBlockTrailerEnd + kRecordHeaderSize + r.content_.length < (recordParams crc).block_size_ := by
    rw [recordParams, kBlockTrailerEnd, kDefaultCheckpointBlockSize] at hr
    dsimp only at hr
    rw [recordParams, kBlockTrailerEnd, kRecordHeaderSize, kDefaultCheckpointBlockSize]
    dsimp only
    omega
  by_cases hneg : (Int32.ofNat data.length).toInt < 0
  · rw [if_pos hneg, appendNegative, if_neg (Nat.not_le.2 hroom)]
    have hfits : ∀ content : Bytes, content.length = 4 →
        (r.content_ ++ content).length + kBlockTrailerEnd ≤ (recordParams crc).block_size_ := by
      intro content hcontent
      rw [length_append, hcontent]
      rw [kRecordHeaderSize] at hroom
      omega
    obtain ⟨finished, out, r', hdump, hr'⟩ := @maybeDump_isSome (recordParams crc) 0 []
      { r with
        content_ := r.content_ ++ RecordFlags.isFirst ::
          NumStreamer.writeUInt24 (Int32.ofNat data.length).toUInt32.toNat .bigEndian
        content_record_count_ := r.content_record_count_ + 1 }
      (hfits _ (by rw [length_cons, NumStreamer.writeUInt24, NumStreamer.writeNumber_length]))
    exact ⟨finished, out, r', hdump, hr', dvd_maybeDump (Nat.dvd_zero _) hdump⟩
  · rw [if_neg hneg]
    generalize data.take (Int32.ofNat data.length).toInt.toNat = data
    obtain ⟨blocks, count, r₁, hloop, hr₁⟩ := @appendLoop_isSome (recordParams crc) (data.length + 1) true data r hroom
      (Nat.lt_succ_self _)
    obtain ⟨finished, out, r', hdump, hr'⟩ := maybeDump_isSome hr₁
    have happend : appendBuffer (recordParams crc) data r = some (finished, out, r') := by
      have hbuffer : bufferLoop (recordParams crc) data r = some (blocks, count, r₁) := hloop
      rw [appendBuffer, hbuffer, bind_some, hdump]
    exact ⟨finished, out, r', happend, hr', dvd_appendBuffer happend⟩

theorem UnderWay.append (h : w.UnderWay crc) (data : Bytes) :
    ∃ finished w', Checkpointer.append crc w data = some (finished, w') ∧ w'.UnderWay crc ∧ w'.names_ = w.names_ := by
  obtain ⟨hfile, ⟨_, hrecorder, hcontent⟩, hblocks⟩ := h
  obtain ⟨finished, out, r', happend, hr', hdvd⟩ := appendRecord_isSome hcontent data
  refine ⟨finished, { w with recorder_ := some r', buf_ := w.buf_ ++ out }, ?_, ⟨hfile, ⟨r', rfl, hr'⟩, ?_⟩, rfl⟩
  · rw [Checkpointer.append, hrecorder, bind_some, CheckpointWriter.append]
    dsimp only [toWriter]
    rw [happend]
    rfl
  · rw [length_append, Nat.add_mod, hblocks, Nat.mod_eq_zero_of_dvd hdvd, Nat.add_zero, Nat.zero_mod]

/-- No `write` call fails or takes nothing. -/
def Works (calls : List WriteCall) : Prop := ∀ c ∈ calls, c ≠ .error ∧ c ≠ .wrote 0

theorem Works.not_stops (h : Works calls) (avail : Nat) : ¬ File.Stops avail calls := by
  induction calls generalizing avail with
  | nil => exact id
  | cons c calls ih =>
    obtain ⟨herror, hzero⟩ := h c mem_cons_self
    have hrest := ih fun d hd => h d (mem_cons_of_mem _ hd)
    cases c with
    | error => exact absurd rfl herror
    | wrote k =>
      have hk : k ≠ 0 := fun hk => hzero (hk ▸ rfl)
      rw [File.Stops, if_neg hk]
      exact fun hstops => hrest _ hstops.2

section

variable (h : w.UnderWay crc) (files : CheckpointFiles)

include h

/-- `WriteBuffer` runs, and succeeds when the calls work. -/
theorem UnderWay.writeBuffer (calls : List WriteCall) :
    ∃ ok w' files', Checkpointer.writeBuffer w files calls = some (ok, w', files') ∧
      (Works calls → ok = true ∧ w'.UnderWay crc ∧ w'.names_ = w.names_) := by
  obtain ⟨hfile, hrecorder, hblocks⟩ := h
  have hopen : (w.toWriter {}).file_ ≠ none := isSome_iff_ne_none.1 hfile
  by_cases hworks : Works calls
  · have hwrite := writeBufferOn_eq_true_iff.2
      ⟨hopen, hblocks, hworks.not_stops (w.toWriter {}).buf_.length, rfl, rfl, rfl⟩
    refine ⟨true, { w with buf_ := [] }, w.receive (File.write w.buf_.length w.buf_ calls).out files, ?_,
      fun _ => ⟨rfl, ⟨hfile, hrecorder, Nat.zero_mod _⟩, rfl⟩⟩
    rw [Checkpointer.writeBuffer, hwrite]
    rfl
  · have hnone : ¬ (w.toWriter {}).file_.isNone = true := by
      rw [isNone_iff_eq_none]
      exact hopen
    have hsome : ∃ r, writeBufferOn (w.toWriter {}) calls = some r := by
      have haligned : ¬ (w.toWriter {}).buf_.length % kDefaultCheckpointBlockSize ≠ 0 := not_not.2 hblocks
      rw [writeBufferOn, if_neg hnone, if_neg haligned]
      dsimp only
      split_ifs <;> exact ⟨_, rfl⟩
    obtain ⟨⟨ok, out, w', _⟩, hwrite⟩ := hsome
    refine ⟨ok, { w with buf_ := w'.buf_ }, w.receive out files, ?_, fun h => absurd h hworks⟩
    rw [Checkpointer.writeBuffer, hwrite]
    rfl

/-- A record with a new name is added. -/
theorem UnderWay.addRecord {name value : Bytes} (hname : name ∉ w.names_) (hworks : Works calls) :
    ∃ w' files', Checkpointer.addRecord crc w files name value calls = some (true, w', files') ∧ w'.UnderWay crc ∧
      w'.names_ = w.names_ ++ [name] := by
  have hnamed : UnderWay crc { w with names_ := w.names_ ++ [name] } := ⟨h.file, h.recorder, h.blocks⟩
  obtain ⟨fin1, _, happend₁, h₁, hnames₁⟩ := hnamed.append name
  obtain ⟨fin2, w₂, happend₂, h₂, hnames₂⟩ := h₁.append value
  have hnames : w₂.names_ = w.names_ ++ [name] := hnames₂.trans hnames₁
  rw [Checkpointer.addRecord, if_neg h.isOpen, if_neg hname, happend₁, bind_some]
  dsimp only
  rw [happend₂, bind_some]
  cases hfin : fin1 || fin2 with
  | false => exact ⟨w₂, files, rfl, h₂, hnames⟩
  | true =>
    obtain ⟨_, w₃, files', hwrite, hok⟩ := h₂.writeBuffer files calls
    obtain ⟨rfl, h₃, hnames₃⟩ := hok hworks
    exact ⟨w₃, files', hwrite, h₃, hnames₃.trans hnames⟩

theorem UnderWay.addRecords {adds : Nat → List WriteCall}
    (hworks : ∀ k, Works (adds k)) {m : StateMap} (hnames : (w.names_ ++ m.map Prod.fst).Nodup) (k : Nat) :
    ∃ w' files', Checkpointer.addRecords crc adds w files k m = some (true, w', files') ∧ w'.UnderWay crc := by
  induction m generalizing w files k with
  | nil => exact ⟨w, files, rfl, h⟩
  | cons e m ih =>
    obtain ⟨name, _⟩ := e
    rw [map_cons] at hnames
    have hname : name ∉ w.names_ := fun hmem =>
      disjoint_of_nodup_append hnames hmem mem_cons_self
    obtain ⟨_, files₁, hadd, h₁, hnames₁⟩ := h.addRecord files hname (hworks k)
    rw [append_cons, ← hnames₁] at hnames
    obtain ⟨w', files', hrest, h'⟩ := ih h₁ files₁ hnames (k + 1)
    refine ⟨w', files', ?_, h'⟩
    rw [Checkpointer.addRecords, hadd, bind_some]
    exact hrest

end

/-- An idle writer begins a checkpoint, if the file can be opened. -/
theorem beginCheckpoint_idle (opens : Bool) (files : CheckpointFiles) :
    ∃ w' files', Checkpointer.beginCheckpoint crc opens {} files = some (opens, w', files') ∧
      (opens = false → w' = {}) ∧ (opens = true → w'.UnderWay crc ∧ w'.names_ = []) := by
  cases opens with
  | false => exact ⟨{}, files, rfl, fun _ => rfl, nofun⟩
  | true =>
    have hstart : UnderWay crc
        { file_ := some (nextNumber files), recorder_ := some {}, names_ := [], buf_ := [] } :=
      ⟨rfl, ⟨{}, rfl, Nat.zero_le _⟩, rfl⟩
    obtain ⟨_, w', happend, h', hnames⟩ := hstart.append kCheckpointBegin
    have hnew : new (recordParams crc) = some {} := if_pos (by show kDefaultCheckpointBlockSize < _; decide)
    refine ⟨w', files ++ [(nextNumber files, [])], ?_, nofun, fun _ => ⟨h', hnames⟩⟩
    rw [Checkpointer.beginCheckpoint]
    simp [hnew, happend]

/-- A checkpoint under way is ended, and the writer is idle then. -/
theorem UnderWay.endCheckpoint (h : w.UnderWay crc) (files : CheckpointFiles) (calls : List WriteCall) :
    ∃ ok files', Checkpointer.endCheckpoint crc w files calls = some (ok, {}, files') ∧ (Works calls → ok = true) := by
  obtain ⟨_, w₁, happend, h₁, -⟩ := h.append kCheckpointEnd
  obtain ⟨hfile₁, ⟨recorder, hrecorder, hcontent⟩, hblocks⟩ := h₁
  have hfinalize : ∃ block r', finalizeContent (recordParams crc) recorder = some (block, r') ∧
      r'.content_.length ≤ (recordParams crc).dumpable_size_ := by
    rw [finalizeContent]
    by_cases hnil : recorder.content_ = []
    · rw [if_pos hnil]
      exact ⟨[], recorder, rfl, hcontent⟩
    · have hfits : ¬ (recordParams crc).block_size_ < recorder.content_.length + kBlockTrailerEnd := by
        rw [recordParams, kBlockTrailerEnd, kDefaultCheckpointBlockSize] at hcontent ⊢
        dsimp only at hcontent ⊢
        omega
      rw [if_neg hnil, if_neg hfits]
      exact ⟨_, _, rfl, Nat.zero_le _⟩
  obtain ⟨block, r', hblock, hr'⟩ := hfinalize
  have hready : UnderWay crc { w₁ with recorder_ := some r', buf_ := w₁.buf_ ++ block } := by
    refine ⟨hfile₁, ⟨r', rfl, hr'⟩, ?_⟩
    have hdvd : kDefaultCheckpointBlockSize ∣ block.length := dvd_finalizeContent hblock
    rw [length_append, Nat.add_mod, hblocks, Nat.mod_eq_zero_of_dvd hdvd, Nat.add_zero, Nat.zero_mod]
  obtain ⟨ok, _, files', hwrite, hok⟩ := hready.writeBuffer files calls
  refine ⟨ok, files', ?_, fun hworks => (hok hworks).1⟩
  rw [Checkpointer.endCheckpoint, if_neg h.isOpen, happend, bind_some]
  dsimp only
  rw [hrecorder, bind_some, hblock, bind_some]
  rw [hwrite]
  rfl

end

/-- No `AddRecord` of a command fails: no `write` call of one does, and the names are different. -/
structure AddsWork (c : CheckpointCalls × StateMap) : Prop where
  works : ∀ k, Works (c.1.adds k)
  names : (kStateKeeperLogPosKey :: c.2.map Prod.fst).Nodup

/-- Nothing fails in a command. -/
structure AllWorks (c : CheckpointCalls × StateMap) : Prop extends AddsWork c where
  flush : c.1.flush ≠ none
  opens : c.1.opens = true
  ends : Works c.1.ends

section

variable (crc : Bytes → Int32) (cleanOldState : CheckpointFiles → CheckpointFiles)

/-- From an idle writer a command in which no `AddRecord` fails leads to an idle writer. -/
theorem checkpointInternal_idle {c : CheckpointCalls × StateMap} (h : AddsWork c) (files : CheckpointFiles) :
    ∃ ok files', checkpointInternal crc cleanOldState c.1 c.2 {} files = some (ok, {}, files') ∧
      (AllWorks c → ok = true) := by
  rw [checkpointInternal]
  cases hflush : c.1.flush with
  | none => exact ⟨false, files, rfl, fun hall => absurd hflush hall.flush⟩
  | some pos =>
    dsimp only
    obtain ⟨_, files₁, hbegin, hclosed, hopened⟩ := beginCheckpoint_idle c.1.opens files
    rw [hbegin, bind_some]
    cases hopens : c.1.opens with
    | false =>
      rw [hclosed hopens]
      exact ⟨false, files₁, rfl, fun hall => absurd (hopens.symm.trans hall.opens) nofun⟩
    | true =>
      obtain ⟨h₁, hnames⟩ := hopened hopens
      obtain ⟨_, files₂, hadds, h₂⟩ := h₁.addRecords files₁ h.works
        (m := (kStateKeeperLogPosKey, pos.strEncode) :: c.2) (by rw [hnames]; exact h.names) 0
      obtain ⟨ok, files', hend, hok⟩ := h₂.endCheckpoint files₂ c.1.ends
      rw [if_neg (by simp), hadds, bind_some]
      rw [if_neg (by simp), hend, map_some]
      cases ok with
      | false => exact ⟨false, files', rfl, fun hall => hok hall.ends⟩
      | true => exact ⟨true, cleanOldState files', rfl, fun _ => rfl⟩

/-- A run of commands in which no `AddRecord` fails is not aborted and leaves an idle writer, whatever else fails. A
checkpoint in which nothing fails succeeds then. -/
theorem run_idle (files : CheckpointFiles) (commands : List (CheckpointCalls × StateMap))
    (h : ∀ c ∈ commands, AddsWork c) :
    ∃ files', run (step crc cleanOldState) ({}, files) commands = some ({}, files') ∧
      ∀ c, AllWorks c → ∃ files'', checkpointInternal crc cleanOldState c.1 c.2 {} files' = some (true, {}, files'') := by
  have hlast : ∀ files' c, AllWorks c →
      ∃ files'', checkpointInternal crc cleanOldState c.1 c.2 {} files' = some (true, {}, files'') := by
    intro files' c hc
    obtain ⟨ok, files'', hcheckpoint, hok⟩ := checkpointInternal_idle crc cleanOldState hc.toAddsWork files'
    obtain rfl := hok hc
    exact ⟨files'', hcheckpoint⟩
  induction commands generalizing files with
  | nil => exact ⟨files, rfl, hlast files⟩
  | cons c commands ih =>
    obtain ⟨ok, files₁, hcheckpoint, -⟩ :=
      checkpointInternal_idle crc cleanOldState (h c mem_cons_self) files
    obtain ⟨files', hrun, hrest⟩ := ih files₁ fun d hd => h d (mem_cons_of_mem _ hd)
    refine ⟨files', run_cons_eq_some.2 ⟨({}, files₁), ?_, hrun⟩, hrest⟩
    rw [step, hcheckpoint]
    rfl

end

/-- I/O that works. -/
def working : CheckpointCalls := ⟨some {}, true, fun _ => [], []⟩

/-- A command in which the end of the checkpoint cannot be written. -/
theorem run_idle_failed_end :
    ∃ files', run (step (fun _ => 0) id) ({}, []) [({ working with ends := [.error] }, [])] = some ({}, files') ∧
      ∀ c, AllWorks c → ∃ files'', checkpointInternal (fun _ => 0) id c.1 c.2 {} files' = some (true, {}, files'') := by
  refine run_idle (fun _ => 0) id [] _ ?_
  intro c hc
  obtain rfl := mem_singleton.1 hc
  refine ⟨fun k d hd => absurd hd not_mem_nil, ?_⟩
  decide

/-- A state with the key of the position: the checkpoint fails where nothing is written, and the next one is aborted. -/
theorem run_poisoned :
    ((run (step (fun _ => 0) id) ({}, []) [(working, [(kStateKeeperLogPosKey, [])])]).map fun s => s.1.file_) =
        some (some 0) ∧
      run (step (fun _ => 0) id) ({}, []) [(working, [(kStateKeeperLogPosKey, [])]), (working, [])] = none := by
  decide +kernel

end Checkpointer

end Whispercast.Checkpoint
