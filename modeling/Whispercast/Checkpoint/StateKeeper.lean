import Whispercast.Checkpoint.CheckpointFile
import Whispercast.Library.Recovery
import Whispercast.Logio.PositionText

/-!
# State keepers

Model of `StateKeeper` (`common/io/checkpoint/state_keeper.{h,cc}`), one lifetime after another on a directory. The calls
of the user change the map and put commands into the queue of the writer thread, which takes them in order. The operation
log is a list of records at the positions that a `Layout` gives them; no operation on a file fails, and a `CHECK` that
fails is `none`.
-/

namespace Whispercast.Checkpoint

open Io Library Logio
open Http (ascii)

def kStateKeeperLogPosKey : Bytes := ascii "__checkpoint_pos__"
def kStateKeeperTimeoutKey : Bytes := ascii "__t__"
def kMaxInt16 : Nat := 32767
def kMinNumCheckpointsToKeep : Nat := 2

/-! ## The operation log -/

/-- Where the `LogWriter` of a directory puts records. It goes forward only, and is at the begin of a block behind a
flush. -/
structure Layout where
  State : Type
  init : State
  tell : State → LogPos
  write : State → Bytes → State
  flush : State → State
  initializeLog : State → State
  null_le : ({} : LogPos) ≤ tell init
  tell_write : ∀ s rec, tell s < tell (write s rec)
  tell_flush : ∀ s, tell s ≤ tell (flush s) ∧ (tell (flush s)).record_num_ = 0
  tell_initializeLog : ∀ s, tell s ≤ tell (initializeLog s)

variable {L : Layout}

/-- The records of the log, and the `LogWriter`. -/
structure RecordLog (L : Layout) where
  records : List (LogPos × Bytes) := []
  writer : L.State := L.init

namespace RecordLog

def writeRecord (log : RecordLog L) (rec : Bytes) : RecordLog L :=
  ⟨log.records ++ [(L.tell log.writer, rec)], L.write log.writer rec⟩

def flush (log : RecordLog L) : RecordLog L := { log with writer := L.flush log.writer }

/-- `LogWriter::Initialize`. -/
def initializeLog (log : RecordLog L) : RecordLog L := { log with writer := L.initializeLog log.writer }

def tell (log : RecordLog L) : LogPos := L.tell log.writer

/-- `CleanLog`: files before the file of the position are deleted. -/
def clean (log : RecordLog L) (pos : LogPos) : RecordLog L :=
  { log with records := log.records.filter fun e => pos.file_num_ ≤ e.1.file_num_ }

/-- `LogReader::Seek`, and `GetNextRecord` as long as there are records. The null position is before all others. -/
def recordsFrom (log : RecordLog L) (pos : LogPos) : List Bytes := logFrom pos log.records

end RecordLog

/-- The directory. -/
structure Disk (L : Layout) where
  log : RecordLog L := {}
  checkpoints : CheckpointFiles := []

section Reading

variable (crc : Bytes → Int32)

/-- A record is read into the map, as long as no `CHECK` failed. -/
def readInto (out : Option StateMap) (rec : Bytes) : Option StateMap := out.bind fun m => readRecord m rec

/-- `ReadState` from the erasing of the position on. -/
def readLog (d : Disk L) (pos : LogPos) (out : StateMap) : Option (Bool × StateMap) :=
  (replay readInto (some (out.erase kStateKeeperLogPosKey)) (d.log.recordsFrom pos)).map fun out => (true, out)

def readState (d : Disk L) : Option (Bool × StateMap) :=
  (readCheckpoint crc d.checkpoints).bind fun (ok, out) =>
    if ok then
      match out.lookup kStateKeeperLogPosKey with
      | none => some (false, out)
      | some str_pos =>
        match LogPos.strDecode str_pos with
        | none => some (false, out)
        | some pos => readLog d pos out
    else readLog d {} out

end Reading

/-! ## The keeper -/

/-- `WriteThreadCommand`, with the one of its two pointers that is not null. -/
inductive WriteThreadCommand where
  | log (log_data : Bytes)
  | checkpoint (checkpoint_data : StateMap)

structure StateKeeper where
  data_ : StateMap := []
  in_transaction_ : Bool := false
  op_buf_ : Bytes := []
  writer_queue_ : List WriteThreadCommand := []
  checkpointer_ : CheckpointWriter := {}
  checkpoints_to_keep_ : Int

namespace StateKeeper

def queueWrite (k : StateKeeper) : StateKeeper :=
  { k with op_buf_ := [], writer_queue_ := k.writer_queue_ ++ [.log k.op_buf_] }

/-- `QueueOp`. The size of `op_buf_` is an `int32`; what happens beyond is not modelled. -/
def queueOp (k : StateKeeper) (op : StateOp) : Option StateKeeper :=
  if ¬ op.key.length < kMaxInt16 then none
  else if 2 ^ 31 ≤ (k.op_buf_ ++ op.encode).length then none
  else
    let k := { k with op_buf_ := k.op_buf_ ++ op.encode }
    some (if k.in_transaction_ then k else queueWrite k)

def deleteValue (k : StateKeeper) (key : Bytes) : Option StateKeeper :=
  if (k.data_.lookup key).isNone then some k
  else queueOp { k with data_ := k.data_.erase key } (.delete key)

def deletePrefix (k : StateKeeper) (start : Bytes) : Option StateKeeper :=
  queueOp { k with data_ := k.data_.clearPrefix start } (.clearPrefix start)

def setValue (k : StateKeeper) (key value : Bytes) : Option StateKeeper :=
  if k.data_.lookup key = some value then some k
  else queueOp { k with data_ := k.data_.set key value } (.set key value)

def beginTransaction (k : StateKeeper) : Option StateKeeper :=
  if k.in_transaction_ then none else some { k with in_transaction_ := true }

def commitTransaction (k : StateKeeper) : Option StateKeeper :=
  if k.in_transaction_ then some (queueWrite { k with in_transaction_ := false }) else none

def kNumTimeoutPosition : Nat := 25

/-- `sizeof(kStateKeeperTimeoutKey)`, with the NUL. -/
def sizeofTimeoutKey : Nat := kStateKeeperTimeoutKey.length + 1

/-- Whether an entry is deleted, from whether the one before was. -/
def expires (now : Int) (delete_key : Bool) (key : Bytes) : Bool :=
  if sizeofTimeoutKey + kNumTimeoutPosition + 1 < key.length then
    let (crt_time, overflow) := Numeral.strtol 10 ((key.drop (sizeofTimeoutKey + 1)).take kNumTimeoutPosition)
    if overflow then delete_key else crt_time < now
  else delete_key

/-- The loop of `ExpireTimeoutedKeys` over the entries between the bounds. -/
def expired (now : Int) : StateMap → List (Bytes × Bytes)
  | [] => []
  | e :: entries => if expires now true e.1 then e :: expired now entries else []

/-- `ExpireTimeoutedKeys` deletes the prefixes and the keys it has found. -/
def deleteExpired (k : StateKeeper) : List (Bytes × Bytes) → Option StateKeeper
  | [] => some k
  | e :: entries =>
    (k.deletePrefix e.2).bind fun k => (k.deleteValue e.1).bind fun k => deleteExpired k entries

/-- `ExpireTimeoutedKeys`, at a time. -/
def expireTimeoutedKeys (now : Int) (k : StateKeeper) : Option StateKeeper :=
  let entries := k.data_.between (kStateKeeperTimeoutKey ++ ascii "/")
  k.beginTransaction.bind fun k => (k.deleteExpired (expired now entries)).bind commitTransaction

/-- `Checkpoint`, at a time. -/
def checkpoint (now : Int) (k : StateKeeper) : Option StateKeeper :=
  if k.in_transaction_ then none
  else
    (k.expireTimeoutedKeys now).map fun k =>
      { k with writer_queue_ := k.writer_queue_ ++ [.checkpoint k.data_] }

end StateKeeper

/-! ## The writer thread -/

section Writer

variable (crc : Bytes → Int32)

/-- `CleanOldState` deletes corrupted checkpoints. -/
def deleteCorrupted : CheckpointFiles → Option CheckpointFiles
  | [] => some []
  | f :: files =>
    (readCheckpointFile crc f.2).bind fun (ok, _) =>
      (deleteCorrupted files).map fun files => if ok then f :: files else files

/-- `CleanOldState` deletes the oldest checkpoints, and the log before each of them. A checkpoint without a position
is dereferenced at its end. -/
def deleteOldest : Nat → CheckpointFiles → RecordLog L → Option (CheckpointFiles × RecordLog L)
  | 0, files, log => some (files, log)
  | _ + 1, [], log => some ([], log)
  | limit + 1, f :: files, log =>
    (readCheckpointFile crc f.2).bind fun (_, checkpoint) =>
      (checkpoint.lookup kStateKeeperLogPosKey).bind fun str_pos =>
        match LogPos.strDecode str_pos with
        | none => deleteOldest limit files log
        | some pos => deleteOldest limit files (log.clean pos)

def cleanOldState (num_checkpoints_to_keep : Int) (d : Disk L) : Option (Disk L) :=
  let keep := max num_checkpoints_to_keep kMinNumCheckpointsToKeep
  (deleteCorrupted crc d.checkpoints).bind fun files =>
    (deleteOldest crc (files.length - keep).toNat files d.log).map fun (files, log) => ⟨log, files⟩

/-- `CheckpointInternal`. The numbers of a `LogPos` are `int32`s. -/
def checkpointInternal (data : StateMap) (k : StateKeeper) (d : Disk L) : Option (StateKeeper × Disk L) :=
  let log := d.log.flush
  let pos := log.tell
  if ¬ pos.Fits then none
  else
    (k.checkpointer_.beginCheckpoint crc d.checkpoints).bind fun (w, files) =>
      (w.addRecords crc files ((kStateKeeperLogPosKey, pos.strEncode) :: data)).bind fun (ok, w, files) =>
        if ok then
          (w.endCheckpoint crc files).bind fun (w, files) =>
            (cleanOldState crc k.checkpoints_to_keep_ ⟨log, files⟩).map fun d => ({ k with checkpointer_ := w }, d)
        else some ({ k with checkpointer_ := w }, ⟨log, files⟩)

/-- `WriterThread` takes a command. -/
def takeCommand (k : StateKeeper) (d : Disk L) : WriteThreadCommand → Option (StateKeeper × Disk L)
  | .log log_data => some (k, { d with log := d.log.writeRecord log_data })
  | .checkpoint data => checkpointInternal crc data k d

/-- `WriterThread` takes commands, the oldest first. -/
def takeCommands (k : StateKeeper) (d : Disk L) : List WriteThreadCommand → Option (StateKeeper × Disk L)
  | [] => some (k, d)
  | c :: cs => (takeCommand crc k d c).bind fun (k, d) => takeCommands k d cs

end Writer

/-! ## Lifetimes -/

/-- A directory, and the keeper that is alive. -/
structure System (L : Layout) where
  disk : Disk L := {}
  keeper : Option StateKeeper := none

/-- What the user does, and when the writer thread runs. -/
inductive KeeperEvent where
  | initializeKeeper (checkpoints_to_keep : Int)
  | setValue (key value : Bytes)
  | deleteValue (key : Bytes)
  | deletePrefix (start : Bytes)
  | beginTransaction
  | commitTransaction
  | expireTimeoutedKeys (now : Int)
  | checkpoint (now : Int)
  /-- The writer thread takes a command. -/
  | writerStep
  /-- The writer thread waits for `kFlushIntervalMs` without a command. -/
  | writerFlush
  | shutDown

namespace System

/-- A call of the user. -/
def call (s : System L) (f : StateKeeper → Option StateKeeper) : Option (System L) :=
  s.keeper.bind fun k => (f k).map fun k => { s with keeper := some k }

/-- `Initialize` of a new keeper; it stays unused when that fails. -/
def initializeKeeper (crc : Bytes → Int32) (checkpoints_to_keep : Int) (s : System L) : Option (System L) :=
  if s.keeper.isSome then none
  else
    (readState crc s.disk).map fun (ok, data) =>
      if ok then
        ⟨{ s.disk with log := s.disk.log.initializeLog },
          some { data_ := data, checkpoints_to_keep_ := checkpoints_to_keep }⟩
      else s

/-- The writer thread takes the command that is first in the queue. -/
def writerStep (crc : Bytes → Int32) (s : System L) : Option (System L) :=
  s.keeper.bind fun k =>
    match k.writer_queue_ with
    | [] => none
    | c :: cs => (takeCommand crc { k with writer_queue_ := cs } s.disk c).map fun (k, d) => ⟨d, some k⟩

/-- The writer thread flushes the log. -/
def writerFlush (s : System L) : Option (System L) :=
  s.keeper.map fun _ => { s with disk := { s.disk with log := s.disk.log.flush } }

/-- The destructor: the writer thread takes all commands, flushes the log and ends. -/
def shutDown (crc : Bytes → Int32) (s : System L) : Option (System L) :=
  s.keeper.bind fun k =>
    (takeCommands crc { k with writer_queue_ := [] } s.disk k.writer_queue_).map fun (_, d) =>
      ⟨{ d with log := d.log.flush }, none⟩

/-- One event. -/
def step (crc : Bytes → Int32) (s : System L) : KeeperEvent → Option (System L)
  | .initializeKeeper checkpoints_to_keep => s.initializeKeeper crc checkpoints_to_keep
  | .setValue key value => s.call fun k => k.setValue key value
  | .deleteValue key => s.call fun k => k.deleteValue key
  | .deletePrefix start => s.call fun k => k.deletePrefix start
  | .beginTransaction => s.call StateKeeper.beginTransaction
  | .commitTransaction => s.call StateKeeper.commitTransaction
  | .expireTimeoutedKeys now => s.call (StateKeeper.expireTimeoutedKeys now)
  | .checkpoint now => s.call (StateKeeper.checkpoint now)
  | .writerStep => s.writerStep crc
  | .writerFlush => s.writerFlush
  | .shutDown => s.shutDown crc

end System

end Whispercast.Checkpoint
