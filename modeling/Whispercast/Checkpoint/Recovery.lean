import Whispercast.Checkpoint.FileRoundTrip
import Whispercast.Checkpoint.StateKeeper

/-!
# A state keeper recovers its map

What `ReadState` recovers from the newest checkpoint and the log is a map, from which the queue of the writer thread and
the operations of the open transaction lead to the map in memory. Every call, and every step of the writer thread, keeps
it so; at a shutdown without a transaction both maps are the same.
-/

namespace Whispercast.Checkpoint

open Io Library Logio List Option StateKeeper StateMap AssocList CheckpointWriter

variable {crc : Bytes → Int32} {L : Layout}

/-! ## Maps and records -/

/-- A map of a keeper: it can be written to a checkpoint. -/
structure Good (m : StateMap) : Prop where
  sorted : m.Sorted
  entries : ∀ e ∈ m, e.1 ≠ kStateKeeperLogPosKey ∧ e.1.length < 2 ^ 31 ∧ e.2.length < 2 ^ 31

/-- An operation that a good map can take. -/
def StateOp.Proper : StateOp → Prop
  | .set key value => key ≠ kStateKeeperLogPosKey ∧ value.length < 2 ^ 31
  | _ => True

theorem StateOp.Proper.fits {op : StateOp} (h : op.Proper) (hkey : op.key.length < kMaxInt16) : op.Fits := by
  have hlt : op.key.length < 2 ^ 15 := Nat.lt_trans hkey (by decide)
  cases op with
  | set key value => exact ⟨hlt, h.2⟩
  | delete key => exact hlt
  | clearPrefix start => exact hlt

theorem Good.apply {m : StateMap} (h : Good m) {op : StateOp} (hop : op.Proper) (hfits : op.Fits) :
    Good (op.apply m) := by
  cases op with
  | set key value =>
    refine ⟨h.sorted.set key value, fun e he => ?_⟩
    by_cases hkey : e.1 = key
    · have hvalue : (StateMap.set key value m).lookup e.1 = some e.2 :=
        lookup_of_mem (nodup_of_sorted (h.sorted.set key value)) he
      rw [StateMap.set, lookup_setSorted, if_pos hkey, Option.some.injEq] at hvalue
      rw [hkey, ← hvalue]
      exact ⟨hop.1, Nat.lt_trans hfits.1 (by decide), hop.2⟩
    · obtain ⟨pre, post, hsplit, hother⟩ := setSorted_split key value h.sorted
      have hmem : e ∈ pre ++ (key, value) :: post := hsplit ▸ he
      rcases mem_append.1 hmem with hpre | hpost
      · exact h.entries e (hother e (mem_append_left _ hpre)).1
      · rcases mem_cons.1 hpost with rfl | hpost
        · exact absurd rfl hkey
        · exact h.entries e (hother e (mem_append_right _ hpost)).1
  | delete key => exact ⟨h.sorted.erase key, fun e he => h.entries e (mem_of_mem_filter he)⟩
  | clearPrefix start =>
    exact ⟨h.sorted.clearPrefix start, fun e he => h.entries e (mem_clearPrefix he)⟩

/-- A record with operations that lead from a map to another one. -/
def Written (m : StateMap) (rec : Bytes) (m' : StateMap) : Prop :=
  ∃ ops : List StateOp, (∀ op ∈ ops, op.Proper ∧ op.Fits) ∧ rec = ops.flatMap StateOp.encode ∧
    m' = ops.foldl StateOp.apply m

namespace Written

variable {m m' : StateMap} {rec : Bytes}

theorem refl (m : StateMap) : Written m [] m := ⟨[], fun _ hop => absurd hop not_mem_nil, rfl, rfl⟩

theorem read (h : Written m rec m') : readRecord m rec = some m' := by
  obtain ⟨_, hops, rfl, rfl⟩ := h
  exact readRecord_encode (fun op hop => (hops op hop).2) m

theorem good (h : Written m rec m') (hm : Good m) : Good m' := by
  obtain ⟨ops, hops, -, rfl⟩ := h
  induction ops generalizing m with
  | nil => exact hm
  | cons op ops ih =>
    have hop := hops op mem_cons_self
    exact ih (hm.apply hop.1 hop.2) fun op' hop' => hops op' (mem_cons_of_mem _ hop')

/-- One operation more. -/
theorem op (h : Written m rec m') {op : StateOp} (hop : op.Proper) (hfits : op.Fits) :
    Written m (rec ++ op.encode) (op.apply m') := by
  obtain ⟨ops, hops, rfl, rfl⟩ := h
  refine ⟨ops ++ [op], ?_, by simp, by simp⟩
  intro op' hop'
  rcases mem_append.1 hop' with hmem | hmem
  · exact hops op' hmem
  · obtain rfl := mem_singleton.1 hmem
    exact ⟨hop, hfits⟩

/-- An empty record leads nowhere. -/
theorem eq_of_nil (h : Written m [] m') : m' = m := by
  obtain ⟨ops, -, hrec, rfl⟩ := h
  cases ops with
  | nil => rfl
  | cons op ops =>
    have hlen := encode_length op
    rw [(append_eq_nil_iff.1 hrec.symm).1] at hlen
    exact absurd hlen (by decide)

end Written

/-- Commands that lead from a map to another one. A snapshot is the map that the commands before it lead to. -/
def Leads : List WriteThreadCommand → StateMap → StateMap → Prop
  | [], m, m' => m = m'
  | .log log_data :: cs, m, m' => ∃ m₁, Written m log_data m₁ ∧ Leads cs m₁ m'
  | .checkpoint data :: cs, m, m' => data = m ∧ Leads cs m m'

namespace Leads

variable {cs : List WriteThreadCommand} {m m' : StateMap}

theorem log (h : Leads cs m m') {rec : Bytes} {m₁ : StateMap} (hrec : Written m' rec m₁) :
    Leads (cs ++ [.log rec]) m m₁ := by
  induction cs generalizing m with
  | nil =>
    obtain rfl : m = m' := h
    exact ⟨m₁, hrec, rfl⟩
  | cons c cs ih =>
    cases c with
    | log log_data =>
      obtain ⟨m₂, hfirst, hrest⟩ := h
      exact ⟨m₂, hfirst, ih hrest⟩
    | checkpoint data => exact ⟨h.1, ih h.2⟩

theorem checkpoint (h : Leads cs m m') : Leads (cs ++ [.checkpoint m']) m m' := by
  induction cs generalizing m with
  | nil =>
    obtain rfl : m = m' := h
    exact ⟨rfl, rfl⟩
  | cons c cs ih =>
    cases c with
    | log log_data =>
      obtain ⟨m₂, hfirst, hrest⟩ := h
      exact ⟨m₂, hfirst, ih hrest⟩
    | checkpoint data => exact ⟨h.1, ih h.2⟩

end Leads

/-! ## What is in the directory -/

/-- A checkpoint file with a position and a map. -/
structure HasCheckpoint (crc : Bytes → Int32) (content : Bytes) (pos : LogPos) (m : StateMap) : Prop where
  fits : pos.Fits
  good : Good m
  read : readCheckpointFile crc content =
    some (true, StateMap.insertAll ((kStateKeeperLogPosKey, pos.strEncode) :: m) [])

/-- The newest checkpoint has a position and a map, and the positions of the others are not behind it. Without a
checkpoint these are the null position and the empty map. -/
inductive Snapshots (crc : Bytes → Int32) : CheckpointFiles → LogPos → StateMap → Prop where
  | none : Snapshots crc [] {} []
  | newest {files : CheckpointFiles} {n : Nat} {content : Bytes} {pos : LogPos} {m : StateMap}
      (old : ∀ f ∈ files, f.1 < n ∧ ∃ pos' m', HasCheckpoint crc f.2 pos' m' ∧ pos' ≤ pos)
      (checkpoint : HasCheckpoint crc content pos m) : Snapshots crc (files ++ [(n, content)]) pos m

section Checkpoints

variable {files : CheckpointFiles} {content : Bytes} {pos : LogPos} {m : StateMap}

/-- The position is found in a checkpoint. -/
theorem HasCheckpoint.position (h : HasCheckpoint crc content pos m) :
    (StateMap.insertAll ((kStateKeeperLogPosKey, pos.strEncode) :: m) []).lookup kStateKeeperLogPosKey =
      some pos.strEncode ∧ LogPos.strDecode pos.strEncode = some pos := by
  refine ⟨?_, LogPos.strDecode_strEncode h.fits⟩
  rw [lookup_insertAll, lookup_nil, none_or, lookup_cons_self]

/-- Without the position a checkpoint is the map. -/
theorem HasCheckpoint.map (h : HasCheckpoint crc content pos m) :
    StateMap.erase kStateKeeperLogPosKey (StateMap.insertAll ((kStateKeeperLogPosKey, pos.strEncode) :: m) []) = m := by
  have hsorted : Sorted (insertAll ((kStateKeeperLogPosKey, pos.strEncode) :: m) []) :=
    (show Sorted [] from Pairwise.nil).insertAll _
  refine eq_of_lookup (hsorted.erase _) h.good.sorted fun key => ?_
  rw [erase, lookup_filter_ne, lookup_insertAll, lookup_nil, none_or,
    lookup_cons]
  by_cases hkey : key = kStateKeeperLogPosKey
  · rw [if_pos hkey, hkey, eq_comm, lookup_eq_none_iff]
    intro e he
    rw [bne_iff_ne]
    exact Ne.symm (h.good.entries e he).1
  · rw [if_neg hkey, beq_false_of_ne hkey]

theorem Snapshots.all (h : Snapshots crc files pos m) :
    ∀ f ∈ files, ∃ pos' m', HasCheckpoint crc f.2 pos' m' ∧ pos' ≤ pos := by
  cases h with
  | none => intro f hf; cases hf
  | newest old checkpoint =>
    intro f hf
    rcases mem_append.1 hf with hmem | hmem
    · exact (old f hmem).2
    · obtain rfl := mem_singleton.1 hmem
      exact ⟨pos, m, checkpoint, le_refl _⟩

/-- The number of the next file is new. -/
theorem Snapshots.lt_nextNumber (h : Snapshots crc files pos m) :
    ∀ f ∈ files, f.1 < CheckpointWriter.nextNumber files := by
  cases h with
  | none => intro f hf; cases hf
  | @newest files n content pos m old checkpoint =>
    have hnext : nextNumber (files ++ [(n, content)]) = n + 1 := by
      simp [nextNumber]
    rw [hnext]
    intro f hf
    rcases mem_append.1 hf with hmem | hmem
    · exact Nat.lt_succ_of_lt (old f hmem).1
    · obtain rfl := mem_singleton.1 hmem
      exact Nat.lt_succ_self n

/-- The newest checkpoint stays when others are deleted. -/
theorem Snapshots.drop (h : Snapshots crc files pos m) {limit : Nat} (hlimit : limit = 0 ∨ limit < files.length) :
    Snapshots crc (files.drop limit) pos m := by
  cases h with
  | none =>
    rw [drop_nil]
    exact .none
  | @newest files n content pos m old checkpoint =>
    rw [length_append, length_singleton] at hlimit
    rw [drop_append_of_le_length (by omega)]
    exact .newest (fun f hf => old f (mem_of_mem_drop hf)) checkpoint

theorem deleteCorrupted_eq (h : ∀ f ∈ files, ∃ pos' m', HasCheckpoint crc f.2 pos' m' ∧ pos' ≤ pos) :
    deleteCorrupted crc files = some files := by
  induction files with
  | nil => rfl
  | cons f files ih =>
    obtain ⟨pos', m', hf, -⟩ := h f mem_cons_self
    rw [deleteCorrupted, hf.read, bind_some]
    dsimp only
    rw [ih fun f' hf' => h f' (mem_cons_of_mem _ hf'), map_some, if_pos rfl]

/-- Old checkpoints are deleted, and what is before their positions. -/
theorem deleteOldest_eq (h : ∀ f ∈ files, ∃ pos' m', HasCheckpoint crc f.2 pos' m' ∧ pos' ≤ pos) (limit : Nat)
    (log : RecordLog L) : ∃ keep : LogPos × Bytes → Bool, deleteOldest crc limit files log =
      some (files.drop limit, { log with records := log.records.filter keep }) ∧ ∀ e, pos ≤ e.1 → keep e = true := by
  induction limit generalizing files log with
  | zero => exact ⟨fun _ => true, by simp [deleteOldest], fun _ _ => rfl⟩
  | succ limit ih =>
    cases files with
    | nil => exact ⟨fun _ => true, by simp [deleteOldest], fun _ _ => rfl⟩
    | cons f files =>
      obtain ⟨pos', m', hf, hle⟩ := h f mem_cons_self
      obtain ⟨hpos, hdecode⟩ := hf.position
      obtain ⟨keep, hrest, hkeep⟩ := ih (fun f' hf' => h f' (mem_cons_of_mem _ hf')) (log.clean pos')
      refine ⟨fun e => decide (pos'.file_num_ ≤ e.1.file_num_) && keep e, ?_, fun e he => ?_⟩
      · rw [deleteOldest, hf.read, bind_some]
        dsimp only
        rw [hpos, bind_some, hdecode]
        dsimp only
        rw [hrest, RecordLog.clean, List.filter_filter, List.drop_succ_cons]
        simp only [Bool.and_comm]
      · have hfile := LogPos.file_le (le_trans hle he)
        simp [hkeep e he, hfile]

end Checkpoints

/-- The map that the directory recovers. -/
structure DiskInv (crc : Bytes → Int32) (d : Disk L) (m : StateMap) : Prop where
  good : Good m
  before : ∀ e ∈ d.log.records, e.1 < d.log.tell
  recovers : ∃ pos start, Snapshots crc d.checkpoints pos start ∧ pos ≤ d.log.tell ∧
    Recovers readInto (pos, some start) d.log.records (some m)

namespace DiskInv

variable {d : Disk L} {m m' : StateMap}

theorem init : DiskInv crc ({} : Disk L) [] where
  good := ⟨Pairwise.nil, fun e he => by cases he⟩
  before := fun e he => by cases he
  recovers := ⟨{}, [], .none, L.null_le, rfl⟩

section

variable (h : DiskInv crc d m)

include h

/-- `ReadState` finds the map. -/
theorem readState : readState crc d = some (true, m) := by
  obtain ⟨pos, start, hsnapshots, -, hrecovers⟩ := h.recovers
  have hlog : ∀ out : StateMap, out.erase kStateKeeperLogPosKey = start → readLog d pos out = some (true, m) := by
    intro out hout
    have hreplay : replay readInto (some start) (logFrom pos d.log.records) = some m := hrecovers
    rw [readLog, hout, RecordLog.recordsFrom, hreplay, map_some]
  rw [Checkpoint.readState]
  generalize d.checkpoints = files at hsnapshots
  cases hsnapshots with
  | none => exact hlog [] rfl
  | newest old checkpoint =>
    have hpos := checkpoint.position
    rw [readCheckpoint, reverse_append, reverse_singleton, singleton_append, readNewest, checkpoint.read, bind_some]
    dsimp only
    rw [if_pos rfl, bind_some]
    rw [if_pos rfl, hpos.1]
    dsimp only
    rw [hpos.2]
    exact hlog _ checkpoint.map

/-- The writer can go forward without a record. -/
theorem forward {writer : L.State} (hle : d.log.tell ≤ L.tell writer) :
    DiskInv crc { d with log := { d.log with writer := writer } } m where
  good := h.good
  before := fun e he => lt_of_lt_of_le (h.before e he) hle
  recovers := by
    obtain ⟨pos, start, hsnapshots, hpos, hrecovers⟩ := h.recovers
    exact ⟨pos, start, hsnapshots, le_trans hpos hle, hrecovers⟩

theorem flush : DiskInv crc { d with log := d.log.flush } m := h.forward (L.tell_flush _).1

theorem initializeLog : DiskInv crc { d with log := d.log.initializeLog } m :=
  h.forward (L.tell_initializeLog _)

/-- A record is written. -/
theorem writeRecord {rec : Bytes} (hrec : Written m rec m') :
    DiskInv crc { d with log := d.log.writeRecord rec } m' where
  good := hrec.good h.good
  before := by
    intro e he
    have hnext := L.tell_write d.log.writer rec
    rcases mem_append.1 he with hmem | hmem
    · exact lt_trans (h.before e hmem) hnext
    · obtain rfl := mem_singleton.1 hmem
      exact hnext
  recovers := by
    obtain ⟨pos, start, hsnapshots, hpos, hrecovers⟩ := h.recovers
    refine ⟨pos, start, hsnapshots, le_trans hpos (le_of_lt (L.tell_write _ _)), ?_⟩
    have happend := hrecovers.append hpos rec
    have hread : readInto (some m) rec = some m' := hrec.read
    rw [hread] at happend
    exact happend

/-- Old checkpoints and what is before them are deleted. -/
theorem cleanOldState (keep : Int) : ∃ d' : Disk L, cleanOldState crc keep d = some d' ∧ DiskInv crc d' m := by
  obtain ⟨pos, start, hsnapshots, hpos, hrecovers⟩ := h.recovers
  have hmin : ((kMinNumCheckpointsToKeep : Nat) : Int) = 2 := rfl
  have hlimit : ∀ n : Nat, (n - max keep kMinNumCheckpointsToKeep).toNat = 0 ∨
      (n - max keep kMinNumCheckpointsToKeep).toNat < n := by
    intro n
    rw [hmin]
    omega
  obtain ⟨keepEntry, hdelete, hkeep⟩ := deleteOldest_eq hsnapshots.all
    (d.checkpoints.length - max keep kMinNumCheckpointsToKeep).toNat d.log
  refine ⟨⟨{ d.log with records := d.log.records.filter keepEntry },
    d.checkpoints.drop (d.checkpoints.length - max keep kMinNumCheckpointsToKeep).toNat⟩, ?_, h.good, ?_, ?_⟩
  · rw [Checkpoint.cleanOldState]
    rw [deleteCorrupted_eq hsnapshots.all, bind_some, hdelete, map_some]
  · exact fun e he => h.before e (mem_of_mem_filter he)
  · exact ⟨pos, start, hsnapshots.drop (hlimit _), hpos, hrecovers.compact fun e _ he => hkeep e he⟩

/-- A checkpoint is written. -/
theorem checkpointInternal {k : StateKeeper} (hidle : k.checkpointer_ = {}) (hfits : d.log.flush.tell.Fits) :
    ∃ d' : Disk L, checkpointInternal crc m k d = some (k, d') ∧ DiskInv crc d' m := by
  obtain ⟨_, _, hsnapshots, hpos, -⟩ := h.recovers
  have hle : d.log.tell ≤ d.log.flush.tell := (L.tell_flush _).1
  have hnodup : (keys ((kStateKeeperLogPosKey, d.log.flush.tell.strEncode) :: m)).Nodup := by
    rw [AssocList.keys_cons, nodup_cons]
    refine ⟨fun hmem => ?_, nodup_of_sorted h.good.sorted⟩
    obtain ⟨e, he, hkey⟩ := mem_map.1 hmem
    exact (h.good.entries e he).1 hkey
  have hsizes : ∀ e ∈ (kStateKeeperLogPosKey, d.log.flush.tell.strEncode) :: m,
      e.1.length < 2 ^ 31 ∧ e.2.length < 2 ^ 31 := by
    intro e he
    rcases mem_cons.1 he with rfl | hmem
    · exact ⟨show kStateKeeperLogPosKey.length < 2 ^ 31 by decide, Nat.lt_trans (LogPos.length_strEncode hfits) (by decide)⟩
    · exact (h.good.entries e hmem).2
  obtain ⟨_, _, _, _, content, hbegin, hadd, hend, hfinished⟩ := writes_checkpoint
    d.checkpoints (fun f hf => Nat.ne_of_lt (hsnapshots.lt_nextNumber f hf)) hnodup hsizes
  have hread := readCheckpointFile_records hfinished
  have hchecked : HasCheckpoint crc content d.log.flush.tell m := ⟨hfits, h.good, hread⟩
  -- The new checkpoint is behind all records, so it recovers what it holds.
  have hnew : DiskInv crc (⟨d.log.flush, d.checkpoints ++ [(nextNumber d.checkpoints, content)]⟩ :
      Disk L) m := by
    refine ⟨h.good, h.flush.before, d.log.flush.tell, m, .newest (fun f hf => ?_) hchecked, le_refl _,
      recovers_taken fun e he => LogPos.not_le_of_lt (h.flush.before e he)⟩
    obtain ⟨pos', m', hf', hle'⟩ := hsnapshots.all f hf
    exact ⟨hsnapshots.lt_nextNumber f hf, pos', m', hf', le_trans hle' (le_trans hpos hle)⟩
  obtain ⟨d', hclean, hd'⟩ := hnew.cleanOldState k.checkpoints_to_keep_
  refine ⟨d', ?_, hd'⟩
  rw [Checkpoint.checkpointInternal]
  dsimp only
  rw [if_neg (fun hnot => hnot hfits), hidle, hbegin, bind_some]
  rw [hadd, bind_some]
  rw [if_pos rfl, hend, bind_some]
  rw [hclean, map_some, ← hidle]

end

end DiskInv

/-! ## What is in memory -/

/-- The keeper is ahead of the directory by its queue and the open transaction. -/
structure KeeperInv (m : StateMap) (k : StateKeeper) : Prop where
  pending : ∃ m₁, Leads k.writer_queue_ m m₁ ∧ Written m₁ k.op_buf_ k.data_
  idle : k.checkpointer_ = {}
  buffer : k.in_transaction_ = false → k.op_buf_ = []

namespace KeeperInv

variable {m : StateMap} {k k' : StateKeeper}

section

variable (h : KeeperInv m k)

include h

/-- An operation is queued after it has changed the map. -/
theorem queueOp {op : StateOp} (hop : op.Proper)
    (hstep : StateKeeper.queueOp { k with data_ := op.apply k.data_ } op = some k') : KeeperInv m k' := by
  obtain ⟨m₁, hleads, hwritten⟩ := h.pending
  rw [StateKeeper.queueOp] at hstep
  split_ifs at hstep with hkey hsize
  have happlied := hwritten.op hop (hop.fits hkey)
  obtain rfl := Option.some.inj hstep
  split_ifs with htransaction
  · exact ⟨⟨m₁, hleads, happlied⟩, h.idle, fun hfalse => absurd (htransaction.symm.trans hfalse) (by decide)⟩
  · exact ⟨⟨_, hleads.log happlied, Written.refl _⟩, h.idle, fun _ => rfl⟩

theorem setValue {key value : Bytes} (hop : (StateOp.set key value).Proper)
    (hstep : k.setValue key value = some k') : KeeperInv m k' := by
  rw [StateKeeper.setValue] at hstep
  split_ifs at hstep
  · exact Option.some.inj hstep ▸ h
  · exact h.queueOp hop hstep

theorem deleteValue {key : Bytes} (hstep : k.deleteValue key = some k') : KeeperInv m k' := by
  rw [StateKeeper.deleteValue] at hstep
  split_ifs at hstep
  · exact Option.some.inj hstep ▸ h
  · exact h.queueOp (show (StateOp.delete key).Proper from trivial) hstep

theorem deletePrefix {start : Bytes} (hstep : k.deletePrefix start = some k') : KeeperInv m k' :=
  h.queueOp (show (StateOp.clearPrefix start).Proper from trivial) hstep

theorem beginTransaction (hstep : k.beginTransaction = some k') : KeeperInv m k' := by
  rw [StateKeeper.beginTransaction] at hstep
  split_ifs at hstep
  obtain rfl := Option.some.inj hstep
  exact ⟨h.pending, h.idle, fun hfalse => absurd hfalse (by simp)⟩

theorem commitTransaction (hstep : k.commitTransaction = some k') : KeeperInv m k' ∧ k'.in_transaction_ = false := by
  rw [StateKeeper.commitTransaction] at hstep
  split_ifs at hstep
  obtain rfl := Option.some.inj hstep
  obtain ⟨_, hleads, hwritten⟩ := h.pending
  exact ⟨⟨⟨_, hleads.log hwritten, Written.refl _⟩, h.idle, fun _ => rfl⟩, rfl⟩

theorem deleteExpired {entries : List (Bytes × Bytes)}
    (hstep : k.deleteExpired entries = some k') : KeeperInv m k' := by
  induction entries generalizing k with
  | nil => exact Option.some.inj hstep ▸ h
  | cons e entries ih =>
    obtain ⟨_, hinitial, hstep⟩ := bind_eq_some_iff.1 hstep
    obtain ⟨_, hvalue, hstep⟩ := bind_eq_some_iff.1 hstep
    exact ih ((h.deletePrefix hinitial).deleteValue hvalue) hstep

theorem expireTimeoutedKeys {now : Int} (hstep : k.expireTimeoutedKeys now = some k') :
    KeeperInv m k' ∧ k'.in_transaction_ = false := by
  obtain ⟨_, hbegin, hstep⟩ := bind_eq_some_iff.1 hstep
  obtain ⟨_, hdelete, hcommit⟩ := bind_eq_some_iff.1 hstep
  exact ((h.beginTransaction hbegin).deleteExpired hdelete).commitTransaction hcommit

/-- Without a transaction the queue leads to the map in memory. -/
theorem leads (htransaction : k.in_transaction_ = false) : Leads k.writer_queue_ m k.data_ := by
  obtain ⟨_, hleads, hwritten⟩ := h.pending
  rw [h.buffer htransaction] at hwritten
  exact hwritten.eq_of_nil ▸ hleads

theorem checkpoint {now : Int} (hstep : k.checkpoint now = some k') : KeeperInv m k' := by
  rw [StateKeeper.checkpoint] at hstep
  split_ifs at hstep
  obtain ⟨k₁, hexpire, rfl⟩ := map_eq_some_iff.1 hstep
  obtain ⟨h₁, htransaction⟩ := h.expireTimeoutedKeys hexpire
  refine ⟨⟨k₁.data_, (h₁.leads htransaction).checkpoint, ?_⟩, h₁.idle, h₁.buffer⟩
  rw [h₁.buffer htransaction]
  exact Written.refl _

end

end KeeperInv

/-! ## The writer thread -/

section Writer

variable {d d' : Disk L} {m m' : StateMap} {k k' : StateKeeper} {c : WriteThreadCommand} {cs : List WriteThreadCommand}

/-- A command that is taken brings the directory forward. -/
theorem takeCommand_inv (hd : DiskInv crc d m) (hidle : k.checkpointer_ = {}) (hleads : Leads (c :: cs) m m')
    (hstep : takeCommand crc k d c = some (k', d')) :
    k' = k ∧ ∃ m₁, DiskInv crc d' m₁ ∧ Leads cs m₁ m' := by
  cases c with
  | log log_data =>
    obtain ⟨m₁, hwritten, hrest⟩ := hleads
    obtain ⟨rfl, rfl⟩ := Prod.mk.inj (Option.some.inj hstep)
    exact ⟨rfl, m₁, hd.writeRecord hwritten, hrest⟩
  | checkpoint data =>
    obtain ⟨rfl, hrest⟩ := hleads
    have hfits : d.log.flush.tell.Fits := by
      by_contra hnot
      have hnone : checkpointInternal crc data k d = none := by
        rw [checkpointInternal]
        exact if_pos hnot
      exact absurd (hnone.symm.trans hstep) (by simp)
    obtain ⟨_, hwrite, hd₁⟩ := hd.checkpointInternal hidle hfits
    obtain ⟨rfl, rfl⟩ := Prod.mk.inj (Option.some.inj (hwrite.symm.trans hstep))
    exact ⟨rfl, data, hd₁, hrest⟩

theorem takeCommands_inv (hd : DiskInv crc d m) (hidle : k.checkpointer_ = {}) (hleads : Leads cs m m')
    (hstep : takeCommands crc k d cs = some (k', d')) : DiskInv crc d' m' := by
  induction cs generalizing d m with
  | nil =>
    obtain rfl : m = m' := hleads
    obtain ⟨-, rfl⟩ := Prod.mk.inj (Option.some.inj hstep)
    exact hd
  | cons c cs ih =>
    obtain ⟨⟨_, _⟩, hfirst, hothers⟩ := bind_eq_some_iff.1 hstep
    obtain ⟨rfl, _, hd₁, hrest⟩ := takeCommand_inv hd hidle hleads hfirst
    exact ih hd₁ hrest hothers

end Writer

/-! ## Runs -/

/-- Keys are not the one of the position, and the size of a value is an `int32`. -/
def KeeperEvent.Proper : KeeperEvent → Prop
  | .setValue key value => key ≠ kStateKeeperLogPosKey ∧ value.length < 2 ^ 31
  | _ => True

namespace System

/-- The directory recovers a map that the keeper is ahead of. -/
def Inv (crc : Bytes → Int32) (s : System L) : Prop :=
  ∃ m, DiskInv crc s.disk m ∧ ∀ k, s.keeper = some k → KeeperInv m k

variable {s s' : System L}

theorem Inv.init : Inv crc ({} : System L) := ⟨[], DiskInv.init, fun k hk => by cases hk⟩

/-- Calls keep the invariant when they keep that of the keeper. -/
theorem Inv.call (h : Inv crc s) {f : StateKeeper → Option StateKeeper}
    (hf : ∀ m k k', KeeperInv m k → f k = some k' → KeeperInv m k') (hstep : s.call f = some s') : Inv crc s' := by
  obtain ⟨m, hd, hkeeper⟩ := h
  obtain ⟨k, hk, hstep⟩ := bind_eq_some_iff.1 hstep
  obtain ⟨k', hk', rfl⟩ := map_eq_some_iff.1 hstep
  exact ⟨m, hd, fun k₁ hk₁ => Option.some.inj hk₁ ▸ hf m k k' (hkeeper k hk) hk'⟩

theorem Inv.initializeKeeper (h : Inv crc s) {keep : Int} (hstep : s.initializeKeeper crc keep = some s') :
    Inv crc s' := by
  obtain ⟨m, hd, -⟩ := h
  rw [System.initializeKeeper] at hstep
  split_ifs at hstep
  rw [hd.readState, map_some, Option.some.injEq] at hstep
  obtain rfl := hstep
  refine ⟨m, hd.initializeLog, fun k hk => ?_⟩
  obtain rfl := Option.some.inj hk
  exact ⟨⟨m, rfl, Written.refl m⟩, rfl, fun _ => rfl⟩

theorem Inv.writerStep (h : Inv crc s) (hstep : s.writerStep crc = some s') : Inv crc s' := by
  obtain ⟨m, hd, hkeeper⟩ := h
  obtain ⟨k, hk, hstep⟩ := bind_eq_some_iff.1 hstep
  obtain ⟨⟨m₁, hleads, hwritten⟩, hidle, hbuffer⟩ := hkeeper k hk
  cases hqueue : k.writer_queue_ with
  | nil =>
    rw [hqueue] at hstep
    cases hstep
  | cons c cs =>
    rw [hqueue] at hstep hleads
    obtain ⟨⟨_, _⟩, htake, rfl⟩ := map_eq_some_iff.1 hstep
    have hidle' : ({ k with writer_queue_ := cs } : StateKeeper).checkpointer_ = {} := hidle
    obtain ⟨rfl, m₂, hd', hrest⟩ := takeCommand_inv hd hidle' hleads htake
    refine ⟨m₂, hd', fun k₁ hk₁ => ?_⟩
    obtain rfl := Option.some.inj hk₁
    exact ⟨⟨m₁, hrest, hwritten⟩, hidle, hbuffer⟩

theorem Inv.writerFlush (h : Inv crc s) (hstep : s.writerFlush = some s') : Inv crc s' := by
  obtain ⟨m, hd, hkeeper⟩ := h
  obtain ⟨k, -, rfl⟩ := map_eq_some_iff.1 hstep
  exact ⟨m, hd.flush, hkeeper⟩

/-- Behind a shutdown the directory recovers what the queue led to. -/
theorem shutDown_inv {m m' : StateMap} {k : StateKeeper} (hk : s.keeper = some k) (hd : DiskInv crc s.disk m)
    (hidle : k.checkpointer_ = {}) (hleads : Leads k.writer_queue_ m m') (hstep : s.shutDown crc = some s') :
    DiskInv crc s'.disk m' ∧ s'.keeper = none := by
  rw [System.shutDown, hk, bind_some] at hstep
  obtain ⟨⟨_, _⟩, htake, rfl⟩ := map_eq_some_iff.1 hstep
  have hidle' : ({ k with writer_queue_ := [] } : StateKeeper).checkpointer_ = {} := hidle
  exact ⟨(takeCommands_inv hd hidle' hleads htake).flush, rfl⟩

theorem Inv.shutDown (h : Inv crc s) (hstep : s.shutDown crc = some s') : Inv crc s' := by
  obtain ⟨m, hd, hkeeper⟩ := h
  obtain ⟨k, hk, -⟩ := bind_eq_some_iff.1 hstep
  obtain ⟨⟨m₁, hleads, -⟩, hidle, -⟩ := hkeeper k hk
  obtain ⟨hd', hnone⟩ := shutDown_inv hk hd hidle hleads hstep
  exact ⟨m₁, hd', fun k₁ hk₁ => absurd (hnone.symm.trans hk₁) (by simp)⟩

/-- Every event keeps the invariant. -/
theorem Inv.step (h : Inv crc s) {e : KeeperEvent} (he : e.Proper) (hstep : s.step crc e = some s') : Inv crc s' := by
  cases e with
  | initializeKeeper keep => exact h.initializeKeeper hstep
  | setValue key value => exact h.call (fun m k k' hk hk' => hk.setValue he hk') hstep
  | deleteValue key => exact h.call (fun m k k' hk hk' => hk.deleteValue hk') hstep
  | deletePrefix start => exact h.call (fun m k k' hk hk' => hk.deletePrefix hk') hstep
  | beginTransaction => exact h.call (fun m k k' hk hk' => hk.beginTransaction hk') hstep
  | commitTransaction => exact h.call (fun m k k' hk hk' => (hk.commitTransaction hk').1) hstep
  | expireTimeoutedKeys now => exact h.call (fun m k k' hk hk' => (hk.expireTimeoutedKeys hk').1) hstep
  | checkpoint now => exact h.call (fun m k k' hk hk' => hk.checkpoint hk') hstep
  | writerStep => exact h.writerStep hstep
  | writerFlush => exact h.writerFlush hstep
  | shutDown => exact h.shutDown hstep

theorem Inv.run (h : Inv crc s) {es : List KeeperEvent} (hes : ∀ e ∈ es, e.Proper)
    (hrun : run (System.step crc) s es = some s') : Inv crc s' :=
  run_invariant (fun _ _ _ hs he hstep => hs.step he hstep) h hes hrun

end System

/-- Whatever the calls and the steps of the writer thread were, over any number of lifetimes: behind a shutdown without
an open transaction `ReadState` finds the map that was in memory. -/
theorem readState_shutDown {es : List KeeperEvent} (hes : ∀ e ∈ es, e.Proper) {s s' : System L}
    (hrun : run (System.step crc) {} es = some s) {k : StateKeeper} (hk : s.keeper = some k)
    (htransaction : k.in_transaction_ = false) (hstep : s.step crc .shutDown = some s') :
    readState crc s'.disk = some (true, k.data_) := by
  obtain ⟨m, hd, hkeeper⟩ := System.Inv.init.run hes hrun
  have hkeeper := hkeeper k hk
  exact (System.shutDown_inv hk hd hkeeper.idle (hkeeper.leads htransaction) hstep).1.readState

/-! ## Examples -/

section Examples

/-- A log in one file: each record that is flushed is in a block of its own. It is so for few short records. -/
def blockLayout : Layout where
  State := Nat × Nat
  init := (0, 0)
  tell s := ⟨0, s.1, s.2⟩
  write s _ := (s.1, s.2 + 1)
  flush s := if s.2 = 0 then s else (s.1 + 1, 0)
  initializeLog s := s
  null_le := le_of_lt (LogPos.lt_iff.2 (.inl (by decide)))
  tell_write := by
    intro s rec
    refine LogPos.lt_iff.2 (.inr ⟨rfl, .inr ⟨rfl, ?_⟩⟩)
    show (s.2 : Int) < ((s.2 + 1 : Nat) : Int)
    omega
  tell_flush := by
    intro s
    split_ifs with hempty
    · exact ⟨le_refl _, by simp [hempty]⟩
    · refine ⟨le_of_lt (LogPos.lt_iff.2 (.inr ⟨rfl, .inl ?_⟩)), rfl⟩
      show (s.1 : Int) < ((s.1 + 1 : Nat) : Int)
      omega
  tell_initializeLog := fun _ => le_refl _

/-- Two lifetimes, with a transaction in the second one. -/
def twoLifetimes : List KeeperEvent :=
  [.initializeKeeper 4, .setValue [97] [1], .writerStep, .writerFlush, .shutDown, .initializeKeeper 4, .beginTransaction,
    .setValue [98] [2], .deleteValue [97], .setValue [99] [], .commitTransaction]

theorem readState_shutDown_twice : ∃ s' : System blockLayout,
    readState (fun _ => 0) s'.disk = some (true, [([98], [2]), ([99], [])]) := by
  have hproper : ∀ e ∈ twoLifetimes, e.Proper := by
    simp [twoLifetimes, KeeperEvent.Proper, kStateKeeperLogPosKey, Http.ascii]
  exact ⟨_, @readState_shutDown (fun _ => 0) blockLayout twoLifetimes hproper _ _ rfl _ rfl rfl rfl⟩

/-- A value of 2^32 bytes is written without its bytes. -/
theorem encode_long {key value : Bytes} (h : value.length = 2 ^ 32) :
    (StateOp.set key value).encode = (StateOp.set key []).encode := by
  simp [StateOp.encode, StateOp.written, h]

/-- A keeper with one value, as it was set; it is written as an empty one. -/
def cutOff (value : Bytes) : StateKeeper where
  data_ := [([97], value)]
  writer_queue_ := [.log (StateOp.set [97] []).encode]
  checkpoints_to_keep_ := 4

/-- A value of 2^32 bytes is recovered as an empty one. -/
theorem not_readState_shutDown : ¬ ∀ (crc : Bytes → Int32) (L : Layout) (es : List KeeperEvent),
    (∀ key value, KeeperEvent.setValue key value ∈ es →
      key.length < kMaxInt16 ∧ key ≠ kStateKeeperLogPosKey ∧ key ≠ kCheckpointEnd) →
    ∀ (s s' : System L) (k : StateKeeper), run (System.step crc) {} es = some s → s.keeper = some k →
      k.in_transaction_ = false → s.step crc .shutDown = some s' → readState crc s'.disk = some (true, k.data_) := by
  intro h
  obtain ⟨value, hvalue⟩ : ∃ value : Bytes, value.length = 2 ^ 32 := ⟨replicate (2 ^ 32) 0, length_replicate⟩
  have hkeys : ∀ key value', KeeperEvent.setValue key value' ∈ [.initializeKeeper 4, .setValue [97] value] →
      key.length < kMaxInt16 ∧ key ≠ kStateKeeperLogPosKey ∧ key ≠ kCheckpointEnd := by
    intro key value' hmem
    simp only [mem_cons, reduceCtorEq, not_mem_nil, or_false, false_or, KeeperEvent.setValue.injEq] at hmem
    rw [hmem.1]
    decide
  have hset : setValue { checkpoints_to_keep_ := 4 } [97] value =
      some (cutOff value) := by
    have hlen : ¬ 2 ^ 31 ≤ ([] ++ (StateOp.set [97] []).encode).length := by decide
    have hkey : ([97] : Bytes).length < kMaxInt16 := by decide
    rw [setValue, if_neg (by simp), queueOp, if_neg (fun hnot => hnot hkey), encode_long hvalue,
      if_neg hlen]
    rfl
  have hrun : run (System.step fun _ => 0) ({} : System blockLayout) [.initializeKeeper 4, .setValue [97] value] =
      some ⟨{}, some (cutOff value)⟩ := by
    have hcall : System.step (fun _ => 0) (⟨{}, some { checkpoints_to_keep_ := 4 }⟩ : System blockLayout)
        (.setValue [97] value) = some ⟨{}, some (cutOff value)⟩ := by
      rw [System.step, System.call, bind_some, hset, map_some]
    exact run_cons_eq_some.2 ⟨_, rfl, run_cons_eq_some.2 ⟨_, hcall, rfl⟩⟩
  have hread := h _ _ _ hkeys _ _ _ hrun rfl rfl rfl
  have hempty : some (true, [([97], [])]) = some (true, [(([97] : Bytes), value)]) := hread
  simp only [Option.some.injEq, Prod.mk.injEq, true_and, cons.injEq, and_true] at hempty
  rw [← hempty] at hvalue
  exact absurd hvalue (by decide)

end Examples

end Whispercast.Checkpoint
