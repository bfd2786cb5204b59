import Whispercast.Checkpoint.CheckpointFile
import Whispercast.Logio.WriteCalls

/-!
# Writing a checkpoint over `write` calls

Model of `CheckpointWriter::WriteBuffer` (`common/io/checkpoint/checkpointing.cc`) where a `write` call may fail or write
less than it is given. `WriteBuffer` goes by the stream, which has consumed what a short call did not write.
-/

namespace Whispercast.Checkpoint

open Io Logio

namespace CheckpointWriter

/-- `WriteBuffer` over `write` calls: what it returns, what the open file receives, the writer and the calls to come. -/
def writeBufferOn (w : CheckpointWriter) (calls : List WriteCall) :
    Option (Bool × Bytes × CheckpointWriter × List WriteCall) :=
  if w.file_.isNone then none
  else if w.buf_.length % kDefaultCheckpointBlockSize ≠ 0 then none
  else
    let r := File.write w.buf_.length w.buf_ calls
    if r.cb.isNone then some (false, r.out, w, r.calls)
    else if r.ms ≠ [] then some (false, r.out, w, r.calls)
    else some (true, r.out, { w with buf_ := [] }, r.calls)

section

variable {w w' : CheckpointWriter} {calls calls' : List WriteCall} {out : Bytes}

/-- `WriteBuffer` succeeds unless a call stops it. -/
theorem writeBufferOn_eq_true_iff : writeBufferOn w calls = some (true, out, w', calls') ↔
    w.file_ ≠ none ∧ w.buf_.length % kDefaultCheckpointBlockSize = 0 ∧ ¬ File.Stops w.buf_.length calls ∧
      out = (File.write w.buf_.length w.buf_ calls).out ∧ w' = { w with buf_ := [] } ∧
      calls' = (File.write w.buf_.length w.buf_ calls).calls := by
  rw [← File.write_stops_iff, writeBufferOn]
  generalize File.write w.buf_.length w.buf_ calls = r
  obtain ⟨cb, -, ms, -⟩ := r
  cases hfile : w.file_ with
  | none => simp
  | some n =>
    by_cases hblocks : w.buf_.length % kDefaultCheckpointBlockSize = 0
    · cases cb with
      | none => simp [hblocks]
      | some cb =>
        by_cases hms : ms = []
        · simp [hblocks, hms, eq_comm]
        · simp [hblocks, hms]
    · simp [hblocks]

/-- A `WriteBuffer` that returns true has written the buffer if and only if each piece is taken whole. -/
theorem writeBufferOn_complete_iff (w : CheckpointWriter) (calls : List WriteCall) :
    (∀ out w' calls', writeBufferOn w calls = some (true, out, w', calls') → out = w.buf_) ↔
      (w.file_ = none ∨ w.buf_.length % kDefaultCheckpointBlockSize ≠ 0 ∨ File.Stops w.buf_.length calls) ∨
        File.Whole w.buf_.length calls := by
  rw [← File.write_out_iff]
  constructor
  · intro hcomplete
    by_contra hnot
    rw [not_or, not_or, not_or, not_not] at hnot
    obtain ⟨⟨hfile, hblocks, hstops⟩, hout⟩ := hnot
    exact hout (hcomplete _ _ _ (writeBufferOn_eq_true_iff.2 ⟨hfile, hblocks, hstops, rfl, rfl, rfl⟩))
  · rintro h out w' calls' hwrite
    obtain ⟨hfile, hblocks, hstops, rfl, -, -⟩ := writeBufferOn_eq_true_iff.1 hwrite
    rcases h with (h | h | h) | h
    · exact absurd h hfile
    · exact absurd hblocks h
    · exact absurd h hstops
    · exact h

end

end CheckpointWriter

/-- What the two writers take for written is written if and only if no piece is taken in part, but for pieces behind
which the writing stops, and for those of a log whose number of bytes is not made up. -/
theorem writeBuffers_complete_iff (w : CheckpointWriter) (calls : List WriteCall) (p : WriterParams)
    (blocks_per_file : Nat) (v : LogWriter) (logCalls : List WriteCall) :
    ((∀ out w' calls', w.writeBufferOn calls = some (true, out, w', calls') → out = w.buf_) ↔
        (w.file_ = none ∨ w.buf_.length % kDefaultCheckpointBlockSize ≠ 0 ∨ File.Stops w.buf_.length calls) ∨
          File.Whole w.buf_.length calls) ∧
      ((∀ buf : Bytes, buf.length = v.buf_.length → LogWriter.Keeps p blocks_per_file { v with buf_ := buf } logCalls) ↔
        ¬ (v.Ready p blocks_per_file ∧ LogWriter.LosesIn (p.block_size_ * blocks_per_file) (v.buf_.length + 1)
          v.file_.length v.buf_.length logCalls)) :=
  ⟨CheckpointWriter.writeBufferOn_complete_iff w calls, LogWriter.keeps_iff v logCalls⟩

/-- The first call for a checkpoint of one block writes a hundred bytes of its piece. The checkpoint is complete then, and
its file has less than a block. -/
theorem CheckpointWriter.writeBufferOn_hundred {buf : Bytes} (hlen : buf.length = kDefaultCheckpointBlockSize) :
    ∃ out calls', CheckpointWriter.writeBufferOn { file_ := some 0, buf_ := buf } [.wrote 100] =
        some (true, out, { file_ := some 0 }, calls') ∧ out.length < kDefaultCheckpointBlockSize := by
  have hstops : ¬ File.Stops buf.length [.wrote 100] := by simp [File.Stops]
  have hwhole : ¬ File.Whole buf.length [.wrote 100] := by
    rw [hlen]
    simp [File.Whole, File.sizeofTmp, kDefaultCheckpointBlockSize]
  have hblocks : buf.length % kDefaultCheckpointBlockSize = 0 := by rw [hlen, Nat.mod_self]
  refine ⟨_, _, CheckpointWriter.writeBufferOn_eq_true_iff.2 ⟨Option.some_ne_none 0, hblocks, hstops, rfl, rfl, rfl⟩, ?_⟩
  have hlt := File.writeLoop_out_lt hwhole (Nat.zero_add _).le (Nat.lt_succ_self buf.length)
  exact hlen ▸ hlt

theorem writeBufferOn_short : ∃ out calls', CheckpointWriter.writeBufferOn
        { file_ := some 0, buf_ := List.replicate kDefaultCheckpointBlockSize 0 } [.wrote 100] =
          some (true, out, { file_ := some 0 }, calls') ∧
      out.length < kDefaultCheckpointBlockSize :=
  CheckpointWriter.writeBufferOn_hundred List.length_replicate

end Whispercast.Checkpoint
