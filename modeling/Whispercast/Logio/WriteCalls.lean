import Whispercast.Io.FileWrite
import Whispercast.Logio.LogFiles

/-!
# Writing a log over `write` calls

Model of `LogWriter::WriteBuffer` (`common/io/logio/logio.cc`) where a `write` call may fail or write less than it is
given. `WriteBuffer` goes by the number that `File::Write` returns, and the stream may have lost more than that.
-/

namespace Whispercast.Logio

open Io List File

namespace LogWriter

/-- The loop of `WriteBuffer` over `write` calls, for `n` turns at most. It returns nothing when a `CHECK` fails, and the
writer is as it is then. -/
def writeLoopOn (p : WriterParams) (blocks_per_file : Nat) :
    Nat → LogWriter → List WriteCall → Option Bool × List WriteCall × LogWriter
  | 0, w, calls => (none, calls, w)
  | n + 1, w, calls =>
    if w.buf_ = [] then (some true, calls, w)
    else
      let pos := w.file_.length
      if pos % p.block_size_ ≠ 0 ∨ p.block_size_ * blocks_per_file < pos then (some false, calls, w)
      else if ¬ pos < p.block_size_ * blocks_per_file then (none, calls, w)
      else if w.buf_.length % p.block_size_ ≠ 0 then (none, calls, w)
      else
        let to_write := min (p.block_size_ * blocks_per_file - pos) w.buf_.length
        let r := File.write to_write w.buf_ calls
        match r.cb with
        -- The buffer is restored, and the file is left as it is.
        | none => (some false, r.calls, { w with file_ := w.file_ ++ r.out })
        | some cb =>
          if cb ≠ to_write then (some false, r.calls, w)
          else
            let w := { w with file_ := w.file_ ++ r.out, buf_ := r.ms }
            writeLoopOn p blocks_per_file n
              (if w.file_.length = p.block_size_ * blocks_per_file then w.openNextLog else w) r.calls

/-- `WriteBuffer` over `write` calls. -/
def writeBufferOn (p : WriterParams) (blocks_per_file : Nat) (w : LogWriter) (calls : List WriteCall) :
    Option Bool × List WriteCall × LogWriter :=
  writeLoopOn p blocks_per_file (w.buf_.length + 1) w calls

/-- What is in the files, one behind the other. -/
def log (w : LogWriter) : Bytes := w.files.flatten ++ w.file_

/-- `WriteBuffer` can begin: the file has whole blocks and room, and the buffer has whole blocks. -/
def Ready (p : WriterParams) (blocks_per_file : Nat) (w : LogWriter) : Prop :=
  p.block_size_ ∣ w.file_.length ∧ w.file_.length < p.block_size_ * blocks_per_file ∧ p.block_size_ ∣ w.buf_.length

/-- Each byte that `WriteBuffer` removes from the buffer is in the log, in its place. -/
def Keeps (p : WriterParams) (blocks_per_file : Nat) (w : LogWriter) (calls : List WriteCall) : Prop :=
  let w' := (writeBufferOn p blocks_per_file w calls).2.2
  ∃ removed, w.buf_ = removed ++ w'.buf_ ∧ w.log ++ removed <+: w'.log

/-- In one of the turns of `WriteBuffer`, at most `n`, for a file with `pos` bytes and a buffer with `left`, some bytes
get lost; in the turns before that each piece is written whole. -/
def LosesIn (size : Nat) : Nat → Nat → Nat → List WriteCall → Prop
  | 0, _, _, _ => False
  | n + 1, pos, left, calls =>
    File.Loses (min (size - pos) left) left calls ∨
      File.Whole (min (size - pos) left) calls ∧ left ≠ 0 ∧
        LosesIn size n 0 (left - min (size - pos) left) (calls.drop (File.pieces (min (size - pos) left)))

section Turns

variable {p : WriterParams} {blocks_per_file n : Nat} {w : LogWriter} {calls : List WriteCall}

@[simp] theorem log_openNextLog (w : LogWriter) : w.openNextLog.log = w.log := by simp [log, openNextLog]

@[simp] theorem buf_openNextLog (w : LogWriter) : w.openNextLog.buf_ = w.buf_ := rfl

/-- A turn of a writer that is ready. -/
theorem writeLoopOn_succ (h : w.Ready p blocks_per_file) (hbuf : w.buf_ ≠ []) :
    writeLoopOn p blocks_per_file (n + 1) w calls =
      let to_write := min (p.block_size_ * blocks_per_file - w.file_.length) w.buf_.length
      let r := write to_write w.buf_ calls
      match r.cb with
      | none => (some false, r.calls, { w with file_ := w.file_ ++ r.out })
      | some cb =>
        if cb ≠ to_write then (some false, r.calls, w)
        else
          let w := { w with file_ := w.file_ ++ r.out, buf_ := r.ms }
          writeLoopOn p blocks_per_file n
            (if w.file_.length = p.block_size_ * blocks_per_file then w.openNextLog else w) r.calls := by
  obtain ⟨hpos, hroom, hblocks⟩ := h
  have hgood : ¬ (w.file_.length % p.block_size_ ≠ 0 ∨ p.block_size_ * blocks_per_file < w.file_.length) := by
    rw [not_or, not_not]
    exact ⟨Nat.mod_eq_zero_of_dvd hpos, by omega⟩
  rw [writeLoopOn, if_neg hbuf]
  rw [if_neg hgood, if_neg (not_not.2 hroom), if_neg (not_not.2 (Nat.mod_eq_zero_of_dvd hblocks))]

/-- A writer that is not ready does nothing. -/
theorem writeLoopOn_of_not_ready (h : ¬ w.Ready p blocks_per_file ∨ w.buf_ = []) :
    (writeLoopOn p blocks_per_file n w calls).2.2 = w := by
  cases n with
  | zero => rfl
  | succ n =>
    rw [writeLoopOn]
    by_cases hbuf : w.buf_ = []
    · rw [if_pos hbuf]
    · rw [if_neg hbuf]
      by_cases hpos : w.file_.length % p.block_size_ ≠ 0 ∨ p.block_size_ * blocks_per_file < w.file_.length
      · rw [if_pos hpos]
      · rw [if_neg hpos]
        by_cases hroom : w.file_.length < p.block_size_ * blocks_per_file
        · rw [if_neg (not_not.2 hroom), if_pos]
          -- Otherwise the checks have passed.
          intro hblocks
          rw [not_or, not_not] at hpos
          exact h.resolve_right hbuf ⟨Nat.dvd_of_mod_eq_zero hpos.1, hroom, Nat.dvd_of_mod_eq_zero hblocks⟩
        · rw [if_pos hroom]

/-- The log grows, and the buffer shrinks at its front. -/
theorem writeLoopOn_log : w.log <+: (writeLoopOn p blocks_per_file n w calls).2.2.log ∧
    (writeLoopOn p blocks_per_file n w calls).2.2.buf_ <:+ w.buf_ := by
  induction n generalizing w calls with
  | zero => exact ⟨prefix_rfl, suffix_rfl⟩
  | succ n ih =>
    by_cases hready : w.Ready p blocks_per_file ∧ w.buf_ ≠ []
    · rw [writeLoopOn_succ hready.1 hready.2]
      dsimp only
      generalize hr : write (min (p.block_size_ * blocks_per_file - w.file_.length) w.buf_.length) w.buf_ calls = r
      have hgrows : ∀ buf, w.log <+: log { w with file_ := w.file_ ++ r.out, buf_ := buf } := by
        intro buf
        refine ⟨r.out, ?_⟩
        simp [log]
      have hms : r.ms <:+ w.buf_ := by
        rw [← hr]
        exact writeLoop_ms
      cases r.cb with
      | none => exact ⟨hgrows w.buf_, suffix_rfl⟩
      | some cb =>
        dsimp only
        split_ifs with hcb hfull
        · exact ⟨prefix_rfl, suffix_rfl⟩
        · have h := @ih (openNextLog { w with file_ := w.file_ ++ r.out, buf_ := r.ms }) r.calls
          rw [log_openNextLog, buf_openNextLog] at h
          exact ⟨(hgrows r.ms).trans h.1, h.2.trans hms⟩
        · have h := @ih { w with file_ := w.file_ ++ r.out, buf_ := r.ms } r.calls
          exact ⟨(hgrows r.ms).trans h.1, h.2.trans hms⟩
    · rw [writeLoopOn_of_not_ready (by tauto)]
      exact ⟨prefix_rfl, suffix_rfl⟩

theorem not_loses_zero {avail : Nat} : ¬ File.Loses 0 avail calls := by
  intro h
  match calls, h with
  | [], h => exact h
  | .error :: _, h => exact h
  | .wrote _ :: _, h => exact h.1 rfl

theorem not_losesIn_zero {size pos : Nat} : ¬ LosesIn size n pos 0 calls := by
  intro h
  cases n with
  | zero => exact h
  | succ n =>
    rw [LosesIn, Nat.min_zero] at h
    rcases h with h | h
    · exact not_loses_zero h
    · exact h.2.1 rfl

/-- What the first turn writes when each piece is written whole. -/
theorem write_take {t : Nat} (h : File.Whole t calls) (ht : t ≤ w.buf_.length) :
    File.write t w.buf_ calls = ⟨some t, w.buf_.take t, w.buf_.drop t, calls.drop (File.pieces t)⟩ :=
  writeLoop_whole h (Nat.zero_add _).symm ht (Nat.lt_succ_self _)

/-- When nothing gets lost, what is removed from the buffer is in the log. -/
theorem writeLoopOn_keeps (h : w.Ready p blocks_per_file →
      ¬ LosesIn (p.block_size_ * blocks_per_file) n w.file_.length w.buf_.length calls) :
    ∃ removed, w.buf_ = removed ++ (writeLoopOn p blocks_per_file n w calls).2.2.buf_ ∧
      w.log ++ removed <+: (writeLoopOn p blocks_per_file n w calls).2.2.log := by
  have hrefl : ∀ w : LogWriter, ∃ removed, w.buf_ = removed ++ w.buf_ ∧ w.log ++ removed <+: w.log := by
    intro w
    exact ⟨[], rfl, by simp⟩
  induction n generalizing w calls with
  | zero => exact hrefl w
  | succ n ih =>
    by_cases hready : w.Ready p blocks_per_file ∧ w.buf_ ≠ []
    · have hnot := h hready.1
      rw [LosesIn, not_or] at hnot
      rw [writeLoopOn_succ hready.1 hready.2]
      dsimp only
      set t := min (p.block_size_ * blocks_per_file - w.file_.length) w.buf_.length with ht
      have htle : t ≤ w.buf_.length := Nat.min_le_right _ _
      cases hcb : (write t w.buf_ calls).cb with
      | none => exact ⟨[], rfl, (write t w.buf_ calls).out, by simp [log]⟩
      | some cb =>
        dsimp only
        by_cases hsame : cb = t
        · subst hsame
          have hwhole : Whole t calls :=
            writeLoop_whole_of_not_loses hnot.1 (Nat.zero_add _).symm htle (Nat.lt_succ_self _) hcb
          have hlater : ¬ LosesIn (p.block_size_ * blocks_per_file) n 0 (w.buf_.length - t)
              (calls.drop (pieces t)) := by
            intro hloses
            exact hnot.2 ⟨hwhole, fun hzero => hready.2 (length_eq_zero_iff.1 hzero), hloses⟩
          rw [if_neg (not_not.2 rfl), write_take hwhole htle]
          -- The state behind the turn, in the same file or a new one.
          generalize hw₁ : (if (w.file_ ++ w.buf_.take t).length = p.block_size_ * blocks_per_file then
            openNextLog { w with file_ := w.file_ ++ w.buf_.take t, buf_ := w.buf_.drop t }
            else { w with file_ := w.file_ ++ w.buf_.take t, buf_ := w.buf_.drop t }) = w₁
          have hbuf : w₁.buf_ = w.buf_.drop t := by
            rw [← hw₁]
            split_ifs <;> rfl
          have hlog : w₁.log = w.log ++ w.buf_.take t := by
            rw [← hw₁]
            split_ifs <;> simp [log, openNextLog]
          have hnext : ¬ LosesIn (p.block_size_ * blocks_per_file) n w₁.file_.length w₁.buf_.length
              (calls.drop (pieces t)) := by
            rw [hbuf, length_drop]
            by_cases hfull : (w.file_ ++ w.buf_.take t).length = p.block_size_ * blocks_per_file
            · rw [if_pos hfull] at hw₁
              rw [← hw₁]
              exact hlater
            · have hsum : (w.file_ ++ w.buf_.take t).length = w.file_.length + t := by
                rw [length_append, length_take_of_le htle]
              have hroom := hready.1.2.1
              have hnone : w.buf_.length - t = 0 := by omega
              rw [hnone]
              exact not_losesIn_zero
          obtain ⟨removed, hremoved, _⟩ := ih fun _ => hnext
          refine ⟨w.buf_.take t ++ removed, ?_, ?_⟩
          · rw [append_assoc, ← hremoved, hbuf, take_append_drop]
          · rwa [← append_assoc, ← hlog]
        · rw [if_pos hsame]
          exact hrefl w
    · rw [writeLoopOn_of_not_ready (by tauto)]
      exact hrefl w

/-- Where something gets lost, a byte is removed from the buffer and a later one is in its place in the log. -/
theorem writeLoopOn_loses {pos left : Nat} (h : LosesIn (p.block_size_ * blocks_per_file) n pos left calls) :
    ∃ i j, i < j ∧ j < left ∧ ∀ w : LogWriter, w.Ready p blocks_per_file → w.file_.length = pos → w.buf_.length = left →
      (writeLoopOn p blocks_per_file n w calls).2.2.log[w.log.length + i]? = w.buf_[j]? ∧
        i + (writeLoopOn p blocks_per_file n w calls).2.2.buf_.length < left := by
  induction n generalizing pos left calls with
  | zero => exact absurd h id
  | succ n ih =>
    set t := min (p.block_size_ * blocks_per_file - pos) left with ht
    have htle : t ≤ left := Nat.min_le_right _ _
    rcases h with h | ⟨hwhole, -, h⟩
    · -- It happens in this turn, and the later ones only add to the log and take from the buffer.
      obtain ⟨i, j, hij, -, hj, hall⟩ := File.writeLoop_loses h htle
      refine ⟨i, j, hij, hj, ?_⟩
      intro w hready hpos hbuf
      obtain ⟨hcb, hout, hms⟩ := hall (w.buf_.length + 1) t 0 w.buf_ hbuf (Nat.zero_add _).symm (by omega)
      have hto : min (p.block_size_ * blocks_per_file - w.file_.length) w.buf_.length = t := by rw [hpos, hbuf]
      rw [writeLoopOn_succ hready (ne_nil_of_length_pos (by omega))]
      dsimp only
      rw [hto, write, hcb]
      dsimp only
      rw [if_neg (not_not.2 rfl)]
      generalize File.writeLoop (w.buf_.length + 1) t 0 w.buf_ calls = r at hout hms ⊢
      generalize hw₁ : (if (w.file_ ++ r.out).length = p.block_size_ * blocks_per_file then
        openNextLog { w with file_ := w.file_ ++ r.out, buf_ := r.ms }
        else { w with file_ := w.file_ ++ r.out, buf_ := r.ms }) = w₁
      have hbuf₁ : w₁.buf_ = r.ms := by
        rw [← hw₁]
        split_ifs <;> rfl
      have hlog₁ : w₁.log = w.log ++ r.out := by
        rw [← hw₁]
        split_ifs <;> simp [log, openNextLog]
      obtain ⟨⟨_, hmore⟩, hsuffix⟩ := @writeLoopOn_log p blocks_per_file n w₁ r.calls
      have hilt : i < r.out.length := by
        by_contra hge
        rw [getElem?_eq_none (by omega), getElem?_eq_getElem (by omega)] at hout
        cases hout
      constructor
      · rw [← hmore, hlog₁, append_assoc, getElem?_append_right (Nat.le_add_right _ _),
          Nat.add_sub_cancel_left, getElem?_append_left hilt, hout]
      · have hle := hsuffix.length_le
        rw [hbuf₁] at hle
        omega
    · obtain ⟨i, j, hij, hj, hall⟩ := ih h
      refine ⟨t + i, t + j, by omega, by omega, ?_⟩
      intro w hready hpos hbuf
      have hto : min (p.block_size_ * blocks_per_file - w.file_.length) w.buf_.length = t := by rw [hpos, hbuf]
      have hroom := hready.2.1
      have htake : (w.buf_.take t).length = t := length_take_of_le (by omega)
      have hfull : (w.file_ ++ w.buf_.take t).length = p.block_size_ * blocks_per_file := by
        rw [length_append, htake]
        omega
      rw [writeLoopOn_succ hready (ne_nil_of_length_pos (by omega))]
      dsimp only
      rw [hto, write_take hwhole (by omega)]
      dsimp only
      rw [if_neg (not_not.2 rfl), if_pos hfull]
      set w₁ := openNextLog { w with file_ := w.file_ ++ w.buf_.take t, buf_ := w.buf_.drop t } with hw₁
      have hlog₁ : w₁.log = w.log ++ w.buf_.take t := by simp [hw₁, log, openNextLog]
      have hbuf₁ : w₁.buf_.length = left - t := by
        rw [hw₁, buf_openNextLog, length_drop, hbuf]
      have hready₁ : w₁.Ready p blocks_per_file := by
        refine ⟨Nat.dvd_zero _, Nat.lt_of_le_of_lt (Nat.zero_le _) hroom, ?_⟩
        rw [hbuf₁, ← hbuf]
        have htdvd : p.block_size_ ∣ t := by
          have hsub : t = p.block_size_ * blocks_per_file - w.file_.length := by omega
          rw [hsub]
          exact Nat.dvd_sub (Nat.dvd_mul_right _ _) hready.1
        exact Nat.dvd_sub hready.2.2 htdvd
      obtain ⟨hbyte, _⟩ := hall w₁ hready₁ rfl hbuf₁
      rw [hlog₁, length_append, htake, Nat.add_assoc, hw₁, buf_openNextLog, getElem?_drop] at hbyte
      exact ⟨hbyte, by omega⟩

/-- `WriteBuffer` keeps every buffer of a length if and only if nothing gets lost. -/
theorem keeps_iff (w : LogWriter) (calls : List WriteCall) :
    (∀ buf : Bytes, buf.length = w.buf_.length → Keeps p blocks_per_file { w with buf_ := buf } calls) ↔
      ¬ (w.Ready p blocks_per_file ∧
        LosesIn (p.block_size_ * blocks_per_file) (w.buf_.length + 1) w.file_.length w.buf_.length calls) := by
  constructor
  · rintro hkeeps ⟨hready, hloses⟩
    obtain ⟨i, j, hij, hj, hall⟩ := writeLoopOn_loses hloses
    -- A buffer that has a one where a zero gets written.
    set buf : Bytes := (replicate w.buf_.length 0).set i 1 with hbuf
    have hlen : buf.length = w.buf_.length := by rw [hbuf, length_set, length_replicate]
    have hready' : Ready p blocks_per_file { w with buf_ := buf } := ⟨hready.1, hready.2.1, hlen ▸ hready.2.2⟩
    obtain ⟨hbyte, _⟩ := hall { w with buf_ := buf } hready' rfl hlen
    obtain ⟨removed, hcut, _, hmore⟩ := hkeeps buf hlen
    rw [writeBufferOn, hlen] at hcut hmore
    generalize (writeLoopOn p blocks_per_file (w.buf_.length + 1) { w with buf_ := buf } calls).2.2 = w' at *
    have hilt : i < removed.length := by
      have hsum := congrArg length hcut
      rw [length_append, hlen] at hsum
      omega
    have hi : removed[i]? = some 1 := by
      rw [← getElem?_append_left hilt, ← hcut, hbuf, getElem?_set_self]
      rw [length_replicate]
      omega
    have hzero : buf[j]? = some 0 := by
      rw [hbuf, getElem?_set_ne (Nat.ne_of_lt hij), getElem?_replicate_of_lt hj]
    rw [← hmore, append_assoc, getElem?_append_right (Nat.le_add_right _ _), Nat.add_sub_cancel_left,
      getElem?_append_left hilt, hi, hzero] at hbyte
    cases hbyte
  · intro hnot buf hlen
    refine writeLoopOn_keeps (w := { w with buf_ := buf }) ?_
    intro hready hloses
    refine hnot ⟨⟨hready.1, hready.2.1, ?_⟩, ?_⟩
    · rw [← hlen]
      exact hready.2.2
    · rw [← hlen]
      exact hloses

end Turns

end LogWriter

end Whispercast.Logio
