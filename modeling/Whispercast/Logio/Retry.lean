import Whispercast.Logio.WriteCalls

/-!
# Failed writes of a log

Model of the calls of a `LogWriter` (`common/io/logio/logio.cc`) in which a `write` call fails. A `WriteBuffer` that fails
with its first `write` call changes nothing, and the next one catches up. One that fails later leaves a part of the buffer
in the file.
-/

namespace Whispercast.Logio

open Io List Option RecordWriter

/-- The `write` calls of a `WriteBuffer` in which the one with this number fails. -/
def callsOf : Option Nat → List WriteCall
  | none => []
  | some i => List.replicate i (.wrote File.sizeofTmp) ++ [.error]

namespace LogWriter

/-- What a call does before `WriteBuffer`, and whether it calls it. -/
def record (p : WriterParams) (w : LogWriter) : WriterCall → Option (Bool × LogWriter)
  | .buffer data =>
    (RecordWriter.appendBuffer p data w.recorder_).map fun (finished, out, recorder) =>
      (finished, { w with buf_ := w.buf_ ++ out, recorder_ := recorder })
  | .stream data =>
    (RecordWriter.appendStream p data w.recorder_).map fun (finished, out, recorder) =>
      (finished, { w with buf_ := w.buf_ ++ out, recorder_ := recorder })
  | .finalize =>
    (RecordWriter.finalizeContent p w.recorder_).map fun (out, recorder) =>
      (decide (w.buf_ ++ out ≠ []), { w with buf_ := w.buf_ ++ out, recorder_ := recorder })

/-- A call of a `LogWriter`, with the number of the `write` call that fails. -/
def stepOn (p : WriterParams) (blocks_per_file : Nat) (w : LogWriter) (e : WriterCall × Option Nat) : Option LogWriter :=
  (record p w e.1).bind fun (writes, w) =>
    if writes then
      let r := writeBufferOn p blocks_per_file w (callsOf e.2)
      r.1.map fun _ => r.2.2
    else some w

section

variable {p : WriterParams} {blocks_per_file n : Nat} {w w' : LogWriter} {call : WriterCall}

/-- A call where nothing fails. -/
theorem step_eq_record (p : WriterParams) (blocks_per_file : Nat) (w : LogWriter) (call : WriterCall) :
    step p blocks_per_file w call = (record p w call).bind fun (writes, w) =>
      if writes then (writeBuffer p blocks_per_file w).map Prod.snd else some w := by
  cases call with
  | buffer data =>
    rw [step, writeRecord, record]
    cases appendBuffer p data w.recorder_ with
    | none => rfl
    | some r =>
      simp only [bind_some, map_some]
      split_ifs <;> rfl
  | stream data =>
    rw [step, writeRecord, record]
    cases appendStream p data w.recorder_ with
    | none => rfl
    | some r =>
      simp only [bind_some, map_some]
      split_ifs <;> rfl
  | finalize =>
    rw [step, flush, record]
    cases finalizeContent p w.recorder_ with
    | none => rfl
    | some r =>
      simp only [bind_some, map_some]
      by_cases hnil : w.buf_ ++ r.1 = []
      · simp [hnil]
      · simp [hnil]

/-- `WriteBuffer` where no `write` call fails. -/
theorem writeLoopOn_nil {ok : Bool} (h : writeLoop p blocks_per_file n w = some (ok, w')) :
    writeLoopOn p blocks_per_file n w [] = (some ok, [], w') := by
  induction n generalizing w with
  | zero => cases h
  | succ n ih =>
    rw [writeLoop] at h
    rw [writeLoopOn]
    by_cases hnil : w.buf_ = []
    · rw [if_pos hnil] at h ⊢
      cases h
      rfl
    · rw [if_neg hnil] at h ⊢
      dsimp only at h ⊢
      by_cases hpos : w.file_.length % p.block_size_ ≠ 0 ∨ p.block_size_ * blocks_per_file < w.file_.length
      · rw [if_pos hpos] at h ⊢
        cases h
        rfl
      · rw [if_neg hpos] at h ⊢
        by_cases hroom : ¬ w.file_.length < p.block_size_ * blocks_per_file
        · rw [if_pos hroom] at h
          cases h
        · rw [if_neg hroom] at h ⊢
          by_cases hblocks : w.buf_.length % p.block_size_ ≠ 0
          · rw [if_pos hblocks] at h
            cases h
          · rw [if_neg hblocks] at h ⊢
            rw [write_take (File.whole_nil _) (Nat.min_le_right _ _)]
            dsimp only
            rw [if_neg (not_not.2 rfl), drop_nil]
            exact ih h

theorem stepOn_none (h : step p blocks_per_file w call = some w') : stepOn p blocks_per_file w (call, none) = some w' := by
  rw [step_eq_record] at h
  obtain ⟨⟨writes, _⟩, hrecord, h⟩ := bind_eq_some_iff.1 h
  rw [stepOn, hrecord, bind_some]
  dsimp only at h ⊢
  cases writes with
  | false => exact h
  | true =>
    obtain ⟨⟨_, _⟩, hwrite, rfl⟩ := map_eq_some_iff.1 h
    rw [writeBufferOn, callsOf, writeLoopOn_nil hwrite]
    rfl

/-- The files that are complete have no part in what `WriteBuffer` does. -/
theorem writeLoop_frame (files : List Bytes) : writeLoop p blocks_per_file n { w with files := files ++ w.files } =
      (writeLoop p blocks_per_file n w).map fun r => (r.1, { r.2 with files := files ++ r.2.files }) := by
  induction n generalizing w with
  | zero => rfl
  | succ n ih =>
    rw [writeLoop, writeLoop]
    dsimp only
    have hopen : ∀ file buf : Bytes, openNextLog { w with files := files ++ w.files, file_ := file, buf_ := buf } =
        { openNextLog { w with file_ := file, buf_ := buf } with
          files := files ++ (openNextLog { w with file_ := file, buf_ := buf }).files } := by
      intro file buf
      simp [openNextLog]
    split_ifs with hnil hpos hroom hblocks hfull
    · rfl
    · rfl
    · rfl
    · rw [hopen]
      exact ih
    · exact ih (w := { w with
        file_ := w.file_ ++ w.buf_.take (min (p.block_size_ * blocks_per_file - w.file_.length) w.buf_.length)
        buf_ := w.buf_.drop (min (p.block_size_ * blocks_per_file - w.file_.length) w.buf_.length) })
    · rfl

/-- When the first call fails, nothing is changed. -/
theorem writeBufferOn_error (h : w.Ready p blocks_per_file) (hbuf : w.buf_ ≠ []) (calls : List WriteCall) :
    writeBufferOn p blocks_per_file w (.error :: calls) = (some false, calls, w) := by
  have hlen : 0 < w.buf_.length := length_pos_iff.2 hbuf
  have hroom := h.2.1
  rw [writeBufferOn, writeLoopOn_succ h hbuf]
  dsimp only
  rw [File.write, File.writeLoop_succ (by omega) hbuf]
  simp [WriteCall.taken]

end

end LogWriter

/-! ## What a recorder puts out -/

section Recorder

variable {p : WriterParams} {n count : Nat} {first finished : Bool} {data out : Bytes} {r r' : RecordWriter}

theorem dvd_finalizeContent (h : RecordWriter.finalizeContent p r = some (out, r')) : p.block_size_ ∣ out.length := by
  rw [finalizeContent] at h
  split_ifs at h with hnil hsize
  · cases h
    exact Nat.dvd_zero _
  · cases h
    have hlen : (blockBody p.block_size_ r.content_ r.prev_block_crc_ ++
        NumStreamer.writeInt32 (p.computeCRC (blockBody p.block_size_ r.content_ r.prev_block_crc_))
          .bigEndian).length = p.block_size_ := by
      simp only [blockBody, length_append, length_replicate]
      simp only [NumStreamer.writeInt32, NumStreamer.writeNumber_length, kBlockTrailerEnd] at hsize ⊢
      omega
    rw [hlen]

theorem dvd_appendLoop (h : RecordWriter.appendLoop p n first data r = some (out, count, r')) :
    p.block_size_ ∣ out.length := by
  induction n generalizing first data r out count with
  | zero => cases h
  | succ n ih =>
    rw [appendLoop] at h
    by_cases hroom : p.block_size_ ≤ kBlockTrailerEnd + kRecordHeaderSize + r.content_.length
    · rw [if_pos hroom] at h
      cases h
    · rw [if_neg hroom] at h
      by_cases hfit : data.length ≤ p.block_size_ - kBlockTrailerEnd - kRecordHeaderSize - r.content_.length
      · rw [if_pos hfit] at h
        cases h
        exact Nat.dvd_zero _
      · rw [if_neg hfit] at h
        obtain ⟨⟨_, _⟩, hblock, h⟩ := bind_eq_some_iff.1 h
        obtain ⟨⟨_, _, _⟩, hrest, h⟩ := map_eq_some_iff.1 h
        cases h
        rw [length_append]
        exact Nat.dvd_add (dvd_finalizeContent hblock) (ih hrest)

theorem dvd_streamLoop (h : RecordWriter.streamLoop p data r = some (out, count, r')) : p.block_size_ ∣ out.length := by
  rw [streamLoop] at h
  split_ifs at h
  · cases h
    exact Nat.dvd_zero _
  · exact dvd_appendLoop h

theorem dvd_maybeDump (hout : p.block_size_ ∣ data.length)
    (h : RecordWriter.maybeDump p (data, count, r) = some (finished, out, r')) : p.block_size_ ∣ out.length := by
  rw [maybeDump] at h
  split_ifs at h
  · obtain ⟨⟨_, _⟩, hblock, h⟩ := map_eq_some_iff.1 h
    cases h
    rw [length_append]
    exact Nat.dvd_add hout (dvd_finalizeContent hblock)
  · cases h
    exact hout

theorem dvd_appendBuffer (h : RecordWriter.appendBuffer p data r = some (finished, out, r')) :
    p.block_size_ ∣ out.length := by
  obtain ⟨⟨_, _, _⟩, hloop, h⟩ := bind_eq_some_iff.1 h
  refine dvd_maybeDump ?_ h
  rw [bufferLoop] at hloop
  cases hdeflate : p.deflate with
  | none =>
    rw [hdeflate] at hloop
    exact dvd_appendLoop hloop
  | some deflate =>
    rw [hdeflate] at hloop
    exact dvd_streamLoop hloop

theorem dvd_appendStream (h : RecordWriter.appendStream p data r = some (finished, out, r')) :
    p.block_size_ ∣ out.length := by
  obtain ⟨⟨_, _, _⟩, hloop, h⟩ := bind_eq_some_iff.1 h
  refine dvd_maybeDump ?_ h
  rw [recordLoop] at hloop
  cases hdeflate : p.deflate with
  | none =>
    rw [hdeflate] at hloop
    exact dvd_streamLoop hloop
  | some deflate =>
    rw [hdeflate] at hloop
    exact dvd_streamLoop hloop

end Recorder

/-! ## Catching up -/

theorem Split.unique {size : Nat} {files files' : List Bytes} {last last' out : Bytes} (h : Split size files last out)
    (h' : Split size files' last' out) : files = files' ∧ last = last' := by
  obtain ⟨hflatten, hfull, _⟩ := h
  obtain ⟨hflatten', hfull', _⟩ := h'
  induction files generalizing files' out with
  | nil =>
    cases files' with
    | nil => exact ⟨rfl, hflatten.trans hflatten'.symm⟩
    | cons g files' =>
      have hlen := congrArg List.length (hflatten.trans hflatten'.symm)
      have hg := hfull' g mem_cons_self
      simp only [List.flatten_nil, List.nil_append, List.flatten_cons, length_append] at hlen
      omega
  | cons f files ih =>
    have hf := hfull f mem_cons_self
    cases files' with
    | nil =>
      have hlen := congrArg List.length (hflatten.trans hflatten'.symm)
      simp only [List.flatten_nil, List.nil_append, List.flatten_cons, length_append] at hlen
      omega
    | cons g files' =>
      have hg := hfull' g mem_cons_self
      have heq := hflatten.trans hflatten'.symm
      rw [List.flatten_cons, List.flatten_cons, append_assoc, append_assoc] at heq
      obtain ⟨rfl, hrest⟩ := List.append_inj heq (hf.trans hg.symm)
      obtain ⟨rfl, hlast⟩ := ih rfl (fun f hf => hfull f (mem_cons_of_mem _ hf)) hrest.symm
        fun g hg => hfull' g (mem_cons_of_mem _ hg)
      exact ⟨rfl, hlast⟩

namespace LogWriter

/-- What the recorder puts out in a call. -/
def output (p : WriterParams) (r : RecordWriter) : WriterCall → Option (Bytes × RecordWriter)
  | .buffer data => (RecordWriter.appendBuffer p data r).map Prod.snd
  | .stream data => (RecordWriter.appendStream p data r).map Prod.snd
  | .finalize => RecordWriter.finalizeContent p r

/-- Behind the files of `w₀`, the files and the buffer hold this. -/
structure Pours (p : WriterParams) (blocks_per_file : Nat) (w w₀ : LogWriter) (out : Bytes) : Prop where
  ready : w.Ready p blocks_per_file
  cut : ∃ files written, w.files = w₀.files ++ files ∧ Split (p.block_size_ * blocks_per_file) files w.file_ written ∧
    written ++ w.buf_ = out

section

variable {p : WriterParams} {blocks_per_file : Nat} {w₀ w w' v : LogWriter} {call : WriterCall} {out more : Bytes}
  {r : RecordWriter}

theorem dvd_output (h : output p r call = some (out, w.recorder_)) : p.block_size_ ∣ out.length := by
  cases call with
  | buffer data =>
    obtain ⟨⟨finished, out, r'⟩, happend, h⟩ := map_eq_some_iff.1 h
    cases h
    exact dvd_appendBuffer happend
  | stream data =>
    obtain ⟨⟨finished, out, r'⟩, happend, h⟩ := map_eq_some_iff.1 h
    cases h
    exact dvd_appendStream happend
  | finalize => exact dvd_finalizeContent h

/-- What is put out goes to the end of the buffer. -/
theorem record_of_output (h : output p w.recorder_ call = some (out, r)) :
    ∃ writes, record p w call = some (writes, { w with buf_ := w.buf_ ++ out, recorder_ := r }) := by
  cases call with
  | buffer data | stream data =>
    obtain ⟨⟨finished, out', r'⟩, happend, h⟩ := map_eq_some_iff.1 h
    cases h
    exact ⟨finished, by rw [record, happend]; rfl⟩
  | finalize =>
    rw [output] at h
    exact ⟨_, by rw [record, h]; rfl⟩

theorem output_isSome_of_record (h : (record p w call).isSome) : (output p w.recorder_ call).isSome := by
  cases call <;> simpa [record, output] using h

section

variable (h : w.Pours p blocks_per_file w₀ out)

include h

theorem Pours.put (hmore : p.block_size_ ∣ more.length) :
    Pours p blocks_per_file { w with buf_ := w.buf_ ++ more, recorder_ := r } w₀ (out ++ more) := by
  obtain ⟨⟨hpos, hroom, hblocks⟩, files, written, hfiles, hsplit, rfl⟩ := h
  refine ⟨⟨hpos, hroom, ?_⟩, files, written, hfiles, hsplit, (append_assoc _ _ _).symm⟩
  rw [length_append]
  exact Nat.dvd_add hblocks hmore

/-- `WriteBuffer` empties the buffer. -/
theorem Pours.writeBuffer :
    ∃ w', LogWriter.writeBuffer p blocks_per_file w = some (true, w') ∧ w'.buf_ = [] ∧ w'.recorder_ = w.recorder_ ∧
      w'.Pours p blocks_per_file w₀ out := by
  obtain ⟨⟨hpos, hroom, hblocks⟩, files, written, hfiles, hsplit, rfl⟩ := h
  have hcap : 0 < p.block_size_ * blocks_per_file := Nat.lt_of_le_of_lt (Nat.zero_le _) hroom
  obtain ⟨w', hwrite, hbuf, hrecorder, hsplit', hpos'⟩ := writeLoop_split (w := { w with files := files })
    (Nat.pos_of_mul_pos_left hcap) (Nat.pos_of_mul_pos_right hcap) hsplit hpos hblocks (Nat.lt_succ_self _)
  have hframe : writeLoop p blocks_per_file (w.buf_.length + 1) { w with files := w₀.files ++ files } =
      (writeLoop p blocks_per_file (w.buf_.length + 1) { w with files := files }).map
        fun r => (r.1, { r.2 with files := w₀.files ++ r.2.files }) :=
    writeLoop_frame (w := { w with files := files }) w₀.files
  rw [hwrite, map_some] at hframe
  refine ⟨{ w' with files := w₀.files ++ w'.files }, ?_, hbuf, hrecorder, ⟨hpos', hsplit'.short, ?_⟩,
    w'.files, written ++ w.buf_, rfl, hsplit', ?_⟩
  · rw [← hframe, LogWriter.writeBuffer, ← hfiles]
  · rw [hbuf]
    exact Nat.dvd_zero _
  · rw [hbuf, append_nil]

/-- Behind an emptied buffer there is one way to cut what has been put out. -/
theorem Pours.unique (h' : v.Pours p blocks_per_file w₀ out) (hbuf : w.buf_ = [])
    (hbuf' : v.buf_ = []) (hrecorder : w.recorder_ = v.recorder_) : w = v := by
  obtain ⟨-, _, _, hfiles, hsplit, hout⟩ := h
  obtain ⟨-, _, _, hfiles', hsplit', hout'⟩ := h'
  rw [hbuf, append_nil] at hout
  rw [hbuf', append_nil] at hout'
  subst hout hout'
  obtain ⟨rfl, hlast⟩ := hsplit.unique hsplit'
  obtain ⟨_, _, _, _⟩ := w
  obtain ⟨_, _, _, _⟩ := v
  dsimp only at *
  rw [hfiles, hfiles', hlast, hbuf, hbuf', hrecorder]

/-- A call in which nothing fails. -/
theorem Pours.step (hput : output p w.recorder_ call = some (more, r)) :
    ∃ w', LogWriter.step p blocks_per_file w call = some w' ∧ w'.recorder_ = r ∧
      w'.Pours p blocks_per_file w₀ (out ++ more) := by
  obtain ⟨writes, hrecord⟩ := record_of_output hput
  have hpoured := h.put (r := r) (dvd_output (w := { w with recorder_ := r }) hput)
  rw [step_eq_record, hrecord, bind_some]
  dsimp only
  cases writes with
  | false => exact ⟨_, rfl, rfl, hpoured⟩
  | true =>
    obtain ⟨w', hwrite, -, hrecorder, hw'⟩ := hpoured.writeBuffer
    refine ⟨w', ?_, hrecorder, hw'⟩
    rw [if_pos rfl, hwrite]
    rfl

/-- A call in which no `write` call fails, or the first one of `WriteBuffer` does. -/
theorem Pours.stepOn {failing : Option Nat}
    (hfailing : failing = none ∨ failing = some 0) (hput : output p w.recorder_ call = some (more, r)) :
    ∃ w', LogWriter.stepOn p blocks_per_file w (call, failing) = some w' ∧ w'.recorder_ = r ∧
      w'.Pours p blocks_per_file w₀ (out ++ more) := by
  rcases hfailing with rfl | rfl
  · obtain ⟨w', hstep, hrest⟩ := h.step hput
    exact ⟨w', stepOn_none hstep, hrest⟩
  · obtain ⟨writes, hrecord⟩ := record_of_output hput
    have hpoured := h.put (r := r) (dvd_output (w := { w with recorder_ := r }) hput)
    refine ⟨{ w with buf_ := w.buf_ ++ more, recorder_ := r }, ?_, rfl, hpoured⟩
    rw [LogWriter.stepOn, hrecord, bind_some]
    dsimp only
    cases writes with
    | false => rfl
    | true =>
      rw [if_pos rfl]
      by_cases hnil : w.buf_ ++ more = []
      · rw [writeBufferOn, writeLoopOn, if_pos hnil]
        rfl
      · have hcalls : callsOf (some 0) = [.error] := rfl
        rw [hcalls, writeBufferOn_error hpoured.ready hnil]
        rfl

/-- A run with failures goes along the run without. -/
theorem Pours.run (h' : v.Pours p blocks_per_file w₀ out)
    (hrecorder : w.recorder_ = v.recorder_) {events : List (WriterCall × Option Nat)}
    (hevents : ∀ e ∈ events, e.2 = none ∨ e.2 = some 0) {v' : LogWriter}
    (hv : Library.run (LogWriter.step p blocks_per_file) v (events.map Prod.fst) = some v') :
    ∃ w' out', Library.run (LogWriter.stepOn p blocks_per_file) w events = some w' ∧ w'.Pours p blocks_per_file w₀ out' ∧
      v'.Pours p blocks_per_file w₀ out' ∧ w'.recorder_ = v'.recorder_ := by
  induction events generalizing w v out with
  | nil =>
    cases hv
    exact ⟨w, out, rfl, h, h', hrecorder⟩
  | cons e events ih =>
    obtain ⟨v₁, hstep, hv⟩ := Library.run_cons_eq_some.1 hv
    have hsome : (output p v.recorder_ e.1).isSome := by
      refine output_isSome_of_record ?_
      rw [step_eq_record] at hstep
      obtain ⟨x, hx, -⟩ := bind_eq_some_iff.1 hstep
      rw [hx]
      rfl
    obtain ⟨⟨_, r⟩, hput⟩ := isSome_iff_exists.1 hsome
    obtain ⟨w₁, hw₁, hrecorder₁, hpoured₁⟩ := h.stepOn (hevents e mem_cons_self) (hrecorder ▸ hput)
    obtain ⟨v₂, hv₂, hrecorder₂, hpoured₂⟩ := h'.step hput
    obtain rfl : v₁ = v₂ := Option.some.inj (hstep.symm.trans hv₂)
    obtain ⟨w', out', hw', hrest⟩ := ih hpoured₁ hpoured₂ (hrecorder₁.trans hrecorder₂.symm)
      (fun f hf => hevents f (mem_cons_of_mem _ hf)) hv
    exact ⟨w', out', Library.run_cons_eq_some.2 ⟨w₁, hw₁, hw'⟩, hrest⟩

end

/-- The writer is where a `WriteBuffer` in which nothing fails brings the files to where they would be for `v`, and in
which one that fails changes neither the buffer nor that the file has whole blocks. -/
structure CatchesUp (p : WriterParams) (blocks_per_file : Nat) (w v : LogWriter) : Prop where
  aligned : p.block_size_ ∣ w.file_.length
  retry : ∃ v', LogWriter.writeBuffer p blocks_per_file v = some (true, v') ∧
    writeBufferOn p blocks_per_file w [] = (some true, [], v')
  fails : ∀ call failing writes w₁ calls w₂, failing = none ∨ failing = some 0 → record p w call = some (writes, w₁) →
    writeBufferOn p blocks_per_file w₁ (callsOf failing) = (some false, calls, w₂) →
      p.block_size_ ∣ w₂.file_.length ∧ w₂.buf_ = w₁.buf_

theorem Pours.catchesUp (h : w.Pours p blocks_per_file w₀ out) (h' : v.Pours p blocks_per_file w₀ out)
    (hrecorder : w.recorder_ = v.recorder_) : w.CatchesUp p blocks_per_file v := by
  refine ⟨h.ready.1, ?_, ?_⟩
  · obtain ⟨w₁, hwrite, hbuf, hrecorder₁, hw₁⟩ := h.writeBuffer
    obtain ⟨v₁, hwrite', hbuf', hrecorder', hv₁⟩ := h'.writeBuffer
    obtain rfl : w₁ = v₁ := hw₁.unique hv₁ hbuf hbuf' (hrecorder₁.trans (hrecorder.trans hrecorder'.symm))
    exact ⟨w₁, hwrite', writeLoopOn_nil hwrite⟩
  · intro call failing writes w₁ calls w₂ hfailing hrecord hfails
    have hsome : (output p w.recorder_ call).isSome := output_isSome_of_record (p := p) (w := w) (by rw [hrecord]; rfl)
    obtain ⟨⟨more, r⟩, hput⟩ := isSome_iff_exists.1 hsome
    obtain ⟨_, hrecord'⟩ := record_of_output hput
    obtain ⟨-, rfl⟩ := Prod.mk.inj (Option.some.inj (hrecord.symm.trans hrecord'))
    have hpoured := h.put (r := r) (dvd_output (w := { w with recorder_ := r }) hput)
    rcases hfailing with rfl | rfl
    · -- Nothing fails, so `WriteBuffer` does not either.
      obtain ⟨_, hwrite, -⟩ := hpoured.writeBuffer
      rw [callsOf, writeBufferOn, writeLoopOn_nil hwrite] at hfails
      cases hfails
    · by_cases hnil : w.buf_ ++ more = []
      · rw [writeBufferOn, writeLoopOn, if_pos hnil] at hfails
        cases hfails
      · have hcalls : callsOf (some 0) = [.error] := rfl
        rw [hcalls, writeBufferOn_error hpoured.ready hnil] at hfails
        cases hfails
        exact ⟨hpoured.ready.1, rfl⟩

/-- In every run in which each `WriteBuffer` fails with its first `write` call or not at all, the writer catches up with
the run in which nothing fails. -/
theorem run_catchesUp (hready : w₀.Ready p blocks_per_file) {events : List (WriterCall × Option Nat)}
    (hevents : ∀ e ∈ events, e.2 = none ∨ e.2 = some 0)
    (hv : Library.run (LogWriter.step p blocks_per_file) w₀ (events.map Prod.fst) = some v) :
    ∃ w, Library.run (stepOn p blocks_per_file) w₀ events = some w ∧ w.CatchesUp p blocks_per_file v := by
  have hstart : w₀.Pours p blocks_per_file w₀ (w₀.file_ ++ w₀.buf_) := by
    refine ⟨hready, [], w₀.file_, (append_nil _).symm, ⟨rfl, ?_, hready.2.1⟩, rfl⟩
    intro f hf
    cases hf
  obtain ⟨w, _, hw, hpours, hpours', hrecorder⟩ := hstart.run hstart rfl hevents hv
  exact ⟨w, hw, hpours.catchesUp hpours' hrecorder⟩

end

/-- A record for which the first `write` call fails. -/
theorem run_catchesUp_first :
    ∃ w, Library.run (stepOn ⟨20, 2, fun _ => 0, none⟩ 4) {} [(.buffer [7], some 0)] = some w ∧
      w.CatchesUp ⟨20, 2, fun _ => 0, none⟩ 4
        { file_ := [4, 0, 0, 1, 7, 0, 0, 0, 0, 0, 0, 5, 0, 0, 0, 0, 0, 0, 0, 0] } :=
  @run_catchesUp _ _ {} _ ⟨by decide, by decide, by decide⟩ _ (by decide) (by decide)

/-- A record of seven hundred bytes takes two blocks, and the second `write` call for them fails. The file is left with
512 bytes then, and `WriteBuffer` fails where no call does. -/
theorem run_blocked :
    (Library.run (stepOn ⟨600, 100, fun _ => 0, none⟩ 4) {} [(.buffer (List.replicate 700 0), some 1)]).map
        (fun w => (w.file_.length, w.buf_.length, (writeBufferOn ⟨600, 100, fun _ => 0, none⟩ 4 w []).1)) =
      some (512, 1200, some false) := by
  decide +kernel

end LogWriter

end Whispercast.Logio
