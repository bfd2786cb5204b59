import Whispercast.Logio.LogWriter
import Whispercast.Logio.Writing

/-!
# The files of a log

A `LogWriter` puts what its recorder puts out into files of `blocks_per_file` blocks. Whatever it is called with, the
files hold the output of the recorder, cut into files, and no `CHECK` fails.
-/

namespace Whispercast.Logio

open Io Library List Option RecordWriter

/-! ## An output in files -/

/-- The files hold the output, each of them `size` bytes of it, but for the last one, which is not full. -/
structure Split (size : Nat) (files : List Bytes) (last out : Bytes) : Prop where
  flatten : files.flatten ++ last = out
  full : ∀ f ∈ files, f.length = size
  short : last.length < size

section Split

variable {size : Nat} {files : List Bytes} {last out more : Bytes}

theorem Split.length (h : Split size files last out) : out.length = files.length * size + last.length := by
  have hflatten : ∀ files : List Bytes, (∀ f ∈ files, f.length = size) → files.flatten.length = files.length * size := by
    intro files hfull
    induction files with
    | nil => simp
    | cons f files ih =>
      rw [flatten_cons, length_append, hfull f mem_cons_self,
        ih fun g hg => hfull g (mem_cons_of_mem _ hg), length_cons, Nat.succ_mul, Nat.add_comm]
  rw [← h.flatten, length_append, hflatten files h.full]

/-- The file with a number. -/
theorem Split.file (h : Split size files last out) {n : Nat} (hn : n * size ≤ out.length) :
    (files ++ [last])[n]? = some ((out.drop (n * size)).take size) := by
  have hlen := h.length
  have hshort := h.short
  have hle : n ≤ files.length := by
    by_contra hlt
    have hmul : (files.length + 1) * size ≤ n * size := Nat.mul_le_mul_right _ (by omega)
    rw [Nat.succ_mul] at hmul
    omega
  clear hn hlen
  obtain ⟨rfl, hfull, -⟩ := h
  induction files generalizing n with
  | nil =>
    obtain rfl : n = 0 := by simpa using hle
    simp [take_of_length_le hshort.le]
  | cons f files ih =>
    have hf := hfull f mem_cons_self
    rw [flatten_cons, append_assoc, cons_append]
    cases n with
    | zero => rw [Nat.zero_mul, drop_zero, take_left' hf, getElem?_cons_zero]
    | succ n =>
      rw [getElem?_cons_succ, ih (Nat.le_of_succ_le_succ hle) fun g hg => hfull g (mem_cons_of_mem _ hg),
        show (n + 1) * size = size + n * size by rw [Nat.succ_mul, Nat.add_comm], ← drop_drop,
        drop_left' hf]

end Split

/-! ## What a writer does -/

section Writer

variable {p : WriterParams} {inflate : Bytes → Bool × Bytes} {blocks_per_file : Nat} {w : LogWriter} {s : Recording}
  {frs blks : List (List Piece)} {ps : List Piece}

variable {out : Bytes}

/-- What is in the buffer is written to the file that is open and new ones. -/
theorem LogWriter.writeLoop_split (hfiles : 0 < blocks_per_file) (hsize : 0 < p.block_size_) {n : Nat}
    (hsplit : Split (p.block_size_ * blocks_per_file) w.files w.file_ out) (hpos : p.block_size_ ∣ w.file_.length)
    (hbuf : p.block_size_ ∣ w.buf_.length) (hn : w.buf_.length < n) :
    ∃ w', writeLoop p blocks_per_file n w = some (true, w') ∧ w'.buf_ = [] ∧ w'.recorder_ = w.recorder_ ∧
      Split (p.block_size_ * blocks_per_file) w'.files w'.file_ (out ++ w.buf_) ∧ p.block_size_ ∣ w'.file_.length := by
  induction n generalizing w out with
  | zero => omega
  | succ n ih =>
    rw [writeLoop]
    by_cases hnil : w.buf_ = []
    · rw [if_pos hnil]
      exact ⟨w, rfl, hnil, rfl, by rw [hnil, append_nil]; exact hsplit, hpos⟩
    · have hshort := hsplit.short
      have hbad : ¬ (w.file_.length % p.block_size_ ≠ 0 ∨ p.block_size_ * blocks_per_file < w.file_.length) := by
        rw [not_or, not_not]
        exact ⟨Nat.mod_eq_zero_of_dvd hpos, by omega⟩
      rw [if_neg hnil]
      dsimp only
      rw [if_neg hbad, if_neg (not_not.2 hshort), if_neg (not_not.2 (Nat.mod_eq_zero_of_dvd hbuf))]
      -- As much as fits into the file.
      set to_write := min (p.block_size_ * blocks_per_file - w.file_.length) w.buf_.length with hto
      have hlen : 0 < w.buf_.length := length_pos_iff.2 hnil
      have hdvd : p.block_size_ ∣ to_write := by
        rcases min_choice (p.block_size_ * blocks_per_file - w.file_.length) w.buf_.length with h | h <;> rw [hto, h]
        · exact Nat.dvd_sub (Nat.dvd_mul_right _ _) hpos
        · exact hbuf
      have htake : (w.buf_.take to_write).length = to_write := length_take_of_le (by omega)
      have hflatten : w.files.flatten ++ (w.file_ ++ w.buf_.take to_write) = out ++ w.buf_.take to_write := by
        rw [← append_assoc, hsplit.flatten]
      have hrest : out ++ w.buf_ = (out ++ w.buf_.take to_write) ++ w.buf_.drop to_write := by
        rw [append_assoc, take_append_drop]
      have hdrop : p.block_size_ ∣ (w.buf_.drop to_write).length := by
        rw [length_drop]
        exact Nat.dvd_sub hbuf hdvd
      rw [hrest]
      by_cases hfull : (w.file_ ++ w.buf_.take to_write).length = p.block_size_ * blocks_per_file
      · rw [if_pos hfull]
        refine ih (w := openNextLog { w with
          file_ := w.file_ ++ w.buf_.take to_write, buf_ := w.buf_.drop to_write }) ⟨?_, ?_, Nat.mul_pos hsize hfiles⟩
          (Nat.dvd_zero _) hdrop ?_
        · rw [← hflatten]
          simp [openNextLog]
        · intro f hf
          rcases mem_append.1 hf with hf | hf
          · exact hsplit.full f hf
          · exact mem_singleton.1 hf ▸ hfull
        · show (w.buf_.drop to_write).length < n
          rw [length_drop]
          omega
      · rw [if_neg hfull]
        have hsum : (w.file_ ++ w.buf_.take to_write).length = w.file_.length + to_write := by
          rw [length_append, htake]
        refine ih (w := { w with file_ := w.file_ ++ w.buf_.take to_write, buf_ := w.buf_.drop to_write })
          ⟨hflatten, hsplit.full, ?_⟩ ?_ hdrop ?_
        · show (w.file_ ++ w.buf_.take to_write).length < p.block_size_ * blocks_per_file
          omega
        · rw [hsum]
          exact Nat.dvd_add hpos hdvd
        · rw [length_drop]
          omega

/-- The writer has the recorder of a recording, and its output in files. -/
structure LogWriter.Refines (p : WriterParams) (blocks_per_file : Nat) (w : LogWriter) (s : Recording) : Prop where
  recorder : w.recorder_ = s.writer
  buf : w.buf_ = []
  split : Split (p.block_size_ * blocks_per_file) w.files w.file_ s.out
  aligned : p.block_size_ ∣ w.file_.length

variable {s' : Recording}

/-- The buffer is empty, or the recorder has put out whole blocks. -/
theorem LogWriter.Refines.writeBuffer (h : w.Refines p blocks_per_file s) (hfiles : 0 < blocks_per_file)
    (hsize : 0 < p.block_size_) (hout : s'.out = s.out ++ out)
    (hdvd : p.block_size_ ∣ out.length) :
    ∃ w', LogWriter.writeBuffer p blocks_per_file { w with buf_ := w.buf_ ++ out, recorder_ := s'.writer } =
      some (true, w') ∧ w'.Refines p blocks_per_file s' := by
  have hbuf : w.buf_ ++ out = out := by rw [h.buf, nil_append]
  obtain ⟨w', hwrite, hnil, hrecorder, hsplit, haligned⟩ :=
    LogWriter.writeLoop_split (w := { w with buf_ := w.buf_ ++ out, recorder_ := s'.writer }) hfiles hsize h.split
      h.aligned (hbuf.symm ▸ hdvd) (Nat.lt_succ_self _)
  refine ⟨w', hwrite, hrecorder, hnil, ?_, haligned⟩
  rw [hout]
  rw [hbuf] at hsplit
  exact hsplit

theorem appendLoop_zero {n : Nat} {first : Bool} {data : Bytes} {r r' : RecordWriter}
    (h : RecordWriter.appendLoop p n first data r = some (out, 0, r')) : out = [] := by
  cases n with
  | zero => cases h
  | succ n =>
    rw [appendLoop] at h
    by_cases hroom : p.block_size_ ≤ kBlockTrailerEnd + kRecordHeaderSize + r.content_.length
    · rw [if_pos hroom] at h
      cases h
    · rw [if_neg hroom] at h
      by_cases hfit : data.length ≤ p.block_size_ - kBlockTrailerEnd - kRecordHeaderSize - r.content_.length
      · rw [if_pos hfit] at h
        cases h
        rfl
      · -- A block has been finished.
        rw [if_neg hfit] at h
        obtain ⟨x, -, h⟩ := bind_eq_some_iff.1 h
        obtain ⟨y, -, h⟩ := map_eq_some_iff.1 h
        cases h

theorem streamLoop_zero {data : Bytes} {r r' : RecordWriter}
    (h : RecordWriter.streamLoop p data r = some (out, 0, r')) : out = [] := by
  rw [streamLoop] at h
  split_ifs at h
  · cases h
    rfl
  · exact appendLoop_zero h

/-- A record is written. -/
theorem LogWriter.Refines.append (h : w.Refines p blocks_per_file s) (hfiles : 0 < blocks_per_file)
    (hsize : 0 < p.block_size_) {data : Bytes} {loop : Option (Bytes × Nat × RecordWriter)}
    (hloop : ∀ {out r}, loop = some (out, 0, r) → out = []) (hs : s.append p data loop = some s')
    (hdvd : p.block_size_ ∣ s.out.length) (hdvd' : p.block_size_ ∣ s'.out.length) :
    ∃ w', (writeRecord p blocks_per_file w (loop.bind (RecordWriter.maybeDump p))).map Prod.snd = some w' ∧
      w'.Refines p blocks_per_file s' := by
  obtain ⟨⟨_, count, r⟩, rfl, hs⟩ := bind_eq_some_iff.1 hs
  obtain ⟨⟨finished, out, r'⟩, hdump, rfl⟩ := map_eq_some_iff.1 hs
  have hout : p.block_size_ ∣ out.length := by
    rw [length_append] at hdvd'
    exact (Nat.dvd_add_right hdvd).1 hdvd'
  rw [bind_some, hdump, writeRecord, bind_some]
  cases finished with
  | true =>
    obtain ⟨w', hwrite, hw'⟩ := h.writeBuffer hfiles hsize
      (show Recording.out ⟨r', s.out ++ out, s.extents ++
        [⟨data, s.out.length / p.block_size_, s.out.length / p.block_size_ + count⟩]⟩ = s.out ++ out from rfl) hout
    refine ⟨w', ?_, hw'⟩
    dsimp only at hwrite ⊢
    rw [if_pos rfl, hwrite]
    rfl
  | false =>
    -- No block has been finished, so that nothing is put out.
    rw [maybeDump] at hdump
    split_ifs at hdump with hlarge
    · obtain ⟨x, -, hdump⟩ := map_eq_some_iff.1 hdump
      cases hdump
    · rw [Option.some.injEq, Prod.mk.injEq, Prod.mk.injEq] at hdump
      obtain ⟨hcount, rfl, rfl⟩ := hdump
      obtain rfl : count = 0 := by simpa using hcount
      obtain rfl := hloop rfl
      refine ⟨_, rfl, ⟨rfl, ?_, ?_, h.aligned⟩⟩
      · rw [append_nil, h.buf]
      · show Split (p.block_size_ * blocks_per_file) w.files w.file_ (s.out ++ [])
        rw [append_nil]
        exact h.split

theorem Recording.Inv.aligned (h : s.Inv p (p.reader inflate) frs blks ps) : p.block_size_ ∣ s.out.length := by
  rw [h.out, length_chainBytes h.fits]
  exact Nat.dvd_mul_left _ _

/-- A call is made. -/
theorem LogWriter.Refines.step (hp : p.Admitted) (hplain : p.deflate = none) (hfiles : 0 < blocks_per_file)
    (h : w.Refines p blocks_per_file s) {call : WriterCall} (hs : s.step p call = some s')
    (hdvd : p.block_size_ ∣ s.out.length) (hdvd' : p.block_size_ ∣ s'.out.length) :
    ∃ w', w.step p blocks_per_file call = some w' ∧ w'.Refines p blocks_per_file s' := by
  have hsize : 0 < p.block_size_ := Nat.lt_of_le_of_lt (Nat.zero_le _) hp.room
  cases call with
  | buffer data =>
    rw [Recording.step, ← h.recorder] at hs
    refine h.append hfiles hsize ?_ hs hdvd hdvd'
    intro out r hloop
    rw [bufferLoop, hplain] at hloop
    exact appendLoop_zero hloop
  | stream data =>
    rw [Recording.step, ← h.recorder] at hs
    refine h.append hfiles hsize ?_ hs hdvd hdvd'
    intro out r hloop
    rw [recordLoop, hplain] at hloop
    exact streamLoop_zero hloop
  | finalize =>
    rw [Recording.step, ← h.recorder] at hs
    obtain ⟨⟨out, r⟩, hfin, rfl⟩ := map_eq_some_iff.1 hs
    have hout : p.block_size_ ∣ out.length := by
      rw [length_append] at hdvd'
      exact (Nat.dvd_add_right hdvd).1 hdvd'
    obtain ⟨w', hwrite, hw'⟩ := h.writeBuffer hfiles hsize
      (show ({ s with writer := r, out := s.out ++ out } : Recording).out = s.out ++ out from rfl) hout
    rw [LogWriter.step, flush, hfin, bind_some]
    dsimp only at hwrite ⊢
    by_cases hnil : w.buf_ ++ out = []
    · rw [if_pos hnil]
      obtain rfl : out = [] := by
        rw [h.buf, nil_append] at hnil
        exact hnil
      refine ⟨_, rfl, ⟨rfl, hnil, ?_, h.aligned⟩⟩
      show Split (p.block_size_ * blocks_per_file) w.files w.file_ (s.out ++ [])
      rw [append_nil]
      exact h.split
    · rw [if_neg hnil, hwrite]
      exact ⟨w', rfl, hw'⟩

/-- The calls of a run. -/
theorem LogWriter.Refines.run (hp : p.Admitted) (hplain : p.deflate = none) (hfiles : 0 < blocks_per_file)
    (h : w.Refines p blocks_per_file s) (hinv : s.Inv p (p.reader inflate) frs blks ps) {calls : List WriterCall}
    (hcalls : ∀ call ∈ calls, call.Proper) (hs : Library.run (Recording.step p) s calls = some s') :
    ∃ w', Library.run (LogWriter.step p blocks_per_file) w calls = some w' ∧ w'.Refines p blocks_per_file s' := by
  induction calls generalizing w s frs blks ps with
  | nil =>
    cases hs
    exact ⟨w, rfl, h⟩
  | cons call calls ih =>
    obtain ⟨s₁, hs₁, hs⟩ := run_cons_eq_some.1 hs
    obtain ⟨s₂, _, _, _, hstep, hinv₁, -, -⟩ := hinv.step hp hplain (hcalls call mem_cons_self)
    obtain rfl : s₁ = s₂ := Option.some.inj (hs₁.symm.trans hstep)
    obtain ⟨w₁, hw₁, h₁⟩ := h.step hp hplain hfiles hs₁ hinv.aligned hinv₁.aligned
    obtain ⟨w', hw', h'⟩ := ih h₁ hinv₁ (fun c hc => hcalls c (mem_cons_of_mem _ hc)) hs
    exact ⟨w', run_cons_eq_some.2 ⟨w₁, hw₁, hw'⟩, h'⟩

end Writer

/-! ## The log -/

/-- A log on the disk that holds this output in files of this size. -/
structure HoldsLog (size : Nat) (d : Disk) (out : Bytes) : Prop where
  pos : 0 < size
  first : d.first = some 0
  file : ∀ n, n * size ≤ out.length → d.file n = some ((out.drop (n * size)).take size)
  diskSize : LogReader.diskSize d = out.length

theorem Split.holdsLog {size : Nat} {files : List Bytes} {last out : Bytes} (h : Split size files last out) :
    HoldsLog size ((files ++ [last]).map some) out where
  pos := Nat.lt_of_le_of_lt (Nat.zero_le _) h.short
  first := by cases files <;> simp [Disk.first, List.findIdx?_cons]
  file n hn := by rw [Disk.file, List.getElem?_map, h.file hn]; rfl
  diskSize := by
    rw [LogReader.diskSize, List.map_map, ← h.flatten]
    simp [Function.comp_def]

end Whispercast.Logio
