import Whispercast.Logio.Restarts

/-!
# Temporary files of a log

With temporary files the sessions behind the first one never change a file that is in its place. The log is read from
the files in their places, and a reader stops where the first session has ended.
-/

namespace Whispercast.Logio

open Io Library LogReader DirWriter List Disk Option

/-! ## Directories that grow -/

/-- The files of a directory are there in another one. -/
def Disk.Kept (d d' : Disk) : Prop := ∀ n file, d.file n = some file → d'.file n = some file

namespace Disk

variable {d d' d'' : Disk} {n : Nat} {file : Option Bytes}

theorem Kept.refl (d : Disk) : d.Kept d := fun _ _ h => h

theorem Kept.trans (h : d.Kept d') (h' : d'.Kept d'') : d.Kept d'' := fun n file hfile => h' n file (h n file hfile)

/-- A file is put where there is none. -/
theorem Kept.put (hn : d.file n = none) (file : Option Bytes) : d.Kept (d.put n file) := by
  intro m content hm
  rw [file_put]
  have hne : m ≠ n := by
    rintro rfl
    rw [hn] at hm
    cases hm
  rw [if_neg hne]
  exact hm

theorem Kept.tail {file file' : Option Bytes} (h : Disk.Kept (file :: d) (file' :: d')) : d.Kept d' :=
  fun n content hn => h (n + 1) content hn

theorem diskSize_cons (file : Option Bytes) (d : Disk) : diskSize (file :: d) = (file.getD []).length + diskSize d := rfl

theorem diskSize_le (h : d.Kept d') : diskSize d ≤ diskSize d' := by
  induction d generalizing d' with
  | nil => exact Nat.zero_le _
  | cons file d ih =>
    cases d' with
    | nil =>
      -- There is no file at all.
      have hrest := @ih [] fun n content hn => h (n + 1) content hn
      have hfile : file = none := by
        cases file with
        | none => rfl
        | some content => cases h 0 content rfl
      rw [diskSize_cons, hfile]
      simpa using hrest
    | cons file' d' =>
      have hrest := ih h.tail
      have hfile : (file.getD []).length ≤ (file'.getD []).length := by
        cases file with
        | none => exact Nat.zero_le _
        | some content =>
          obtain rfl : file' = some content := h 0 content rfl
          exact le_rfl
      rw [diskSize_cons, diskSize_cons]
      omega

theorem first_eq_zero_iff : d.first = some 0 ↔ (d.file 0).isSome := by
  cases d with
  | nil => simp [first, Disk.file]
  | cons file d => cases file <;> simp [first, Disk.file, findIdx?_cons]

theorem Kept.first (h : d.Kept d') (hfirst : d.first = some 0) : d'.first = some 0 := by
  rw [first_eq_zero_iff] at hfirst ⊢
  obtain ⟨content, hcontent⟩ := isSome_iff_exists.1 hfirst
  rw [h 0 content hcontent]
  rfl

end Disk

/-- More files do not change the log. -/
theorem StoredLog.kept {p : LogParams} {d d' : Disk} {ss : List Stored} (h : StoredLog p d ss) (hkept : d.Kept d') :
    StoredLog p d' ss :=
  ⟨h.ok, h.pos, hkept.first h.first, fun n hn => hkept n _ (h.file n hn), h.diskSize.trans (diskSize_le hkept)⟩

/-! ## What a writer does to temporary files -/

/-- The files in their places are kept, and no temporary file is longer than a full one. -/
structure LogDir.Grows (p : DirParams) (old : Disk) (dir : LogDir) : Prop where
  kept : old.Kept dir.files
  short : ∀ n file, dir.temp.file n = some file → file.length ≤ p.fileSize

namespace DirWriter

/-- The open file has whole blocks and is not full, and the buffer has whole blocks. -/
structure Opened (p : DirParams) (old : Disk) (w : DirWriter) : Prop where
  grows : w.dir.Grows p old
  pos : p.block_size_ ∣ (w.file_ p).length
  room : (w.file_ p).length < p.fileSize
  blocks : p.block_size_ ∣ w.buf_.length

section

variable {p : DirParams}

section

variable (htemp : p.temporary_incomplete_file_ = true) (w : DirWriter)

include htemp

theorem file_of_temp : w.file_ p = (w.dir.temp.file w.file_num_).getD [] := by
  rw [file_, open_, htemp]
  rfl

theorem putFile_of_temp (content : Bytes) :
    w.putFile p content = { w with dir := { w.dir with temp := w.dir.temp.put w.file_num_ (some content) } } := by
  rw [putFile, htemp]
  rfl

theorem closeLog_of_temp : w.closeLog p = { w with dir := w.dir.rename w.file_num_ } := by
  rw [closeLog, htemp]
  rfl

theorem file_putFile (content : Bytes) : (w.putFile p content).file_ p = content := by
  rw [putFile_of_temp htemp, file_of_temp htemp]
  rw [file_put, if_pos rfl]
  rfl

end

end

end DirWriter

section

variable {p : DirParams} {old : Disk} {dir : LogDir} {w : DirWriter} {content : Bytes} {n : Nat} {call : WriterCall}

/-- A temporary file gets a content. -/
theorem LogDir.Grows.put (h : dir.Grows p old) (hcontent : content.length ≤ p.fileSize) (n : Nat) :
    LogDir.Grows p old { dir with temp := dir.temp.put n (some content) } := by
  refine ⟨h.kept, ?_⟩
  intro m file hfile
  rw [file_put] at hfile
  split_ifs at hfile with hm
  · cases hfile
    exact hcontent
  · exact h.short m file hfile

/-- A temporary file that is moved takes the place of no other. -/
theorem LogDir.Grows.rename (h : dir.Grows p old) (n : Nat) : (dir.rename n).Grows p old := by
  rw [LogDir.rename]
  cases hfile : dir.temp.file n with
  | none => exact h
  | some file =>
    dsimp only
    by_cases hthere : (dir.files.file n).isSome
    · rw [if_pos hthere]
      exact h
    · rw [if_neg hthere]
      refine ⟨h.kept.trans (Kept.put (not_isSome_iff_eq_none.1 hthere) _), ?_⟩
      intro m content hm
      rw [file_put] at hm
      split_ifs at hm with heq
      exact h.short m content hm

theorem Disk.length_put (d : Disk) (n : Nat) (file : Option Bytes) : (d.put n file).length = max d.length (n + 1) := by
  rw [put, length_set, length_append, length_replicate]
  omega

theorem LogDir.length_rename (dir : LogDir) (n : Nat) : (dir.rename n).temp.length = dir.temp.length := by
  rw [LogDir.rename]
  cases hfile : dir.temp.file n with
  | none => rfl
  | some file =>
    split_ifs with hthere
    · rfl
    · -- There is a file with the number.
      have hlt : n < dir.temp.length := by
        by_contra hge
        rw [file_eq_none (Nat.le_of_not_lt hge)] at hfile
        cases hfile
      rw [length_put]
      omega

namespace DirWriter

section

variable (htemp : p.temporary_incomplete_file_ = true) (hsize : 0 < p.fileSize)

include htemp hsize

/-- A temporary file is opened that is not full. There are only so many full ones. -/
theorem openLog_grows (h : w.dir.Grows p old)
    (hblocks : p.block_size_ ∣ w.buf_.length) (hn : w.dir.temp.length < n + w.file_num_) (hpos : 0 < n) :
    ∃ w', openLog p n w = some w' ∧ w'.Opened p old ∧ w'.buf_ = w.buf_ ∧ w'.recorder_ = w.recorder_ := by
  induction n generalizing w with
  | zero => exact absurd hpos (Nat.lt_irrefl 0)
  | succ n ih =>
    set kept := (w.file_ p).take ((w.file_ p).length / p.block_size_ * p.block_size_) with hkept
    have hle : (w.file_ p).length ≤ p.fileSize := by
      rw [file_of_temp htemp]
      cases hfile : w.dir.temp.file w.file_num_ with
      | none => exact Nat.zero_le _
      | some file => exact h.short _ file hfile
    have hcut : (w.file_ p).length / p.block_size_ * p.block_size_ ≤ (w.file_ p).length := Nat.div_mul_le_self _ _
    have hlen : kept.length = (w.file_ p).length / p.block_size_ * p.block_size_ := length_take_of_le hcut
    have hput : (w.putFile p kept).dir.Grows p old := by
      rw [putFile_of_temp htemp]
      exact h.put (by omega) _
    have hsame : (w.putFile p kept).buf_ = w.buf_ ∧ (w.putFile p kept).recorder_ = w.recorder_ := by
      rw [putFile_of_temp htemp]
      exact ⟨rfl, rfl⟩
    rw [openLog]
    rw [← hkept, file_putFile htemp]
    by_cases hfull : kept.length = p.fileSize
    · rw [if_pos hfull]
      -- A full file is there already.
      have hlt : w.file_num_ < w.dir.temp.length := by
        by_contra hge
        have hnone : (w.file_ p).length = 0 := by
          rw [file_of_temp htemp, file_eq_none (Nat.le_of_not_lt hge)]
          rfl
        omega
      have hlength : ((w.putFile p kept).closeLog p).dir.temp.length = w.dir.temp.length := by
        rw [closeLog_of_temp htemp, LogDir.length_rename, putFile_of_temp htemp]
        rw [length_put]
        omega
      have hclosed : ((w.putFile p kept).closeLog p).dir.Grows p old := by
        rw [closeLog_of_temp htemp]
        exact hput.rename _
      have hnum : (w.putFile p kept).file_num_ = w.file_num_ := by rw [putFile_of_temp htemp]
      have hbufs : ((w.putFile p kept).closeLog p).buf_ = w.buf_ ∧
          ((w.putFile p kept).closeLog p).recorder_ = w.recorder_ := by
        rw [closeLog_of_temp htemp]
        exact hsame
      obtain ⟨w', hopen, hopened, hbuf, hrecorder⟩ := ih
        (w := { (w.putFile p kept).closeLog p with file_num_ := (w.putFile p kept).file_num_ + 1 }) hclosed
        (by rw [hbufs.1]; exact hblocks) (by dsimp only; rw [hlength, hnum]; omega) (by omega)
      exact ⟨w', hopen, hopened, hbuf.trans hbufs.1, hrecorder.trans hbufs.2⟩
    · rw [if_neg hfull]
      refine ⟨_, rfl, ⟨hput, ?_, ?_, ?_⟩, hsame⟩
      · rw [file_putFile htemp, hlen]
        exact Nat.dvd_mul_left _ _
      · rw [file_putFile htemp]
        omega
      · rw [hsame.1]
        exact hblocks

theorem openNextLog_grows (h : w.dir.Grows p old) (hblocks : p.block_size_ ∣ w.buf_.length) :
    ∃ w', w.openNextLog p = some w' ∧ w'.Opened p old ∧ w'.buf_ = w.buf_ ∧ w'.recorder_ = w.recorder_ := by
  have hclose := closeLog_of_temp htemp w
  have hgrows : (w.closeLog p).dir.Grows p old := by
    rw [hclose]
    exact h.rename _
  have hbuf : (w.closeLog p).buf_ = w.buf_ := by rw [hclose]
  have hrecorder : (w.closeLog p).recorder_ = w.recorder_ := by rw [hclose]
  obtain ⟨w', hopen, hopened, hbuf', hrecorder'⟩ := openLog_grows
    (n := filesLeft { w.closeLog p with file_num_ := w.file_num_ + 1 })
    (w := { w.closeLog p with file_num_ := w.file_num_ + 1 }) htemp hsize hgrows (by rw [hbuf]; exact hblocks)
    (by rw [filesLeft]; dsimp only; omega) (Nat.succ_pos _)
  exact ⟨w', hopen, hopened, hbuf'.trans hbuf, hrecorder'.trans hrecorder⟩

/-- The buffer is written to temporary files. -/
theorem writeLoop_grows (h : w.Opened p old) (hn : w.buf_.length < n) :
    ∃ w', writeLoop p n w = some (true, w') ∧ w'.Opened p old ∧ w'.recorder_ = w.recorder_ := by
  induction n generalizing w with
  | zero => exact absurd hn (Nat.not_lt_zero _)
  | succ n ih =>
    rw [writeLoop]
    by_cases hnil : w.buf_ = []
    · rw [if_pos hnil]
      exact ⟨w, rfl, h, rfl⟩
    · have hroom := h.room
      have hbad : ¬ ((w.file_ p).length % p.block_size_ ≠ 0 ∨ p.fileSize < (w.file_ p).length) := by
        rw [not_or, not_not]
        exact ⟨Nat.mod_eq_zero_of_dvd h.pos, by omega⟩
      rw [if_neg hnil]
      dsimp only
      rw [if_neg hbad, if_neg (not_not.2 hroom), if_neg (not_not.2 (Nat.mod_eq_zero_of_dvd h.blocks))]
      set to_write := min (p.fileSize - (w.file_ p).length) w.buf_.length with hto
      have hlen : 0 < w.buf_.length := length_pos_iff.2 hnil
      have hdvd : p.block_size_ ∣ to_write := by
        rcases min_choice (p.fileSize - (w.file_ p).length) w.buf_.length with hmin | hmin <;> rw [hto, hmin]
        · exact Nat.dvd_sub (Nat.dvd_mul_right _ _) h.pos
        · exact h.blocks
      have htake : (w.buf_.take to_write).length = to_write := length_take_of_le (by omega)
      have hdrop : p.block_size_ ∣ (w.buf_.drop to_write).length := by
        rw [length_drop]
        exact Nat.dvd_sub h.blocks hdvd
      have hcontent : (w.file_ p ++ w.buf_.take to_write).length = (w.file_ p).length + to_write := by
        rw [length_append, htake]
      have hfile : file_ p { w.putFile p (w.file_ p ++ w.buf_.take to_write) with buf_ := w.buf_.drop to_write } =
          w.file_ p ++ w.buf_.take to_write := file_putFile htemp w _
      have hgrows : (w.putFile p (w.file_ p ++ w.buf_.take to_write)).dir.Grows p old := by
        rw [putFile_of_temp htemp]
        exact h.grows.put (by omega) _
      have hrecorder : (w.putFile p (w.file_ p ++ w.buf_.take to_write)).recorder_ = w.recorder_ := by
        rw [putFile_of_temp htemp]
      rw [hfile]
      by_cases hfull : (w.file_ p ++ w.buf_.take to_write).length = p.fileSize
      · rw [if_pos hfull]
        obtain ⟨_, hopen, hopened, hbuf₁, hrecorder₁⟩ := openNextLog_grows htemp hsize
          (w := { w.putFile p (w.file_ p ++ w.buf_.take to_write) with buf_ := w.buf_.drop to_write }) hgrows hdrop
        obtain ⟨w', hwrite, hw', hrecorder'⟩ := ih hopened (by rw [hbuf₁, length_drop]; omega)
        refine ⟨w', ?_, hw', hrecorder'.trans (hrecorder₁.trans hrecorder)⟩
        rw [hopen]
        exact hwrite
      · rw [if_neg hfull]
        obtain ⟨w', hwrite, hw', hrecorder'⟩ := ih
          (w := { w.putFile p (w.file_ p ++ w.buf_.take to_write) with buf_ := w.buf_.drop to_write })
          ⟨hgrows, by rw [hfile, hcontent]; exact Nat.dvd_add h.pos hdvd, by rw [hfile]; omega, hdrop⟩
          (by rw [length_drop]; omega)
        exact ⟨w', hwrite, hw', hrecorder'.trans hrecorder⟩

end

theorem Opened.put (h : w.Opened p old) {out : Bytes} (hout : p.block_size_ ∣ out.length) (r : RecordWriter) :
    Opened p old { w with buf_ := w.buf_ ++ out, recorder_ := r } := by
  refine ⟨h.grows, h.pos, h.room, ?_⟩
  rw [length_append]
  exact Nat.dvd_add h.blocks hout

/-- One call. -/
theorem Opened.step (htemp : p.temporary_incomplete_file_ = true) (h : w.Opened p old) {out : Bytes} {r : RecordWriter}
    (hput : LogWriter.output p.toWriterParams w.recorder_ call = some (out, r)) :
    ∃ w', DirWriter.step p w call = some w' ∧ w'.Opened p old ∧ w'.recorder_ = r := by
  have hsize : 0 < p.fileSize := Nat.lt_of_le_of_lt (Nat.zero_le _) h.room
  obtain ⟨writes, hrecord⟩ := LogWriter.record_of_output
    (w := { buf_ := w.buf_, recorder_ := w.recorder_ }) hput
  have hopened := h.put (LogWriter.dvd_output (w := { recorder_ := r }) hput) r
  rw [DirWriter.step, hrecord, bind_some]
  dsimp only
  cases writes with
  | false => exact ⟨_, rfl, hopened, rfl⟩
  | true =>
    obtain ⟨w', hwrite, hw', hrecorder⟩ := writeLoop_grows htemp hsize hopened (Nat.lt_succ_self _)
    refine ⟨w', ?_, hw', hrecorder⟩
    rw [if_pos rfl, writeBuffer, hwrite]
    rfl

/-- The calls of a session. -/
theorem Opened.calls (htemp : p.temporary_incomplete_file_ = true) (hp : p.toWriterParams.Admitted)
    {inflate : Bytes → Bool × Bytes} {s : Recording} {frs blks : List (List Piece)} {ps : List Piece}
    (h : w.Opened p old) (hinv : s.Inv p.toWriterParams (p.toWriterParams.reader inflate) frs blks ps)
    (hrecorder : w.recorder_ = s.writer) (calls : List WriterCall) :
    ∃ (w' : DirWriter) (s' : Recording) (frs' blks' : List (List Piece)) (ps' : List Piece),
      run (DirWriter.step p) w calls = some w' ∧ w'.Opened p old ∧
      s'.Inv p.toWriterParams (p.toWriterParams.reader inflate) frs' blks' ps' ∧ w'.recorder_ = s'.writer := by
  induction calls generalizing w s frs blks ps with
  | nil => exact ⟨w, s, frs, blks, ps, rfl, h, hinv, hrecorder⟩
  | cons call calls ih =>
    obtain ⟨_, _, _, _, _, hput, -, hinv₁, -⟩ := hinv.output hp call
    rw [← hrecorder] at hput
    obtain ⟨w₁, hstep, hw₁, hrecorder₁⟩ := h.step htemp hput
    obtain ⟨w', s', frs', blks', ps', hrun, hrest⟩ := ih hw₁ hinv₁ hrecorder₁
    exact ⟨w', s', frs', blks', ps', run_cons_eq_some.2 ⟨w₁, hstep, hrun⟩, hrest⟩

end DirWriter

end

/-! ## Sessions with temporary files -/

section Sessions

variable {p : DirParams} {old : Disk} {dir : LogDir}

/-- A session keeps the files that are in their places. -/
theorem LogDir.Grows.session (htemp : p.temporary_incomplete_file_ = true) (hp : p.toWriterParams.Admitted)
    (hsize : 0 < p.fileSize) (h : dir.Grows p old) (calls : List WriterCall) :
    ∃ dir', logSession p dir calls = some dir' ∧ dir'.Grows p old := by
  have hnew : RecordWriter.new p.toWriterParams = some {} := if_pos hp.size
  obtain ⟨w, hopen, hopened, -, hrecorder⟩ := openLog_grows
    (n := filesLeft { dir := dir, file_num_ := dir.files.getLastNumberedFile.getD 0 })
    (w := { dir := dir, file_num_ := dir.files.getLastNumberedFile.getD 0 }) htemp hsize h (Nat.dvd_zero _)
    (by rw [filesLeft]; dsimp only; omega) (Nat.succ_pos _)
  have hinit : initializeLog p dir = some w := hopen
  have hzero : w.recorder_ = {} := hrecorder
  have hstart : { w with recorder_ := ({} : RecordWriter) } = w := by rw [← hzero]
  have hinit' : Recording.Inv p.toWriterParams (p.toWriterParams.reader fun data => (true, data)) {} [] [] [] :=
    Recording.inv_init
  obtain ⟨w₁, s, _, _, _, hrun, hopened₁, hinv, hrecorder₁⟩ := hopened.calls htemp hp hinit' hrecorder calls
  obtain ⟨_, _, hstep, -⟩ := hinv.finalize hp
  obtain ⟨⟨out, r⟩, hfinal, -⟩ := map_eq_some_iff.1 hstep
  rw [← hrecorder₁] at hfinal
  obtain ⟨w₂, hwrite, hw₂, -⟩ := writeLoop_grows htemp hsize (hopened₁.put (dvd_finalizeContent hfinal) r)
    (Nat.lt_succ_self _)
  have hwritten : writeBuffer p { w₁ with buf_ := w₁.buf_ ++ out, recorder_ := r } = some (true, w₂) := hwrite
  refine ⟨(w₂.closeLog p).dir, ?_, ?_⟩
  · rw [logSession, hnew, bind_some, hinit, bind_some, hstart, hrun, bind_some, close,
      hfinal, bind_some]
    dsimp only
    rw [hwritten]
    rfl
  · rw [closeLog_of_temp htemp]
    exact hw₂.grows.rename _

/-- Sessions keep the files that are in their places. -/
theorem LogDir.Grows.sessions (htemp : p.temporary_incomplete_file_ = true) (hp : p.toWriterParams.Admitted)
    (hsize : 0 < p.fileSize) (h : dir.Grows p old) (sessions : List (List WriterCall)) :
    ∃ dir', logSessions p dir sessions = some dir' ∧ dir'.Grows p old := by
  refine run_isSome (I := LogDir.Grows p old) ?_ h sessions
  intro dir calls hdir
  exact hdir.session htemp hp hsize calls

end Sessions

/-! ## What is delivered -/

section Delivered

variable {p : DirParams} {inflate : Bytes → Bool × Bytes} {sessions : List (List WriterCall)}

/-- The records that a new reader delivers behind sessions: those of all of them, or, with temporary files, those of the
first one. -/
def DirParams.read (p : DirParams) (sessions : List (List WriterCall)) : List Bytes :=
  if p.temporary_incomplete_file_ then (sessions.take 1).flatMap fun calls => calls.flatMap (WriterCall.stored p.toWriterParams)
  else sessions.flatMap fun calls => calls.flatMap (WriterCall.stored p.toWriterParams)

/-- No session is aborted, and a new reader stops where the log that it can read does. -/
theorem logSessions_delivers (hp : p.toWriterParams.Admitted) (hfiles : 0 < p.blocks_per_file_)
    (inflate : Bytes → Bool × Bytes) (sessions : List (List WriterCall)) :
    ∃ dir, logSessions p {} sessions = some dir ∧
      Delivers (p.logReader inflate) dir.files {} (p.read sessions) := by
  have hroom := hp.room
  have hsize : 0 < p.fileSize := Nat.mul_pos (by omega) hfiles
  cases sessions with
  | nil =>
    refine ⟨{}, rfl, ?_⟩
    have hnone : p.read [] = [] := by rw [DirParams.read]; split_ifs <;> rfl
    rw [hnone]
    exact Delivers.done rfl
  | cons calls sessions =>
    obtain ⟨v, _, hsession, hbuf, hholds⟩ := logSession_first hp hsize inflate calls
    cases htemp : p.temporary_incomplete_file_ with
    | false =>
      obtain ⟨_, _, hsessions, hbuf', hholds'⟩ := hholds.sessions hp htemp hbuf sessions
      refine ⟨_, run_cons_eq_some.2 ⟨_, hsession, hsessions⟩, ?_⟩
      rw [DirParams.read, htemp, if_neg (by decide), flatMap_cons]
      exact hholds'.logged.delivers (hholds'.storedLog hbuf')
    | true =>
      have hgrows : (closed p v).Grows p (closed p v).files := by
        refine ⟨Kept.refl _, ?_⟩
        intro n file hfile
        rw [closed, htemp, if_pos rfl] at hfile
        simp only [Disk.file, getElem?_replicate] at hfile
        split_ifs at hfile <;> cases hfile
      obtain ⟨dir, hsessions, hdir⟩ := hgrows.sessions htemp hp hsize sessions
      refine ⟨dir, run_cons_eq_some.2 ⟨_, hsession, hsessions⟩, ?_⟩
      rw [DirParams.read, htemp, if_pos rfl, take_succ_cons, take_zero, flatMap_cons, flatMap_nil,
        append_nil]
      exact hholds.logged.delivers ((hholds.storedLog hbuf).kept hdir.kept)

/-- The records of sessions are delivered if and only if each of them is stored as it is and, with temporary files, no
session but the first one has any. -/
theorem read_eq_iff : p.read sessions = sessions.flatMap (fun calls => calls.flatMap WriterCall.record) ↔
    (∀ calls ∈ sessions, ∀ call ∈ calls, call.Survives p.toWriterParams) ∧
      (p.temporary_incomplete_file_ = true → ∀ calls ∈ sessions.tail, calls.flatMap WriterCall.record = []) := by
  have hall : ∀ f : WriterCall → List Bytes, sessions.flatMap (fun calls => calls.flatMap f) = sessions.flatten.flatMap f :=
    fun f => by rw [flatten_eq_flatMap, flatMap_assoc]; rfl
  rw [DirParams.read]
  cases htemp : p.temporary_incomplete_file_ with
  | false =>
    rw [if_neg (by decide), hall, hall, flatMap_stored_iff]
    simp only [mem_flatten, Bool.false_eq_true, false_implies, and_true]
    exact ⟨fun h calls hcalls call hcall => h call ⟨calls, hcalls, hcall⟩,
      fun h call ⟨calls, hcalls, hcall⟩ => h calls hcalls call hcall⟩
  | true =>
    rw [if_pos rfl]
    cases sessions with
    | nil => simp
    | cons calls sessions =>
      rw [take_succ_cons, take_zero, flatMap_cons, flatMap_nil, append_nil, flatMap_cons,
        tail_cons, forall_mem_cons]
      constructor
      · -- As many records are stored as the first session has at most.
        intro heq
        have hle := length_flatMap_stored_le p.toWriterParams calls
        have hlen := congrArg length heq
        rw [length_append] at hlen
        have hrest : sessions.flatMap (fun calls => calls.flatMap WriterCall.record) = [] :=
          eq_nil_of_length_eq_zero (by omega)
        rw [hrest, append_nil, flatMap_stored_iff] at heq
        rw [flatMap_eq_nil_iff] at hrest
        refine ⟨⟨heq, ?_⟩, fun _ => hrest⟩
        -- A session without records only flushes.
        intro calls hcalls call hcall
        have hnone := flatMap_eq_nil_iff.1 (hrest calls hcalls) call hcall
        cases call with
        | buffer data => cases hnone
        | stream data => cases hnone
        | finalize => trivial
      · rintro ⟨⟨hsurvive, -⟩, hrest⟩
        rw [flatMap_stored_iff.2 hsurvive, flatMap_eq_nil_iff.2 (hrest rfl), append_nil]

/-- Every sequence of sessions leaves a log from which a new reader delivers some records. They are the ones that the
sessions have written if and only if each of these survives its compression and is not empty where it is a stream, and,
with temporary files, no session but the first one has any. -/
theorem restarts_delivered_iff (hp : p.toWriterParams.Admitted) (hfiles : 0 < p.blocks_per_file_)
    (inflate : Bytes → Bool × Bytes) (sessions : List (List WriterCall)) :
    ∃ dir records, logSessions p {} sessions = some dir ∧ Delivers (p.logReader inflate) dir.files {} records ∧
      (records = sessions.flatMap (fun calls => calls.flatMap WriterCall.record) ↔
        (∀ calls ∈ sessions, ∀ call ∈ calls, call.Survives p.toWriterParams) ∧
          (p.temporary_incomplete_file_ = true → ∀ calls ∈ sessions.tail, calls.flatMap WriterCall.record = [])) := by
  obtain ⟨dir, hsessions, hdelivers⟩ := logSessions_delivers hp hfiles inflate sessions
  exact ⟨dir, p.read sessions, hsessions, hdelivers, read_eq_iff⟩

/-- Two sessions without temporary files, each with a record. -/
theorem restarts_delivered_two :
    ∃ dir records, logSessions ⟨⟨20, 2, fun _ => 0, none⟩, 4, false⟩ {} [[.buffer [7]], [.buffer [8]]] = some dir ∧
      Delivers (DirParams.logReader ⟨⟨20, 2, fun _ => 0, none⟩, 4, false⟩ fun data => (true, data)) dir.files {} records ∧
      (records = [[7], [8]] ↔
        (∀ calls ∈ [[WriterCall.buffer [7]], [.buffer [8]]], ∀ call ∈ calls,
          call.Survives ⟨20, 2, fun _ => 0, none⟩) ∧
          (false = true → ∀ calls ∈ [[WriterCall.buffer [8]]], calls.flatMap WriterCall.record = [])) :=
  @restarts_delivered_iff ⟨⟨20, 2, fun _ => 0, none⟩, 4, false⟩ ⟨by decide, by decide⟩ (by decide) (fun data => (true, data))
    [[.buffer [7]], [.buffer [8]]]

/-- With temporary files the record of the second session stays in `temp`, where a reader does not look. -/
theorem restarts_second_lost :
    ∃ dir, logSessions ⟨⟨20, 2, fun _ => 0, none⟩, 4, true⟩ {} [[.buffer [7]], [.buffer [8]]] = some dir ∧
      dir.temp = [some [4, 0, 0, 1, 8, 0, 0, 0, 0, 0, 0, 5, 0, 0, 0, 0, 0, 0, 0, 0]] ∧
      Delivers (DirParams.logReader ⟨⟨20, 2, fun _ => 0, none⟩, 4, true⟩ fun data => (true, data)) dir.files {} [[7]] ∧
      ¬ Delivers (DirParams.logReader ⟨⟨20, 2, fun _ => 0, none⟩, 4, true⟩ fun data => (true, data)) dir.files {}
        [[7], [8]] := by
  obtain ⟨dir, hsessions, hdelivers⟩ := @logSessions_delivers ⟨⟨20, 2, fun _ => 0, none⟩, 4, true⟩ ⟨by decide, by decide⟩
    (by decide) (fun data => (true, data)) [[.buffer [7]], [.buffer [8]]]
  have htemp : (logSessions ⟨⟨20, 2, fun _ => 0, none⟩, 4, true⟩ {} [[.buffer [7]], [.buffer [8]]]).map LogDir.temp =
      some [some [4, 0, 0, 1, 8, 0, 0, 0, 0, 0, 0, 5, 0, 0, 0, 0, 0, 0, 0, 0]] := by decide +kernel
  rw [hsessions] at htemp
  refine ⟨dir, hsessions, Option.some.inj htemp, hdelivers, ?_⟩
  intro hboth
  have hsame : [[7]] = [[7], [(8 : UInt8)]] := Delivers.unique hdelivers hboth
  cases hsame

end Delivered

end Whispercast.Logio
