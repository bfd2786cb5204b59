import Whispercast.Logio.LogDirectory
import Whispercast.Logio.StoredLog

/-!
# Restarts of a log writer

Sessions of `LogWriter`s on one directory, each ended by `Close`. Without temporary files a session goes on where the one
before has ended. With temporary files it begins the last file anew, under its temporary name, and cannot move it to its
place: what it writes is not in the log.
-/

namespace Whispercast.Logio

open Io Library RecordReader LogReader DirWriter List Option RecordWriter WriterCall Disk

/-- What is stored for a call: nothing for an empty stream, and the compressed record where there is compression. -/
def WriterCall.stored (p : WriterParams) : WriterCall → List Bytes
  | .buffer data =>
    match p.deflate with
    | none => [data]
    | some deflate => if deflate data = [] then [] else [deflate data]
  | .stream data =>
    match p.deflate with
    | none => if data = [] then [] else [data]
    | some deflate => if deflate data = [] then [] else [deflate data]
  | .finalize => []

/-- The record of a call is stored as it is: a stream has bytes, and nothing is changed by compression. -/
def WriterCall.Survives (p : WriterParams) : WriterCall → Prop
  | .buffer data => ∀ deflate, p.deflate = some deflate → deflate data = data ∧ data ≠ []
  | .stream data => data ≠ [] ∧ ∀ deflate, p.deflate = some deflate → deflate data = data
  | .finalize => True

section Stored

variable {p : WriterParams} {call : WriterCall}

theorem WriterCall.length_stored_le (call : WriterCall) : (call.stored p).length ≤ call.record.length := by
  cases call with
  | buffer data =>
    cases h : p.deflate with
    | none => simp [stored, record, h]
    | some deflate =>
      simp only [stored, record, h]
      split_ifs <;> simp
  | stream data =>
    cases h : p.deflate with
    | none | some deflate =>
      simp only [stored, record, h]
      split_ifs <;> simp
  | finalize => exact le_rfl

theorem WriterCall.stored_eq_record_iff : call.stored p = call.record ↔ call.Survives p := by
  cases call with
  | buffer data =>
    cases h : p.deflate with
    | none => simp [stored, record, Survives, h]
    | some deflate =>
      simp only [stored, record, Survives, h, Option.some.injEq, forall_eq']
      by_cases hnil : deflate data = []
      · simp [hnil]
      · simp only [hnil, if_false, cons.injEq, and_true]
        exact ⟨fun h => ⟨h, h ▸ hnil⟩, fun h => h.1⟩
  | stream data =>
    cases h : p.deflate with
    | none =>
      simp only [stored, record, Survives, h]
      by_cases hnil : data = [] <;> simp [hnil]
    | some deflate =>
      simp only [stored, record, Survives, h, Option.some.injEq, forall_eq']
      by_cases hnil : deflate data = []
      · simp [hnil]
      · simp only [hnil, if_false, cons.injEq, and_true]
        exact ⟨fun h => ⟨h ▸ hnil, h⟩, fun h => h.2⟩
  | finalize => simp [stored, record, Survives]

theorem length_flatMap_stored_le (p : WriterParams) (calls : List WriterCall) :
    (calls.flatMap (WriterCall.stored p)).length ≤ (calls.flatMap WriterCall.record).length := by
  induction calls with
  | nil => exact le_rfl
  | cons call calls ih =>
    have hcall := @length_stored_le p call
    simp only [flatMap_cons, length_append]
    omega

/-- The records of calls are stored as they are if and only if each of them is. -/
theorem flatMap_stored_iff {calls : List WriterCall} :
    calls.flatMap (WriterCall.stored p) = calls.flatMap WriterCall.record ↔ ∀ call ∈ calls, call.Survives p := by
  induction calls with
  | nil => simp
  | cons call calls ih =>
    rw [flatMap_cons, flatMap_cons, forall_mem_cons]
    constructor
    · -- Nothing is missing behind the call, so nothing is missing in it.
      intro heq
      have hlen := congrArg length heq
      have hcall := @length_stored_le p call
      have hrest := length_flatMap_stored_le p calls
      simp only [length_append] at hlen
      obtain ⟨hsame, hrests⟩ := append_inj heq (by omega)
      exact ⟨stored_eq_record_iff.1 hsame, ih.1 hrests⟩
    · rintro ⟨hcall, hrest⟩
      rw [stored_eq_record_iff.2 hcall, ih.2 hrest]

end Stored

/-! ## What a call puts out -/

section Output

variable {p : WriterParams} {inflate : Bytes → Bool × Bytes} {s : Recording} {frs blks : List (List Piece)}
  {ps : List Piece} {data : Bytes} {loop : Option (Bytes × Nat × RecordWriter)}

/-- A record is appended by a loop, with what it puts out. -/
theorem Recording.append_eq_some {s' : Recording} (h : s.append p data loop = some s') :
    ∃ finished out, loop.bind (RecordWriter.maybeDump p) = some (finished, out, s'.writer) ∧ s'.out = s.out ++ out := by
  obtain ⟨⟨_, _, w⟩, rfl, h⟩ := bind_eq_some_iff.1 h
  obtain ⟨⟨finished, out, _⟩, hdump, rfl⟩ := map_eq_some_iff.1 h
  exact ⟨finished, out, hdump, rfl⟩

/-- An empty stream puts nothing out. -/
theorem Recording.Inv.maybeDump_nil (h : s.Inv p (p.reader inflate) frs blks ps) :
    RecordWriter.maybeDump p ([], 0, s.writer) = some (false, [], s.writer) := by
  have hcontent := h.content
  rw [RecordWriter.maybeDump, h.writer, content_writerAt, if_neg (Nat.not_lt.2 hcontent)]
  rfl

/-- A call, with what it puts out and what it stores. -/
theorem Recording.Inv.output (hp : p.Admitted) (h : s.Inv p (p.reader inflate) frs blks ps) (call : WriterCall) :
    ∃ (out : Bytes) (s' : Recording) (frs' blks' : List (List Piece)) (ps' : List Piece),
      LogWriter.output p s.writer call = some (out, s'.writer) ∧ s'.out = s.out ++ out ∧
      s'.Inv p (p.reader inflate) frs' blks' ps' ∧
      s'.extents.map Extent.record = s.extents.map Extent.record ++ call.stored p := by
  -- A record that has bytes, or that is written from a buffer.
  have hrecord : ∀ data : Bytes, ∃ (finished : Bool) (out : Bytes) (s' : Recording) (frs' blks' : List (List Piece)) (ps' : List Piece),
      (RecordWriter.appendLoop p (data.length + 1) true data s.writer).bind (RecordWriter.maybeDump p) =
        some (finished, out, s'.writer) ∧ s'.out = s.out ++ out ∧ s'.Inv p (p.reader inflate) frs' blks' ps' ∧
      s'.extents.map Extent.record = s.extents.map Extent.record ++ [data] := by
    intro data
    obtain ⟨s', frs', blks', ps', happend, hinv, -, hextents⟩ := h.append hp data
    obtain ⟨finished, out, hout, hs'⟩ := Recording.append_eq_some happend
    exact ⟨finished, out, s', frs', blks', ps', hout, hs', hinv, hextents⟩
  have hstream : ∀ data : Bytes, ∃ (finished : Bool) (out : Bytes) (s' : Recording) (frs' blks' : List (List Piece)) (ps' : List Piece),
      (RecordWriter.streamLoop p data s.writer).bind (RecordWriter.maybeDump p) =
        some (finished, out, s'.writer) ∧ s'.out = s.out ++ out ∧ s'.Inv p (p.reader inflate) frs' blks' ps' ∧
      s'.extents.map Extent.record = s.extents.map Extent.record ++ if data = [] then [] else [data] := by
    intro data
    by_cases hnil : data = []
    · refine ⟨false, [], s, frs, blks, ps, ?_, (append_nil _).symm, h, by simp [hnil]⟩
      rw [RecordWriter.streamLoop, if_pos hnil]
      exact h.maybeDump_nil
    · rw [RecordWriter.streamLoop, if_neg hnil, if_neg hnil]
      exact hrecord data
  cases call with
  | buffer data =>
    rw [LogWriter.output, RecordWriter.appendBuffer, RecordWriter.bufferLoop, WriterCall.stored]
    cases hdeflate : p.deflate with
    | none =>
      obtain ⟨finished, out, s', frs', blks', ps', hout, hrest⟩ := hrecord data
      exact ⟨out, s', frs', blks', ps', by dsimp only; rw [hout]; rfl, hrest⟩
    | some deflate =>
      obtain ⟨finished, out, s', frs', blks', ps', hout, hrest⟩ := hstream (deflate data)
      exact ⟨out, s', frs', blks', ps', by dsimp only; rw [hout]; rfl, hrest⟩
  | stream data =>
    rw [LogWriter.output, RecordWriter.appendStream, RecordWriter.recordLoop, WriterCall.stored]
    cases hdeflate : p.deflate with
    | none =>
      obtain ⟨finished, out, s', frs', blks', ps', hout, hrest⟩ := hstream data
      exact ⟨out, s', frs', blks', ps', by dsimp only; rw [hout]; rfl, hrest⟩
    | some deflate =>
      obtain ⟨finished, out, s', frs', blks', ps', hout, hrest⟩ := hstream (deflate data)
      exact ⟨out, s', frs', blks', ps', by dsimp only; rw [hout]; rfl, hrest⟩
  | finalize =>
    obtain ⟨s', blks', hstep, hinv, -, hextents⟩ := h.finalize hp
    obtain ⟨⟨out, w⟩, hfinal, rfl⟩ := map_eq_some_iff.1 hstep
    exact ⟨out, { s with writer := w, out := s.out ++ out }, frs, blks', [], hfinal, rfl, hinv,
      by rw [hextents, WriterCall.stored, append_nil]⟩

end Output

/-! ## Sessions -/

section Sessions

variable {p : WriterParams} {inflate : Bytes → Bool × Bytes} {blocks_per_file : Nat} {s : Recording}
  {frs blks : List (List Piece)} {ps : List Piece} {v : LogWriter} {before : Bytes}

/-- The calls of a session behind what earlier ones have written. -/
theorem LogWriter.Pours.calls (hp : p.Admitted) (h : v.Pours p blocks_per_file {} (before ++ s.out))
    (hinv : s.Inv p (p.reader inflate) frs blks ps) (hrecorder : v.recorder_ = s.writer) (calls : List WriterCall) :
    ∃ (v' : LogWriter) (s' : Recording) (frs' blks' : List (List Piece)) (ps' : List Piece),
      Library.run (LogWriter.step p blocks_per_file) v calls = some v' ∧
      v'.Pours p blocks_per_file {} (before ++ s'.out) ∧ s'.Inv p (p.reader inflate) frs' blks' ps' ∧
      v'.recorder_ = s'.writer ∧
      s'.extents.map Extent.record = s.extents.map Extent.record ++ calls.flatMap (WriterCall.stored p) := by
  induction calls generalizing v s frs blks ps with
  | nil => exact ⟨v, s, frs, blks, ps, rfl, h, hinv, hrecorder, by simp⟩
  | cons call calls ih =>
    obtain ⟨_, _, _, _, _, hput, hout, hinv₁, hextents₁⟩ := hinv.output hp call
    rw [← hrecorder] at hput
    obtain ⟨v₁, hstep, hrecorder₁, h₁⟩ := h.step hput
    rw [append_assoc, ← hout] at h₁
    obtain ⟨v', s', frs', blks', ps', hrun, h', hinv', hrecorder', hextents'⟩ := ih h₁ hinv₁ hrecorder₁
    refine ⟨v', s', frs', blks', ps', run_cons_eq_some.2 ⟨v₁, hstep, hrun⟩, h', hinv', hrecorder', ?_⟩
    rw [hextents', hextents₁, flatMap_cons, append_assoc]

/-- A session behind what earlier ones have written: its calls, and `Close`. -/
theorem LogWriter.Pours.session (hp : p.Admitted) (inflate : Bytes → Bool × Bytes)
    (h : v.Pours p blocks_per_file {} before) (hrecorder : v.recorder_ = {}) (calls : List WriterCall) :
    ∃ (v₁ : LogWriter) (out : Bytes) (r : RecordWriter) (v₂ : LogWriter) (frs blks : List (List Piece)),
      Library.run (LogWriter.step p blocks_per_file) v calls = some v₁ ∧
      RecordWriter.finalizeContent p v₁.recorder_ = some (out, r) ∧
      LogWriter.writeBuffer p blocks_per_file { v₁ with buf_ := v₁.buf_ ++ out, recorder_ := r } = some (true, v₂) ∧
      v₂.buf_ = [] ∧ v₂.Pours p blocks_per_file {} (before ++ chainBytes (p.reader inflate) 0 blks) ∧
      (∀ fs ∈ blks, Fits (p.reader inflate) fs) ∧
      List.Forall₂ (Carries true) (calls.flatMap (WriterCall.stored p)) frs ∧ blks.flatten = frs.flatten := by
  have hstart : v.Pours p blocks_per_file {} (before ++ Recording.out {}) := by
    rw [append_nil]
    exact h
  obtain ⟨v₁, s₁, frs₁, _, _, hrun, h₁, hinv₁, hrecorder₁, hextents₁⟩ :=
    hstart.calls hp (Recording.inv_init (p := p)) hrecorder calls
  obtain ⟨_, blks, hstep, hinv, -, _⟩ := hinv₁.finalize hp
  obtain ⟨⟨out, r⟩, hfinal, rfl⟩ := map_eq_some_iff.1 hstep
  obtain ⟨v₂, hwrite, hbuf, -, h₂⟩ := (h₁.put (r := r) (dvd_finalizeContent hfinal)).writeBuffer
  rw [← hrecorder₁] at hfinal
  have hholds : Forall₂ (Carries true) (s₁.extents.map Extent.record) frs₁ :=
    forall₂_map_left_iff.2 hinv.written.holds
  rw [hextents₁] at hholds
  refine ⟨v₁, out, r, v₂, frs₁, blks, hrun, hfinal, hwrite, hbuf, ?_, hinv.fits, hholds, ?_⟩
  · rw [← hinv.out, ← append_assoc]
    exact h₂
  · rw [← hinv.written.flatten, append_nil]

end Sessions

/-! ## What sessions leave -/

/-- Blocks from which a reader reads these records, whatever it has read before. -/
structure Logged (q : ReaderParams) (ss : List Stored) (records : List Bytes) : Prop where
  ok : ∀ s ∈ ss, s.Ok q
  read : ∀ last, ∃ last', readAll q {} last ss = (records.map fun record => (.ok, record), {}, last')

theorem Logged.nil (q : ReaderParams) : Logged q [] [] := ⟨nofun, fun last => ⟨last, rfl⟩⟩

/-- A chain that begins anew does not look broken. -/
theorem Logged.chain {q : ReaderParams} {ss : List Stored} {records ms : List Bytes} {frs blks : List (List Piece)}
    (h : Logged q ss records) (hfits : ∀ fs ∈ blks, Fits q fs) (hms : List.Forall₂ (Carries true) ms frs)
    (hflatten : blks.flatten = frs.flatten) : Logged q (ss ++ Logio.chain q 0 blks) (records ++ ms) := by
  refine ⟨forall_mem_append.2 ⟨h.ok, chain_ok hfits⟩, ?_⟩
  intro last
  obtain ⟨last', hread⟩ := h.read last
  have hnot : ¬ Broken 0 last' := fun hbroken => hbroken.1 rfl
  refine ⟨if blks = [] then last' else chainEnd q 0 blks, ?_⟩
  rw [readAll_append, hread]
  rw [readAll_chain hnot, hflatten, Assembler.assemble_messages hms, map_append]
  simp [resultsOf, resultOf, Function.comp_def]

/-! ## A writer that goes on with a log -/

namespace DirWriter

/-- A writer on the directory that holds the files of a log writer. The open one is in its place, or under its temporary
name. -/
def ofLog (p : DirParams) (v : LogWriter) : DirWriter where
  dir :=
    if p.temporary_incomplete_file_ then
      { files := v.files.map some, temp := List.replicate v.files.length none ++ [some v.file_] }
    else { files := (v.files ++ [v.file_]).map some }
  file_num_ := v.files.length
  buf_ := v.buf_
  recorder_ := v.recorder_

/-- The directory behind a log writer that has been closed. -/
def closed (p : DirParams) (v : LogWriter) : LogDir where
  files := (v.files ++ [v.file_]).map some
  temp := if p.temporary_incomplete_file_ then List.replicate (v.files.length + 1) none else []

section

variable {p : DirParams} {v : LogWriter} {content : Bytes} {n : Nat}

section

variable (p : DirParams) (v : LogWriter)

theorem file_ofLog : (ofLog p v).file_ p = v.file_ := by
  rw [file_, open_, ofLog]
  cases p.temporary_incomplete_file_ with
  | true =>
    have h := file_length (replicate v.files.length none) (some v.file_)
    rw [length_replicate] at h
    simp only [if_true]
    rw [h]
    rfl
  | false =>
    have h := file_length (v.files.map some) (some v.file_)
    rw [length_map] at h
    simp only [if_false, Bool.false_eq_true, map_append, map_cons, map_nil]
    rw [h]
    rfl

theorem putFile_ofLog (content : Bytes) : (ofLog p v).putFile p content = ofLog p { v with file_ := content } := by
  rw [putFile, ofLog, ofLog]
  cases p.temporary_incomplete_file_ with
  | true =>
    have h := put_last (replicate v.files.length none) (some v.file_) (some content)
    rw [length_replicate] at h
    simp only [if_true]
    rw [h]
  | false =>
    have h := put_last (v.files.map some) (some v.file_) (some content)
    rw [length_map] at h
    simp only [if_false, Bool.false_eq_true, map_append, map_cons, map_nil]
    rw [h]

theorem closeLog_ofLog : (ofLog p v).closeLog p = { ofLog p v with dir := closed p v } := by
  rw [closeLog, closed, ofLog]
  cases p.temporary_incomplete_file_ with
  | true =>
    -- No file has the number of the one that is moved.
    have htemp := file_length (replicate v.files.length none) (some v.file_)
    have hput := put_last (replicate v.files.length none) (some v.file_) none
    rw [length_replicate] at htemp hput
    have hfree : file (v.files.map some) v.files.length = none := file_eq_none (by simp)
    have hnext := put_next (v.files.map some) (some v.file_)
    rw [length_map] at hnext
    simp only [if_true, LogDir.rename]
    rw [htemp]
    dsimp only
    rw [hfree, if_neg (by simp), hnext, hput, replicate_succ', map_append]
    rfl
  | false => rfl

/-- Behind a log writer that has been closed there is no next file. -/
theorem file_closed : file_ p { ofLog p v with dir := closed p v, file_num_ := v.files.length + 1 } = [] := by
  have hfree : ∀ d : Disk, d.length ≤ v.files.length + 1 → (d.file (v.files.length + 1)).getD [] = [] := by
    intro d hd
    rw [file_eq_none hd]
    rfl
  rw [file_, open_, closed]
  cases p.temporary_incomplete_file_ with
  | true => exact hfree _ (by simp)
  | false => exact hfree _ (by simp)

/-- The next file is made. -/
theorem putFile_closed :
    putFile p { ofLog p v with dir := closed p v, file_num_ := v.files.length + 1 } [] = ofLog p v.openNextLog := by
  rw [putFile, closed, ofLog, ofLog]
  cases p.temporary_incomplete_file_ with
  | true =>
    have hput := put_next (replicate (v.files.length + 1) none) (some [])
    rw [length_replicate] at hput
    simp only [if_true, LogWriter.openNextLog, length_append, List.length_singleton]
    rw [hput]
  | false =>
    have hput := put_next ((v.files ++ [v.file_]).map some) (some [])
    rw [length_map, length_append, List.length_singleton] at hput
    simp only [if_false, Bool.false_eq_true, LogWriter.openNextLog, length_append, List.length_singleton]
    have hfiles : (v.files ++ [v.file_] ++ [[]]).map some = (v.files ++ [v.file_]).map some ++ [some []] := by simp
    rw [hput, hfiles]

end

section

variable (hsize : 0 < p.fileSize)

include hsize

theorem openNextLog_ofLog (v : LogWriter) : (ofLog p v).openNextLog p = some (ofLog p v.openNextLog) := by
  rw [openNextLog, closeLog_ofLog]
  have hopened : file_ p (ofLog p v.openNextLog) = [] := file_ofLog p v.openNextLog
  have hclosed := file_closed p v
  have hput := putFile_closed p v
  have hempty : ¬ ([] : Bytes).length = p.fileSize := Nat.ne_of_lt hsize
  show openLog p (filesLeft { ofLog p v with dir := closed p v, file_num_ := v.files.length + 1 })
    { ofLog p v with dir := closed p v, file_num_ := v.files.length + 1 } = _
  rw [filesLeft, openLog]
  rw [hclosed, take_nil, hput, hopened, if_neg hempty]

/-- The writer does with the directory what the log writer does with its files. -/
theorem writeLoop_ofLog (n : Nat) (v : LogWriter) : writeLoop p n (ofLog p v) =
      (LogWriter.writeLoop p.toWriterParams p.blocks_per_file_ n v).map fun r => (r.1, ofLog p r.2) := by
  induction n generalizing v with
  | zero => rfl
  | succ n ih =>
    have hbuf : (ofLog p v).buf_ = v.buf_ := rfl
    have hput : ∀ file buf : Bytes, { ofLog p { v with file_ := file } with buf_ := buf } =
        ofLog p { v with file_ := file, buf_ := buf } := fun _ _ => rfl
    rw [writeLoop, LogWriter.writeLoop]
    simp only [file_ofLog, putFile_ofLog, hbuf, hput, openNextLog_ofLog hsize, bind_some, ih]
    rw [DirParams.fileSize]
    split_ifs <;> rfl

theorem writeBuffer_ofLog (v : LogWriter) : writeBuffer p (ofLog p v) =
      (LogWriter.writeBuffer p.toWriterParams p.blocks_per_file_ v).map fun r => (r.1, ofLog p r.2) :=
  writeLoop_ofLog hsize _ v

theorem step_ofLog (v : LogWriter) (call : WriterCall) :
    step p (ofLog p v) call = (LogWriter.step p.toWriterParams p.blocks_per_file_ v call).map (ofLog p) := by
  have hframe : LogWriter.record p.toWriterParams v call =
      (LogWriter.record p.toWriterParams { buf_ := v.buf_, recorder_ := v.recorder_ } call).map fun r =>
        (r.1, { v with buf_ := r.2.buf_, recorder_ := r.2.recorder_ }) := by
    cases call <;> simp only [LogWriter.record, Option.map_map] <;> rfl
  have hput : ∀ (buf : Bytes) (recorder : RecordWriter), { ofLog p v with buf_ := buf, recorder_ := recorder } =
      ofLog p { v with buf_ := buf, recorder_ := recorder } := fun _ _ => rfl
  rw [step, LogWriter.step_eq_record, hframe]
  show (LogWriter.record p.toWriterParams { buf_ := v.buf_, recorder_ := v.recorder_ } call).bind _ = _
  cases LogWriter.record p.toWriterParams { buf_ := v.buf_, recorder_ := v.recorder_ } call with
  | none => rfl
  | some r =>
    simp only [bind_some, map_some, hput, writeBuffer_ofLog hsize, Option.map_map]
    split_ifs
    · rw [Option.map_map]
      rfl
    · rfl

theorem run_ofLog (v : LogWriter) (calls : List WriterCall) : run (step p) (ofLog p v) calls =
      (run (LogWriter.step p.toWriterParams p.blocks_per_file_) v calls).map (ofLog p) := by
  induction calls generalizing v with
  | nil => rfl
  | cons call calls ih =>
    rw [run_cons, run_cons, step_ofLog hsize]
    cases LogWriter.step p.toWriterParams p.blocks_per_file_ v call with
    | none => rfl
    | some v' => exact ih v'

/-- The directory that `Close` leaves. -/
theorem close_ofLog {v₂ : LogWriter} {out : Bytes} {r : RecordWriter} {ok : Bool}
    (hfinal : RecordWriter.finalizeContent p.toWriterParams v.recorder_ = some (out, r))
    (hwrite : LogWriter.writeBuffer p.toWriterParams p.blocks_per_file_ { v with buf_ := v.buf_ ++ out, recorder_ := r } =
      some (ok, v₂)) : close p (ofLog p v) = some (closed p v₂) := by
  have hwritten : writeBuffer p { ofLog p v with buf_ := (ofLog p v).buf_ ++ out, recorder_ := r } =
      some (ok, ofLog p v₂) := by
    show writeBuffer p (ofLog p { v with buf_ := v.buf_ ++ out, recorder_ := r }) = _
    rw [writeBuffer_ofLog hsize, hwrite]
    rfl
  have hrecorder : (ofLog p v).recorder_ = v.recorder_ := rfl
  rw [close, hrecorder, hfinal, bind_some]
  dsimp only
  rw [hwritten, map_some, closeLog_ofLog]

/-- A new writer makes file 0 in an empty directory. -/
theorem initializeLog_nil : initializeLog p {} = some (ofLog p {}) := by
  have hput : putFile p { dir := {}, file_num_ := 0 } [] = ofLog p {} := by
    rw [putFile, ofLog]
    cases p.temporary_incomplete_file_ <;> rfl
  have hcontent : file_ p { dir := {}, file_num_ := 0 } = [] := by
    rw [file_, open_]
    cases p.temporary_incomplete_file_ <;> rfl
  have hempty : ¬ ([] : Bytes).length = p.fileSize := Nat.ne_of_lt hsize
  show openLog p 1 { dir := {}, file_num_ := 0 } = _
  rw [openLog]
  rw [hcontent, take_nil, hput, file_ofLog, if_neg hempty]

end

/-- A new writer without temporary files goes on at the end of the last file. -/
theorem initializeLog_closed (htemp : p.temporary_incomplete_file_ = false) (hpos : p.block_size_ ∣ v.file_.length)
    (hshort : v.file_.length < p.fileSize) :
    initializeLog p (closed p v) = some (ofLog p { v with buf_ := [], recorder_ := {} }) := by
  have hlast : (closed p v).files.getLastNumberedFile = some v.files.length := by
    have h := getLastNumberedFile_append (v.files.map some) v.file_
    rw [length_map] at h
    rw [closed, map_append]
    exact h
  have hstart : ({ dir := closed p v, file_num_ := v.files.length } : DirWriter) =
      ofLog p { v with buf_ := [], recorder_ := {} } := by
    rw [closed, ofLog, htemp]
    rfl
  have hfuel : ∀ w : DirWriter, w.filesLeft = w.dir.files.length + w.dir.temp.length + 1 := fun _ => rfl
  rw [initializeLog, hlast, getD_some]
  rw [hstart, hfuel, openLog]
  rw [file_ofLog, Nat.div_mul_cancel hpos, take_length, putFile_ofLog, file_ofLog, if_neg (Nat.ne_of_lt hshort)]

end

end DirWriter

/-! ## Sessions on a directory -/

section Directory

variable {p : DirParams} {inflate : Bytes → Bool × Bytes} {v : LogWriter} {dir : LogDir} {ss : List Stored}
  {records : List Bytes}

/-- The files of a log writer hold these blocks, from which these records are read. -/
structure LogHolds (p : DirParams) (inflate : Bytes → Bool × Bytes) (v : LogWriter) (ss : List Stored)
    (records : List Bytes) : Prop where
  pours : v.Pours p.toWriterParams p.blocks_per_file_ {} (ss.flatMap (Stored.bytes (p.toWriterParams.reader inflate)))
  logged : Logged (p.toWriterParams.reader inflate) ss records

/-- A session that begins where a log writer is. -/
theorem LogHolds.session (hp : p.toWriterParams.Admitted) (hsize : 0 < p.fileSize) (h : LogHolds p inflate v ss records)
    (hrecorder : v.recorder_ = {}) (hinit : DirWriter.initializeLog p dir = some (DirWriter.ofLog p v))
    (calls : List WriterCall) :
    ∃ v' ss', logSession p dir calls = some (DirWriter.closed p v') ∧ v'.buf_ = [] ∧
      LogHolds p inflate v' ss' (records ++ calls.flatMap (WriterCall.stored p.toWriterParams)) := by
  obtain ⟨_, _, r, v₂, _, blks, hrun, hfinal, hwrite, hbuf, hpours, hfits, hholds, hflatten⟩ :=
    h.pours.session hp inflate hrecorder calls
  refine ⟨v₂, ss ++ chain (p.toWriterParams.reader inflate) 0 blks, ?_, hbuf, ?_, h.logged.chain hfits hholds hflatten⟩
  · have hnew : new p.toWriterParams = some {} := if_pos hp.size
    have hstart : { ofLog p v with recorder_ := {} } = ofLog p v := by
      rw [ofLog, hrecorder]
    rw [logSession, hnew, bind_some, hinit, bind_some, hstart, run_ofLog hsize, hrun]
    exact close_ofLog hsize hfinal hwrite
  · rw [flatMap_append]
    exact hpours

/-- The first session begins in an empty directory. -/
theorem logSession_first (hp : p.toWriterParams.Admitted) (hsize : 0 < p.fileSize) (inflate : Bytes → Bool × Bytes)
    (calls : List WriterCall) :
    ∃ v' ss', logSession p {} calls = some (DirWriter.closed p v') ∧ v'.buf_ = [] ∧
      LogHolds p inflate v' ss' (calls.flatMap (WriterCall.stored p.toWriterParams)) := by
  have hstart : LogHolds p inflate {} [] [] :=
    ⟨⟨⟨Nat.dvd_zero _, hsize, Nat.dvd_zero _⟩, [], [], rfl, ⟨rfl, nofun, hsize⟩, rfl⟩, Logged.nil _⟩
  exact hstart.session hp hsize rfl (initializeLog_nil hsize) calls

/-- Without temporary files the sessions that follow go on with the log. -/
theorem LogHolds.sessions (hp : p.toWriterParams.Admitted) (htemp : p.temporary_incomplete_file_ = false)
    (h : LogHolds p inflate v ss records) (hbuf : v.buf_ = []) (sessions : List (List WriterCall)) :
    ∃ v' ss', logSessions p (DirWriter.closed p v) sessions = some (DirWriter.closed p v') ∧ v'.buf_ = [] ∧
      LogHolds p inflate v' ss'
        (records ++ sessions.flatMap fun calls => calls.flatMap (WriterCall.stored p.toWriterParams)) := by
  induction sessions generalizing v ss records with
  | nil => exact ⟨v, ss, rfl, hbuf, by rw [flatMap_nil, append_nil]; exact h⟩
  | cons calls sessions ih =>
    have hready := h.pours.ready
    have hreset : LogHolds p inflate { v with buf_ := [], recorder_ := {} } ss records := by
      obtain ⟨-, files, written, hfiles, hsplit, hout⟩ := h.pours
      refine ⟨⟨⟨hready.1, hready.2.1, Nat.dvd_zero _⟩, files, written, hfiles, hsplit, ?_⟩, h.logged⟩
      rw [← hout, hbuf]
    obtain ⟨_, _, hsession, hbuf₁, h₁⟩ := hreset.session hp (Nat.lt_of_le_of_lt (Nat.zero_le _) hready.2.1) rfl
      (initializeLog_closed htemp hready.1 hready.2.1) calls
    obtain ⟨v', ss', hsessions, hbuf', h'⟩ := ih h₁ hbuf₁
    refine ⟨v', ss', run_cons_eq_some.2 ⟨_, hsession, hsessions⟩, hbuf', ?_⟩
    rw [flatMap_cons, ← append_assoc]
    exact h'

/-- The files that a closed log writer has left hold its blocks. -/
theorem LogHolds.storedLog (h : LogHolds p inflate v ss records) (hbuf : v.buf_ = []) :
    StoredLog (p.logReader inflate) (DirWriter.closed p v).files ss := by
  obtain ⟨-, files, _, hfiles, hsplit, hout⟩ := h.pours
  rw [hbuf, append_nil] at hout
  subst hout
  have hholds := hsplit.holdsLog
  have hclosed : (closed p v).files = (files ++ [v.file_]).map some := by
    rw [closed, hfiles]
    rfl
  rw [hclosed]
  exact ⟨h.logged.ok, hholds.pos, hholds.first, hholds.file, hholds.diskSize.ge⟩

/-- A new reader delivers these records from blocks that are in the files. -/
theorem Logged.delivers {d : Disk} (h : Logged (p.toWriterParams.reader inflate) ss records)
    (hstored : StoredLog (p.logReader inflate) d ss) : Delivers (p.logReader inflate) d {} records := by
  obtain ⟨_, hread⟩ := h.read 0
  have hdelivers := hstored.delivers
  have hparams : (p.logReader inflate).toReaderParams = p.toWriterParams.reader inflate := rfl
  rw [hparams, hread, List.map_map] at hdelivers
  simpa [Function.comp_def] using hdelivers

end Directory

end Whispercast.Logio
