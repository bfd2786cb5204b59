import Whispercast.Http.Header

/-!
# Reading the lines of a header

The loop over the field lines is taken line by line (`readHeaderFields_line`). What it reads depends neither
on the worst error so far nor on the last one (`Blind`), so it goes on after a call that ran out of lines as
if the rest had been there (`Suspended`), and it does not look behind the end of the header.
-/

namespace Whispercast.Http

open Io Library List MemoryStream

/-! ## Lines -/

theorem lineOf_of_not_mem {io : Bytes} (h : 10 ∉ io) : lineOf io = none := by
  have hnone : io.findIdx? (· == 10) = none := by
    rw [findIdx?_eq_none_iff]
    intro c hc
    have hne : c ≠ 10 := fun heq => h (heq ▸ hc)
    simpa using hne
  rw [lineOf, hnone]
  rfl

theorem lineOf_line {l : Bytes} (h : 10 ∉ l) (rest : Bytes) : lineOf (l ++ 10 :: rest) = some (l ++ [10]) := by
  have hnone : l.findIdx? (· == 10) = none := by
    rw [findIdx?_eq_none_iff]
    intro c hc
    have hne : c ≠ 10 := fun heq => h (heq ▸ hc)
    simpa using hne
  have hidx : (l ++ 10 :: rest).findIdx? (· == 10) = some l.length := by
    rw [findIdx?_append, hnone]
    simp [findIdx?_cons]
  rw [lineOf, hidx, Option.map_some, take_append, take_of_length_le (Nat.le_succ _),
    Nat.add_sub_cancel_left]
  rfl

theorem readLine_of_not_mem {io : Bytes} (h : 10 ∉ io) : readLine io = (none, io) := by
  rw [readLine, lineOf_of_not_mem h]
  rfl

theorem strTrimCRLF_lf (l : Bytes) : MemoryStream.strTrimCRLF (l ++ [10]) = MemoryStream.strTrimCRLF l := by
  rw [strTrimCRLF, rdropWhile_concat_pos _ _ _ rfl]
  rfl

theorem readLine_line {l : Bytes} (h : 10 ∉ l) (rest : Bytes) :
    readLine (l ++ 10 :: rest) = (some (MemoryStream.strTrimCRLF l), rest) := by
  have hsplit : l ++ 10 :: rest = (l ++ [10]) ++ rest := by simp
  rw [readLine, lineOf_line h, Option.map_some, Option.getD_some, strTrimCRLF_lf, hsplit, drop_left]

/-- Induction over a stream line by line. -/
theorem stream_induction {motive : Bytes → Prop} (tail : ∀ io, 10 ∉ io → motive io)
    (line : ∀ l io, 10 ∉ l → motive io → motive (l ++ 10 :: io)) (io : Bytes) : motive io :=
  Lines.induction tail line io

/-- The complete lines of a stream as `ReadLine` shows them. -/
def headerLines (io : Bytes) : List Bytes := (Lines.lines 10 io).map MemoryStream.strTrimCRLF

theorem headerLines_of_not_mem {io : Bytes} (h : 10 ∉ io) : headerLines io = [] := by
  rw [headerLines, Lines.lines_of_not_mem h, map_nil]

theorem headerLines_line {l : Bytes} (h : 10 ∉ l) (rest : Bytes) :
    headerLines (l ++ 10 :: rest) = MemoryStream.strTrimCRLF l :: headerLines rest := by
  rw [headerLines, Lines.lines_line h, map_cons]
  rfl

namespace ParseError

/-- The errors that only say how far a call came are one. -/
def settled : ParseError → ParseError
  | .init | .ok | .noData => .init
  | e => e

@[simp] theorem settled_settled (e : ParseError) : e.settled.settled = e.settled := by
  cases e <;> rfl

@[simp] theorem settled_max (e p : ParseError) : (e.max p).settled = e.settled.max p.settled := by
  cases e <;> cases p <;> rfl

theorem max_noData_ne_init (p : ParseError) : max .noData p ≠ .init := by
  cases p <;> decide

end ParseError

namespace Header

/-! ## What the reading looks at -/

/-- A header without the traces of the single calls. -/
def view (h : Header) : Header := { h with lastParseError := .init, parseError := h.parseError.settled }

/-- A change of a header that does not depend on the errors so far, except for keeping the worst one. -/
def Blind (f : Header → Header) : Prop := ∀ h, (f h).view = (f h.view).view

variable (h : Header)

theorem view_view : h.view.view = h.view := by
  simp [view]

variable {f : Header → Header} {h' : Header}

theorem Blind.congr (hf : Blind f) {h : Header} (heq : h.view = h'.view) : (f h).view = (f h').view := by
  rw [hf h, heq, ← hf h']

theorem Blind.comp {g : Header → Header} (hg : Blind g) (hf : Blind f) : Blind fun h => g (f h) := by
  intro h
  exact hg.congr (hf h)

/-- Setting fields that do not keep errors is blind. -/
theorem Blind.of_commute (hf : ∀ h, (f h).view = f h.view) : Blind f := by
  intro h
  rw [hf h, hf h.view, view_view]

theorem setParseError_blind (e : ParseError) : Blind fun h => h.setParseError e := by
  intro h
  simp [view, setParseError]

theorem setParseError_noData_view : (h.setParseError .noData).view = h.view := by
  simp only [view, setParseError]
  cases h.parseError <;> rfl

theorem addBytesParsed_blind (n : Nat) : Blind fun h => h.addBytesParsed n :=
  Blind.of_commute fun _ => rfl

theorem parseFirstLine_blind (expected : FirstLineType) (line : Bytes) :
    Blind fun h => h.parseFirstLine expected line := by
  intro h
  simp only [parseFirstLine, parseStatusCode]
  split_ifs <;> simp [view, setParseError]

theorem addCrtParsingData_blind : Blind fun h => h.addCrtParsingData.2 := by
  intro h
  by_cases hname : h.crtParsingFieldName = []
  · simp [addCrtParsingData, view, hname]
  · cases hret : isValidFieldName h.crtParsingFieldName && isValidFieldContent h.crtParsingFieldContent with
    | true => simp [addCrtParsingData, view, hname, hret]
    | false => cases hstrict : h.isStrict <;> simp [addCrtParsingData, setParseError, view, hname, hret, hstrict]

theorem addCrtParsingData_fst_congr {h : Header} (heq : h.view = h'.view) :
    h.addCrtParsingData.1 = h'.addCrtParsingData.1 := by
  have hname : h.view.crtParsingFieldName = h'.view.crtParsingFieldName := by rw [heq]
  have hcontent : h.view.crtParsingFieldContent = h'.view.crtParsingFieldContent := by rw [heq]
  change h.crtParsingFieldName = h'.crtParsingFieldName at hname
  change h.crtParsingFieldContent = h'.crtParsingFieldContent at hcontent
  simp only [addCrtParsingData, hname, hcontent]
  by_cases hnil : h'.crtParsingFieldName = []
  · rw [if_pos hnil, if_pos hnil]
  · rw [if_neg hnil, if_neg hnil]

theorem readFieldLine_blind (line : Bytes) : Blind fun h => h.readFieldLine line := by
  intro h
  simp only [readFieldLine]
  by_cases hlwf : (line.head?.map isLwfChar).getD false = true
  · rw [if_pos hlwf, if_pos hlwf]
    by_cases hname : h.crtParsingFieldName = []
    · have hview : h.view.crtParsingFieldName = [] := hname
      rw [if_pos hname, if_pos hview]
      exact setParseError_blind .noField h
    · have hview : h.view.crtParsingFieldName ≠ [] := hname
      rw [if_neg hname, if_neg hview]
      simp [view]
  · rw [if_neg hlwf, if_neg hlwf]
    by_cases hcolon : 58 ∉ line
    · rw [if_pos hcolon, if_pos hcolon]
      exact (setParseError_blind .noField).comp addCrtParsingData_blind h
    · rw [if_neg hcolon, if_neg hcolon]
      exact (Blind.of_commute (f := fun h => { h with
        crtParsingFieldName := line.takeWhile (· ≠ 58)
        crtParsingFieldContent := ((line.dropWhile (· ≠ 58)).drop 1).dropWhile isLwfChar })
        fun _ => rfl).comp addCrtParsingData_blind h

theorem readLastLine_blind : Blind fun h => h.readLastLine := by
  intro h
  have hfst := addCrtParsingData_fst_congr (view_view h).symm
  have hadd := addCrtParsingData_blind h
  show (if h.addCrtParsingData.1 then h.addCrtParsingData.2.setParseError .ok else h.addCrtParsingData.2).view =
    (if h.view.addCrtParsingData.1 then h.view.addCrtParsingData.2.setParseError .ok
      else h.view.addCrtParsingData.2).view
  rw [← hfst]
  cases h.addCrtParsingData.1 with
  | false => exact hadd
  | true => exact (setParseError_blind .ok).congr hadd

/-! ## The loop over the fields -/

variable (io : Bytes)

theorem readHeaderFieldsLoop_congr : ∀ (n m : Nat) (h : Header), io.length < n → io.length < m →
    readHeaderFieldsLoop n h io = readHeaderFieldsLoop m h io := by
  induction io using stream_induction with
  | tail io hlf =>
    intro n m h hn hm
    cases n with
    | zero => exact absurd hn (Nat.not_lt_zero _)
    | succ n =>
      cases m with
      | zero => exact absurd hm (Nat.not_lt_zero _)
      | succ m => rw [readHeaderFieldsLoop, readHeaderFieldsLoop, readLine_of_not_mem hlf]
  | line l rest hl ih =>
    intro n m h hn hm
    have hlen : (l ++ 10 :: rest).length = l.length + (rest.length + 1) := by simp
    cases n with
    | zero => exact absurd hn (Nat.not_lt_zero _)
    | succ n =>
      cases m with
      | zero => exact absurd hm (Nat.not_lt_zero _)
      | succ m =>
        rw [readHeaderFieldsLoop, readHeaderFieldsLoop, readLine_line hl]
        dsimp only
        rw [ih n m _ (by omega) (by omega)]

theorem readHeaderFields_of_not_mem {io : Bytes} (hlf : 10 ∉ io) (h : Header) :
    h.readHeaderFields io = (false, h.setParseError .noData, io) := by
  rw [readHeaderFields, readHeaderFieldsLoop, readLine_of_not_mem hlf]

theorem readHeaderFields_line {l : Bytes} (hl : 10 ∉ l) (rest : Bytes) (h : Header) :
    h.readHeaderFields (l ++ 10 :: rest) =
      let line := strTrimCRLF l
      let h := h.addBytesParsed line.length
      if line = [] then (true, h.readLastLine, rest) else (h.readFieldLine line).readHeaderFields rest := by
  have hlen : rest.length < (l ++ 10 :: rest).length := by
    rw [length_append, length_cons]
    omega
  rw [readHeaderFields, readHeaderFieldsLoop, readLine_line hl]
  dsimp only
  rw [readHeaderFields, readHeaderFieldsLoop_congr rest _ (rest.length + 1) _ hlen (Nat.lt_succ_self _)]

/-- What a call ends with, without the traces of the single calls. -/
def viewOf (r : Bool × Header × Bytes) : Bool × Header × Bytes := (r.1, r.2.1.view, r.2.2)

theorem readHeaderFields_congr {h : Header} (heq : h.view = h'.view) :
    viewOf (h.readHeaderFields io) = viewOf (h'.readHeaderFields io) := by
  induction io using stream_induction generalizing h h' with
  | tail io hlf =>
    rw [readHeaderFields_of_not_mem hlf, readHeaderFields_of_not_mem hlf, viewOf, viewOf,
      (setParseError_blind .noData).congr heq]
  | line l rest hl ih =>
    rw [readHeaderFields_line hl, readHeaderFields_line hl]
    have hadd := (addBytesParsed_blind (strTrimCRLF l).length).congr heq
    by_cases hempty : strTrimCRLF l = []
    · rw [if_pos hempty, if_pos hempty, viewOf, viewOf, readLastLine_blind.congr hadd]
    · rw [if_neg hempty, if_neg hempty]
      exact ih ((readFieldLine_blind _).congr hadd)

/-- A call that has found the end of the header does not look at what follows. -/
theorem readHeaderFields_append_of_true (x : Bytes) {h : Header} {rest : Bytes}
    (hread : h.readHeaderFields io = (true, h', rest)) :
    h.readHeaderFields (io ++ x) = (true, h', rest ++ x) := by
  induction io using stream_induction generalizing h with
  | tail io hlf =>
    rw [readHeaderFields_of_not_mem hlf] at hread
    cases hread
  | line l io hl ih =>
    rw [readHeaderFields_line hl] at hread
    rw [append_assoc, cons_append, readHeaderFields_line hl]
    by_cases hempty : strTrimCRLF l = []
    · rw [if_pos hempty] at hread ⊢
      cases hread
      rfl
    · rw [if_neg hempty] at hread ⊢
      exact ih hread

/-- A call that has not found the end of the header has read all lines there are, and a later call goes
on from there. -/
structure Suspended (h : Header) (io : Bytes) (h' : Header) (rest : Bytes) : Prop where
  noEnd : [] ∉ headerLines io
  tail : rest = (Lines.split 10 io).2
  bytes : h'.bytesParsed = toInt32 (h.bytesParsed + ((headerLines io).map List.length).sum)
  last : h'.lastParseError = .noData
  started : h'.parseError ≠ .init
  resume : ∀ x, viewOf (h.readHeaderFields (io ++ x)) = viewOf (h'.readHeaderFields (rest ++ x))

theorem addCrtParsingData_bytesParsed : h.addCrtParsingData.2.bytesParsed = h.bytesParsed := by
  simp only [addCrtParsingData]
  split_ifs <;> rfl

theorem readFieldLine_bytesParsed (line : Bytes) : (h.readFieldLine line).bytesParsed = h.bytesParsed := by
  have hadd := addCrtParsingData_bytesParsed h
  simp only [readFieldLine]
  split_ifs
  · rfl
  · rfl
  · exact hadd
  · exact hadd

theorem toInt32_toInt32_add (a b : Int) : toInt32 (toInt32 a + b) = toInt32 (a + b) :=
  Int.bmod_add_bmod

theorem readHeaderFields_suspended {h : Header} {rest : Bytes} (hinit : h.bytesParsed = toInt32 h.bytesParsed)
    (hread : h.readHeaderFields io = (false, h', rest)) : Suspended h io h' rest := by
  induction io using stream_induction generalizing h with
  | tail io hlf =>
    rw [readHeaderFields_of_not_mem hlf] at hread
    cases hread
    constructor
    · simp [headerLines_of_not_mem hlf]
    · rw [Lines.split_of_not_mem hlf]
    · simpa [headerLines_of_not_mem hlf, setParseError] using hinit
    · rfl
    · exact ParseError.max_noData_ne_init _
    · intro x
      exact readHeaderFields_congr _ (setParseError_noData_view h).symm
  | line l io hl ih =>
    rw [readHeaderFields_line hl] at hread
    by_cases hempty : strTrimCRLF l = []
    · rw [if_pos hempty] at hread
      cases hread
    · rw [if_neg hempty] at hread
      have hbytes : ((h.addBytesParsed (strTrimCRLF l).length).readFieldLine
          (strTrimCRLF l)).bytesParsed =
            toInt32 (h.bytesParsed + (strTrimCRLF l).length) :=
        readFieldLine_bytesParsed _ _
      have hrest := ih (by rw [hbytes]; exact (Int.bmod_bmod ..).symm) hread
      constructor
      · rw [headerLines_line hl, mem_cons, not_or]
        exact ⟨fun heq => hempty heq.symm, hrest.noEnd⟩
      · rw [Lines.split_line hl]
        exact hrest.tail
      · rw [hrest.bytes, hbytes, toInt32_toInt32_add, headerLines_line hl, map_cons, sum_cons,
          Int.natCast_add, Int.add_assoc]
      · exact hrest.last
      · exact hrest.started
      · intro x
        rw [append_assoc, cons_append, readHeaderFields_line hl]
        rw [if_neg hempty]
        exact hrest.resume x

theorem readLastLine_bytesParsed : h.readLastLine.bytesParsed = h.bytesParsed := by
  have hadd := addCrtParsingData_bytesParsed h
  simp only [readLastLine]
  split_ifs
  · exact hadd
  · exact hadd

/-- What a call counts is no more than what it takes. -/
theorem readHeaderFields_counted {h : Header} {rest : Bytes} {done : Bool}
    (hint : toInt32 h.bytesParsed = h.bytesParsed) (hread : h.readHeaderFields io = (done, h', rest)) :
    ∃ k : Nat, k + rest.length ≤ io.length ∧ h'.bytesParsed = toInt32 (h.bytesParsed + k) := by
  induction io using stream_induction generalizing h with
  | tail io hlf =>
    rw [readHeaderFields_of_not_mem hlf] at hread
    cases hread
    exact ⟨0, by omega, by rw [Int.natCast_zero, Int.add_zero, hint]; rfl⟩
  | line l io hl ih =>
    rw [readHeaderFields_line hl] at hread
    dsimp only at hread
    split_ifs at hread with hempty
    · cases hread
      refine ⟨(strTrimCRLF l).length, ?_, ?_⟩
      · rw [hempty, length_append, length_cons]
        simp only [length_nil]
        omega
      · rw [readLastLine_bytesParsed]
        rfl
    · have hbytes : ((h.addBytesParsed (strTrimCRLF l).length).readFieldLine
          (strTrimCRLF l)).bytesParsed =
            toInt32 (h.bytesParsed + (strTrimCRLF l).length) := readFieldLine_bytesParsed _ _
      obtain ⟨k, _, hcount⟩ := ih (by rw [hbytes]; exact toInt32_toInt32 _) hread
      have htrim : (strTrimCRLF l).length ≤ l.length := ( rdropWhile_prefix _ _).length_le
      refine ⟨(strTrimCRLF l).length + k, ?_, ?_⟩
      · rw [length_append, length_cons]
        omega
      · rw [hcount, hbytes, toInt32_toInt32_add, Int.natCast_add, Int.add_assoc]

end Header

end Whispercast.Http
