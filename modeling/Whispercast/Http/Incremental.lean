import Whispercast.Http.HeaderRead

/-!
# Header parsing in pieces

A header that has arrived in part is read as far as there are lines, and a later call goes on. Where it has
to go on is guessed from `bytesParsed`. The guess is wrong when lines were read but `bytesParsed` is 0: after
an empty first line, and when the sizes of the lines add up to a multiple of 2³². With all other pieces the
calls have the outcome of a single call (`incremental_iff`).
-/

namespace Whispercast.Http

open Io Library Header List ParseError Lines MemoryStream

namespace Header

/-! ## Calls on a cleared header -/

/-- What `ParseHeader` does on a cleared header, where no `CHECK` can fail. -/
def parseCleared (isStrict : Bool) (expected : FirstLineType) (io : Bytes) : Bool × Header × Bytes :=
  match (cleared isStrict).readFirstLine io expected with
  | (false, h, io) => (false, h, io)
  | (true, h, io) => h.readHeaderFields io

section Calls

variable {isStrict : Bool} {expected : FirstLineType}

theorem parseHeader_cleared (isStrict : Bool) (expected : FirstLineType) (io : Bytes) :
    (cleared isStrict).parseHeader io expected = some (parseCleared isStrict expected io) := by
  rw [parseHeader, parseCleared]
  rcases readFirstLine (cleared isStrict) io expected with ⟨done, h, -⟩
  cases done <;> rfl

variable {io : Bytes}

theorem readFirstLine_of_not_mem (hlf : 10 ∉ io) (h : Header) :
    h.readFirstLine io expected = (false, h.setParseError .noData, io) := by
  rw [readFirstLine, readLine_of_not_mem hlf]

theorem readFirstLine_line {l : Bytes} (hl : 10 ∉ l) (rest : Bytes) (h : Header) :
    h.readFirstLine (l ++ 10 :: rest) expected =
      (true, (h.addBytesParsed (MemoryStream.strTrimCRLF l).length).parseFirstLine expected
        (MemoryStream.strTrimCRLF l), rest) := by
  rw [readFirstLine, readLine_line hl]

theorem parseFirstLine_bytesParsed (h : Header) (line : Bytes) :
    (h.parseFirstLine expected line).bytesParsed = h.bytesParsed := by
  simp only [parseFirstLine, parseStatusCode, setParseError]
  split_ifs <;> rfl

/-- A header whose first line has not come yet: a call would do the same with a cleared one. -/
structure Fresh (isStrict : Bool) (h : Header) : Prop where
  view_eq : h.view = (cleared isStrict).view
  last : h.lastParseError ≠ .ok
  error : h.parseError = .init ∨ h.parseError = .noData

theorem fresh_cleared (isStrict : Bool) : Fresh isStrict (cleared isStrict) := ⟨rfl, noConfusion, Or.inl rfl⟩

variable {h : Header}

theorem Fresh.bytesParsed (hf : Fresh isStrict h) : h.bytesParsed = 0 := by
  have heq : h.view.bytesParsed = (cleared isStrict).view.bytesParsed := by rw [hf.view_eq]
  exact heq

theorem Fresh.noData (hf : Fresh isStrict h) : Fresh isStrict (h.setParseError .noData) := by
  constructor
  · rw [setParseError_noData_view, hf.view_eq]
  · exact noConfusion
  · rcases hf.error with herr | herr
    · rw [setParseError, herr]
      exact Or.inr rfl
    · rw [setParseError, herr]
      exact Or.inr rfl

/-- A call on a header whose first line has not come yet. -/
theorem Fresh.parseHeader (hf : Fresh isStrict h) (io : Bytes) :
    h.parseHeader io expected = some (match h.readFirstLine io expected with
      | (false, h, io) => (false, h, io)
      | (true, h, io) => h.readHeaderFields io) := by
  rw [Header.parseHeader, guard, if_pos (by simpa using hf.last), hf.bytesParsed, if_pos rfl, guard, if_pos hf.error]
  rcases h.readFirstLine io expected with ⟨done, -, -⟩
  cases done <;> rfl

/-- The lines of a header that has arrived in part: the first line, and fields behind it but no end. -/
def Open (b : Bytes) : Prop := headerLines b ≠ [] ∧ [] ∉ (headerLines b).tail

/-- The header is read up to the last line of `b`, with `rest` behind it. -/
structure Midway (isStrict : Bool) (expected : FirstLineType) (b : Bytes) (h : Header) (rest : Bytes) : Prop where
  opened : Open b
  tail : rest = (Lines.split 10 b).2
  bytes : h.bytesParsed = toInt32 ((headerLines b).map List.length).sum
  last : h.lastParseError = .noData
  started : h.parseError ≠ .init
  resume : ∀ x, viewOf (parseCleared isStrict expected (b ++ x)) = viewOf (h.readHeaderFields (rest ++ x))

theorem parseCleared_line {l : Bytes} (hl : 10 ∉ l) (rest : Bytes) : parseCleared isStrict expected (l ++ 10 :: rest) =
      (((cleared isStrict).addBytesParsed (MemoryStream.strTrimCRLF l).length).parseFirstLine expected
        (MemoryStream.strTrimCRLF l)).readHeaderFields rest := by
  rw [parseCleared, readFirstLine_line hl]

/-- A call on a header whose first line has not come yet waits for the line, is through with the header, or
stops midway. -/
theorem Fresh.call (hf : Fresh isStrict h) (expected : FirstLineType) (b : Bytes) :
    (10 ∉ b ∧ h.parseHeader b expected = some (false, h.setParseError .noData, b)) ∨
      ∃ done h' rest, h.parseHeader b expected = some (done, h', rest) ∧
        viewOf (done, h', rest) = viewOf (parseCleared isStrict expected b) ∧
        (done = false → Midway isStrict expected b h' rest) := by
  rw [hf.parseHeader]
  by_cases hlf : 10 ∈ b
  · right
    obtain ⟨l, io, hl, rfl⟩ := exists_line hlf
    rw [readFirstLine_line hl]
    have hadd := (addBytesParsed_blind (strTrimCRLF l).length).congr hf.view_eq
    have hfirst := (parseFirstLine_blind expected (strTrimCRLF l)).congr hadd
    have hbytes : ((h.addBytesParsed (strTrimCRLF l).length).parseFirstLine expected
        (strTrimCRLF l)).bytesParsed = toInt32 (strTrimCRLF l).length := by
      rw [parseFirstLine_bytesParsed, addBytesParsed]
      rw [hf.bytesParsed, Int.zero_add]
    revert hbytes hfirst
    generalize (h.addBytesParsed (strTrimCRLF l).length).parseFirstLine expected
        (strTrimCRLF l) = h₁
    intro hfirst hbytes
    rcases hread : h₁.readHeaderFields io with ⟨done, h', rest⟩
    refine ⟨done, h', rest, congrArg some hread, ?_, ?_⟩
    · rw [parseCleared_line hl, ← hread]
      exact readHeaderFields_congr io hfirst
    · rintro rfl
      have hsus := readHeaderFields_suspended io (by rw [hbytes]; exact (Int.bmod_bmod ..).symm) hread
      constructor
      · constructor
        · rw [headerLines_line hl]
          exact cons_ne_nil _ _
        · rw [headerLines_line hl, tail_cons]
          exact hsus.noEnd
      · rw [split_line hl]
        exact hsus.tail
      · rw [hsus.bytes, hbytes, toInt32_toInt32_add, headerLines_line hl, map_cons, sum_cons,
          Int.natCast_add]
      · exact hsus.last
      · exact hsus.started
      · intro x
        rw [append_assoc, cons_append, parseCleared_line hl, ← hsus.resume x]
        exact readHeaderFields_congr _ hfirst.symm
  · left
    rw [readFirstLine_of_not_mem hlf]
    exact ⟨hlf, rfl⟩

theorem headerLines_append (b p : Bytes) :
    headerLines (b ++ p) = headerLines b ++ headerLines ((Lines.split 10 b).2 ++ p) := by
  rw [headerLines, lines_append, map_append]
  rfl

theorem split_append_snd (b p : Bytes) :
    (Lines.split 10 (b ++ p)).2 = (Lines.split 10 ((Lines.split 10 b).2 ++ p)).2 := by
  induction b using stream_induction with
  | tail b h => rw [split_of_not_mem h]
  | line l b h ih => rw [append_assoc, cons_append, split_line h, split_line h, ih]

variable {b rest : Bytes}

/-- A call in the middle of a header goes on with the fields unless `bytesParsed` is 0. -/
theorem Midway.call (hm : Midway isStrict expected b h rest) (hbytes : h.bytesParsed ≠ 0) (p : Bytes) :
    ∃ done h' rest', h.parseHeader (rest ++ p) expected = some (done, h', rest') ∧
      viewOf (done, h', rest') = viewOf (parseCleared isStrict expected (b ++ p)) ∧
      (done = false → Midway isStrict expected (b ++ p) h' rest') := by
  have hcall : h.parseHeader (rest ++ p) expected = some (h.readHeaderFields (rest ++ p)) := by
    have hlast : h.lastParseError ≠ .ok := by
      rw [hm.last]
      exact noConfusion
    rw [parseHeader, guard, if_pos hlast, if_neg hbytes, guard, if_pos hm.started]
    rfl
  rcases hread : h.readHeaderFields (rest ++ p) with ⟨done, h', rest'⟩
  refine ⟨done, h', rest', ?_, ?_, ?_⟩
  · rw [hcall, hread]
  · rw [hm.resume p, hread]
  · rintro rfl
    have hint : h.bytesParsed = toInt32 h.bytesParsed := by
      rw [hm.bytes]
      exact (Int.bmod_bmod ..).symm
    have hsus := readHeaderFields_suspended _ hint hread
    have hlines : headerLines (b ++ p) = headerLines b ++ headerLines (rest ++ p) := by
      rw [headerLines_append, hm.tail]
    constructor
    · constructor
      · rw [hlines]
        exact append_ne_nil_of_left_ne_nil hm.opened.1 _
      · rw [hlines, tail_append_of_ne_nil hm.opened.1, mem_append, not_or]
        exact ⟨hm.opened.2, hsus.noEnd⟩
    · rw [split_append_snd, ← hm.tail]
      exact hsus.tail
    · rw [hsus.bytes, hm.bytes, toInt32_toInt32_add, hlines, map_append, sum_append, Int.natCast_add]
    · exact hsus.last
    · exact hsus.started
    · intro x
      rw [append_assoc, hm.resume, ← hsus.resume, append_assoc]

/-- How far the reading of a header is when the bytes `b` have come and it is not at the end of the header. -/
def Progress (isStrict : Bool) (expected : FirstLineType) (b : Bytes) (h : Header) (rest : Bytes) : Prop :=
  (Fresh isStrict h ∧ 10 ∉ b ∧ rest = b) ∨ Midway isStrict expected b h rest

theorem Progress.call (hp : Progress isStrict expected b h rest) (hopen : Open b → h.bytesParsed ≠ 0) (p : Bytes) :
    ∃ done h' rest', h.parseHeader (rest ++ p) expected = some (done, h', rest') ∧
      viewOf (done, h', rest') = viewOf (parseCleared isStrict expected (b ++ p)) ∧
      (done = false → Progress isStrict expected (b ++ p) h' rest') := by
  rcases hp with ⟨hf, -, rfl⟩ | hm
  · rcases hf.call expected (rest ++ p) with ⟨hlf', hcall⟩ | ⟨done, h', rest', hcall, hview, hmid⟩
    · refine ⟨false, _, _, hcall, ?_, fun _ => Or.inl ⟨hf.noData, hlf', rfl⟩⟩
      rw [parseCleared, readFirstLine_of_not_mem hlf', viewOf, viewOf,
        (setParseError_blind .noData).congr hf.view_eq]
    · exact ⟨done, h', rest', hcall, hview, fun hdone => Or.inr (hmid hdone)⟩
  · obtain ⟨done, h', rest', hcall, hview, hmid⟩ := hm.call (hopen hm.opened) p
    exact ⟨done, h', rest', hcall, hview, fun hdone => Or.inr (hmid hdone)⟩

/-- Where nothing more comes, a single call is just as far. -/
theorem Progress.view_eq (hp : Progress isStrict expected b h rest) :
    viewOf (false, h, rest) = viewOf (parseCleared isStrict expected b) := by
  rcases hp with ⟨hf, hlf, rfl⟩ | hm
  · rw [parseCleared, readFirstLine_of_not_mem hlf, viewOf, viewOf, setParseError_noData_view, hf.view_eq]
  · have hresume := hm.resume []
    have hlf : 10 ∉ rest := by
      rw [hm.tail]
      exact not_mem_split_snd b
    rw [append_nil, append_nil, readHeaderFields_of_not_mem hlf] at hresume
    rw [hresume, viewOf, viewOf, setParseError_noData_view]

theorem parseCleared_append_of_true (hread : parseCleared isStrict expected io = (true, h, rest)) (x : Bytes) :
    parseCleared isStrict expected (io ++ x) = (true, h, rest ++ x) := by
  by_cases hlf : 10 ∈ io
  · obtain ⟨l, io, hl, rfl⟩ := exists_line hlf
    rw [parseCleared_line hl] at hread
    rw [append_assoc, cons_append, parseCleared_line hl]
    exact readHeaderFields_append_of_true io x hread
  · rw [parseCleared, readFirstLine_of_not_mem hlf] at hread
    cases hread

/-! ## Runs -/

/-- Repeated calls: every piece is appended to what is left of the stream, and the call that finds the end of
the header is the last one. -/
def parsePieces (expected : FirstLineType) : Header → Bytes → List Bytes → Option (Bool × Header × Bytes)
  | h, io, [] => some (false, h, io)
  | h, io, p :: ps => do
      let (done, h, io) ← h.parseHeader (io ++ p) expected
      if done then some (true, h, io ++ ps.flatten) else parsePieces expected h io ps

/-- No call but the last leaves lines read and `bytesParsed` 0: as long as the header has lines but no end,
the sizes of its lines do not add up to a multiple of 2³². -/
def Resumable (b : Bytes) (ps : List Bytes) : Prop :=
  ∀ k < ps.length, Open (b ++ (ps.take k).flatten) →
    ((headerLines (b ++ (ps.take k).flatten)).map List.length).sum % 2 ^ 32 ≠ 0

instance (b : Bytes) : Decidable (Open b) := inferInstanceAs (Decidable (_ ∧ _))

instance (b : Bytes) (ps : List Bytes) : Decidable (Resumable b ps) :=
  inferInstanceAs (Decidable (∀ k < ps.length, _))

variable {ps : List Bytes}

theorem Resumable.tail {p : Bytes} (h : Resumable b (p :: ps)) : Resumable (b ++ p) ps := by
  intro k hk
  have hnext := h (k + 1) (Nat.succ_lt_succ hk)
  rwa [take_succ_cons, flatten_cons, ← append_assoc] at hnext

theorem toInt32_eq_zero {n : Nat} (h : toInt32 n = 0) : n % 2 ^ 32 = 0 := by
  have hdvd : ((2 ^ 32 : Nat) : Int) ∣ (n : Int) := Int.dvd_iff_bmod_eq_zero.2 h
  exact Nat.mod_eq_zero_of_dvd (Int.natCast_dvd_natCast.1 hdvd)

/-- The calls on the pieces are as far as a single call on all of them. -/
theorem Progress.parsePieces (hp : Progress isStrict expected b h rest) (hgo : Resumable b ps) :
    ∃ r, parsePieces expected h rest ps = some r ∧
      viewOf r = viewOf (parseCleared isStrict expected (b ++ ps.flatten)) := by
  induction ps generalizing b h rest with
  | nil =>
    rw [flatten_nil, append_nil]
    exact ⟨_, rfl, hp.view_eq⟩
  | cons p ps ih =>
    have hopen : Open b → h.bytesParsed ≠ 0 := by
      intro hopen hzero
      rcases hp with ⟨-, hlf, -⟩ | hm
      · exact hopen.1 (headerLines_of_not_mem hlf)
      · have hsum := hgo 0 (Nat.zero_lt_succ _)
        rw [take_zero, flatten_nil, append_nil] at hsum
        rw [hm.bytes] at hzero
        exact hsum hopen (toInt32_eq_zero hzero)
    obtain ⟨done, h', rest', hcall, hview, hprogress⟩ := hp.call hopen p
    rw [Header.parsePieces, hcall, flatten_cons, ← append_assoc]
    cases done with
    | true =>
      refine ⟨_, rfl, ?_⟩
      rcases hread : parseCleared isStrict expected (b ++ p) with ⟨done, h'', rest''⟩
      rw [hread] at hview
      obtain ⟨rfl, hh, rfl⟩ : true = done ∧ h'.view = h''.view ∧ rest' = rest'' := by
        simpa [viewOf] using hview
      rw [parseCleared_append_of_true hread, viewOf, viewOf, hh]
    | false => exact ih (hprogress rfl) hgo.tail

/-! ## Incremental parsing -/

/-- A field that is refused leaves its error. -/
theorem addCrtParsingData_of_refused (hret : h.addCrtParsingData.1 = false) :
    h.addCrtParsingData.2.parseError = ParseError.max .badFieldSpec h.parseError := by
  by_cases hname : h.crtParsingFieldName = []
  · simp [addCrtParsingData, hname] at hret
  · simp only [addCrtParsingData, if_neg hname] at hret ⊢
    simp only [hret, Bool.false_eq_true, if_false]
    split_ifs <;> rfl

theorem readLastLine_parseError (h : Header) : h.readLastLine.parseError ≠ .init := by
  show (if h.addCrtParsingData.1 then h.addCrtParsingData.2.setParseError .ok
    else h.addCrtParsingData.2).parseError ≠ .init
  cases hret : h.addCrtParsingData.1 with
  | true =>
    show ParseError.max .ok _ ≠ .init
    cases h.addCrtParsingData.2.parseError <;> decide
  | false =>
    show h.addCrtParsingData.2.parseError ≠ .init
    rw [addCrtParsingData_of_refused hret]
    cases h.parseError <;> decide

theorem readHeaderFields_parseError (io : Bytes) (h : Header) : (h.readHeaderFields io).2.1.parseError ≠ .init := by
  induction io using stream_induction generalizing h with
  | tail io hlf =>
    rw [readHeaderFields_of_not_mem hlf]
    exact max_noData_ne_init _
  | line l io hl ih =>
    rw [readHeaderFields_line hl]
    dsimp only
    split_ifs with hempty
    · exact readLastLine_parseError _
    · exact ih _

theorem parseHeader_parseError {h' : Header} {done : Bool}
    (hcall : h.parseHeader io expected = some (done, h', rest)) : h'.parseError ≠ .init := by
  have hfields := fun (h : Header) (io : Bytes) => readHeaderFields_parseError io h
  simp only [parseHeader, guard] at hcall
  split_ifs at hcall with hlast hzero herr herr
  · rcases hfirst : h.readFirstLine io expected with ⟨found, h₁, io₁⟩
    rw [hfirst] at hcall
    cases found with
    | false =>
      obtain rfl : h₁ = h' := by simpa using congrArg (Option.map fun r => r.2.1) hcall
      rw [readFirstLine] at hfirst
      rcases hline : readLine io with ⟨_ | _, _⟩
      · rw [hline] at hfirst
        cases hfirst
        exact max_noData_ne_init _
      · rw [hline] at hfirst
        cases hfirst
    | true =>
      have hread : h₁.readHeaderFields io₁ = (done, h', rest) := by simpa using hcall
      have hne := hfields h₁ io₁
      rwa [hread] at hne
  · exact absurd hcall (by simp)
  · have hread : h.readHeaderFields io = (done, h', rest) := by simpa using hcall
    have hne := hfields h io
    rwa [hread] at hne
  -- In all other cases a `CHECK` fails.
  all_goals exact absurd hcall (by simp)

theorem parsePieces_parseError {p : Bytes} {r : Bool × Header × Bytes}
    (hrun : parsePieces expected h io (p :: ps) = some r) : r.2.1.parseError ≠ .init := by
  induction ps generalizing h io p with
  | nil =>
    rw [parsePieces] at hrun
    rcases hcall : h.parseHeader (io ++ p) expected with _ | ⟨done, h', io'⟩
    · rw [hcall] at hrun
      cases hrun
    · rw [hcall] at hrun
      have hne := parseHeader_parseError hcall
      cases done with
      | true =>
        cases hrun
        exact hne
      | false =>
        cases hrun
        exact hne
  | cons q ps ih =>
    rw [parsePieces] at hrun
    rcases hcall : h.parseHeader (io ++ p) expected with _ | ⟨done, h', io'⟩
    · rw [hcall] at hrun
      cases hrun
    · rw [hcall] at hrun
      cases done with
      | true =>
        cases hrun
        exact parseHeader_parseError hcall
      | false => exact ih hrun

/-- The worst error as it is compared between a reading in one call and one in several: the end of the data
counts as no error. -/
def comparedError (e : ParseError) : ParseError := if e = .ok then .noData else e

/-- Two readings have ended alike: both or none at the end of the header, with the same first line, the same
fields, the same worst error and the same bytes left. -/
structure SameOutcome (r r' : Bool × Header × Bytes) : Prop where
  done : r.1 = r'.1
  httpVersion : r.2.1.httpVersion = r'.2.1.httpVersion
  method : r.2.1.method = r'.2.1.method
  uri : r.2.1.uri = r'.2.1.uri
  statusCode : r.2.1.statusCode = r'.2.1.statusCode
  reason : r.2.1.reason = r'.2.1.reason
  firstLineType : r.2.1.firstLineType = r'.2.1.firstLineType
  fields : r.2.1.fields = r'.2.1.fields
  parseError : comparedError r.2.1.parseError = comparedError r'.2.1.parseError
  rest : r.2.2 = r'.2.2

theorem comparedError_eq {e e' : ParseError} (h : e.settled = e'.settled) (he : e ≠ .init) (he' : e' ≠ .init) :
    comparedError e = comparedError e' := by
  revert h he he'
  cases e <;> cases e' <;> decide

theorem SameOutcome.of_view {r r' : Bool × Header × Bytes} (h : viewOf r = viewOf r')
    (hr : r.2.1.parseError ≠ .init) (hr' : r'.2.1.parseError ≠ .init) : SameOutcome r r' := by
  have hhead : r.2.1.view = r'.2.1.view := congrArg (fun r => r.2.1) h
  have hfield : ∀ {α : Type} (f : Header → α), f r.2.1.view = f r'.2.1.view := fun f => congrArg f hhead
  constructor
  · exact congrArg (fun r => r.1) h
  · exact hfield Header.httpVersion
  · exact hfield Header.method
  · exact hfield Header.uri
  · exact hfield Header.statusCode
  · exact hfield Header.reason
  · exact hfield Header.firstLineType
  · exact hfield Header.fields
  · exact comparedError_eq (hfield Header.parseError) hr hr'
  · exact congrArg (fun r => r.2.2) h

/-- No `CHECK` fails while a cleared header is read from the pieces, and the calls have the outcome of a single
call on all of them. -/
def Incremental (isStrict : Bool) (expected : FirstLineType) (ps : List Bytes) : Prop :=
  ∃ r r', parsePieces expected (cleared isStrict) [] ps = some r ∧
    (cleared isStrict).parseHeader ps.flatten expected = some r' ∧ SameOutcome r r'

theorem incremental_of_resumable {p : Bytes} (h : Resumable [] (p :: ps)) :
    Incremental isStrict expected (p :: ps) := by
  have hstart : Progress isStrict expected [] (cleared isStrict) [] :=
    Or.inl ⟨fresh_cleared isStrict, not_mem_nil, rfl⟩
  obtain ⟨r, hrun, hview⟩ := hstart.parsePieces h
  have hsingle := parseHeader_cleared isStrict expected (p :: ps).flatten
  exact ⟨r, _, hrun, hsingle, .of_view hview (parsePieces_parseError hrun) (parseHeader_parseError hsingle)⟩

/-! ## Where a call cannot go on -/

theorem headerLines_ne_nil (h : 10 ∈ b) : headerLines b ≠ [] := by
  intro hnil
  exact lines_ne_nil h (map_eq_nil_iff.1 hnil)

/-- An empty first line is an error that no other error exceeds. -/
theorem parseFirstLine_nil (expected : FirstLineType) (herr : h.parseError = .init ∨ h.parseError = .noData) :
    (h.parseFirstLine expected []).parseError = .noRequestUri ∨
      (h.parseFirstLine expected []).parseError = .noStatusCode := by
  rw [parseFirstLine, if_pos not_mem_nil]
  by_cases hexp : expected = .requestLine
  · left
    rcases herr with herr | herr
    · simp [hexp, setParseError, herr, ParseError.max, ParseError.toNat]
    · simp [hexp, setParseError, herr, ParseError.max, ParseError.toNat]
  · right
    rcases herr with herr | herr
    · simp [hexp, setParseError, herr, ParseError.max, ParseError.toNat]
    · simp [hexp, setParseError, herr, ParseError.max, ParseError.toNat]

/-- After a call that has read an empty first line and nothing else, the next one aborts. -/
theorem Fresh.call_emptyLine (hf : Fresh isStrict h) (expected : FirstLineType) (hb : headerLines b = [[]]) :
    ∃ h' rest, h.parseHeader b expected = some (false, h', rest) ∧
      ∀ io, h'.parseHeader io expected = none := by
  have hlf : 10 ∈ b := by
    by_contra hlf
    rw [headerLines_of_not_mem hlf] at hb
    cases hb
  obtain ⟨l, io, hl, rfl⟩ := exists_line hlf
  rw [headerLines_line hl, List.cons.injEq] at hb
  have hio : 10 ∉ io := fun hmem => headerLines_ne_nil hmem hb.2
  rw [hf.parseHeader, readFirstLine_line hl, hb.1]
  dsimp only
  rw [readHeaderFields_of_not_mem hio]
  refine ⟨_, _, rfl, ?_⟩
  intro io'
  have hbytes : (((h.addBytesParsed 0).parseFirstLine expected []).setParseError .noData).bytesParsed = 0 := by
    show ((h.addBytesParsed 0).parseFirstLine expected []).bytesParsed = 0
    rw [parseFirstLine_bytesParsed]
    show toInt32 (h.bytesParsed + 0) = 0
    rw [hf.bytesParsed]
    rfl
  have herr : ¬ ((((h.addBytesParsed 0).parseFirstLine expected []).setParseError .noData).parseError = .init ∨
      (((h.addBytesParsed 0).parseFirstLine expected []).setParseError .noData).parseError = .noData) := by
    show ¬ (ParseError.max .noData _ = .init ∨ ParseError.max .noData _ = .noData)
    have herr : (h.addBytesParsed 0).parseError = .init ∨ (h.addBytesParsed 0).parseError = .noData := hf.error
    rcases parseFirstLine_nil expected herr with heq | heq
    · rw [heq]
      decide
    · rw [heq]
      decide
  rw [Header.parseHeader, List.length_nil, if_pos hbytes]
  simp only [guard, if_neg herr]
  split_ifs <;> rfl

/-- When there is nothing but an empty line and then another piece comes, a `CHECK` fails. -/
theorem Fresh.parsePieces_none (hf : Fresh isStrict h) (expected : FirstLineType)
    (hlf : 10 ∉ b) {k : Nat} (hk : k < ps.length) (hlines : headerLines (b ++ (ps.take k).flatten) = [[]]) :
    parsePieces expected h b ps = none := by
  induction ps generalizing h b k with
  | nil => exact absurd hk (Nat.not_lt_zero _)
  | cons p ps ih =>
    cases k with
    | zero =>
      rw [take_zero, flatten_nil, append_nil, headerLines_of_not_mem hlf] at hlines
      cases hlines
    | succ k =>
      have hk' : k < ps.length := Nat.lt_of_succ_lt_succ hk
      rw [take_succ_cons, flatten_cons, ← append_assoc] at hlines
      rw [parsePieces]
      by_cases hmem : 10 ∈ b ++ p
      · -- The empty line is in this piece.
        have hone : headerLines (b ++ p) = [[]] := by
          rw [headerLines_append] at hlines
          rcases append_eq_singleton_iff.1 hlines with ⟨hnil, -⟩ | ⟨hone, -⟩
          · exact absurd hnil (headerLines_ne_nil hmem)
          · exact hone
        obtain ⟨h', rest, hcall, hnext⟩ := hf.call_emptyLine expected hone
        rw [hcall]
        cases ps with
        | nil => exact absurd hk' (Nat.not_lt_zero _)
        | cons q ps =>
          show parsePieces expected h' rest (q :: ps) = none
          rw [parsePieces, hnext]
          rfl
      · rw [hf.parseHeader, readFirstLine_of_not_mem hmem]
        exact ih hf.noData hmem hk' hlines

theorem sum_headerLines_le (b : Bytes) : ((headerLines b).map List.length).sum ≤ b.length := by
  induction b using stream_induction with
  | tail b h =>
    rw [headerLines_of_not_mem h]
    exact Nat.zero_le _
  | line l b h ih =>
    have hle : (strTrimCRLF l).length ≤ l.length := ( rdropWhile_prefix _ l).length_le
    rw [headerLines_line h, map_cons, sum_cons, length_append, length_cons]
    omega

theorem eq_nil_of_sum_eq_zero {ls : List Bytes} (hsum : (ls.map List.length).sum = 0) {l : Bytes} (hl : l ∈ ls) :
    l = [] := by
  induction ls with
  | nil => exact absurd hl not_mem_nil
  | cons l' ls ih =>
    rw [map_cons, sum_cons, Nat.add_eq_zero_iff] at hsum
    rcases mem_cons.1 hl with rfl | hmem
    · exact length_eq_zero_iff.1 hsum.1
    · exact ih hsum.2 hmem

/-- Below 2³² bytes an empty first line is the only way to lose the place. -/
theorem emptyLine_of_sum (hopen : Open b) (hlen : b.length < 2 ^ 32)
    (hsum : ((headerLines b).map List.length).sum % 2 ^ 32 = 0) : headerLines b = [[]] := by
  have hzero : ((headerLines b).map length).sum = 0 := by
    rwa [Nat.mod_eq_of_lt (Nat.lt_of_le_of_lt (sum_headerLines_le b) hlen)] at hsum
  obtain ⟨hne, htail⟩ := hopen
  rcases hlines : headerLines b with _ | ⟨l, ls⟩
  · exact absurd hlines hne
  · rw [hlines] at hzero htail
    have hl : l = [] := eq_nil_of_sum_eq_zero hzero mem_cons_self
    cases ls with
    | nil => rw [hl]
    | cons l' ls =>
      have hl' : l' = [] := eq_nil_of_sum_eq_zero hzero (by simp)
      rw [hl'] at htail
      exact absurd (by simp) htail

/-- A header is read the same from pieces as in one call if the calls do not lose their place; below 2³²
bytes, only then. -/
theorem incremental_iff (isStrict : Bool) (expected : FirstLineType) (p : Bytes) (ps : List Bytes) :
    (Resumable [] (p :: ps) → Incremental isStrict expected (p :: ps)) ∧
      ((p :: ps).flatten.length < 2 ^ 32 → Incremental isStrict expected (p :: ps) → Resumable [] (p :: ps)) := by
  refine ⟨incremental_of_resumable, ?_⟩
  rintro hlen ⟨r, -, hrun, -⟩ k hk hopen hsum
  have hfront : ((p :: ps).take k).flatten.length ≤ (p :: ps).flatten.length := by
    conv_rhs => rw [← take_append_drop k (p :: ps), flatten_append, length_append]
    exact Nat.le_add_right _ _
  have hlines := emptyLine_of_sum hopen (Nat.lt_of_le_of_lt hfront hlen) hsum
  have hnone := (fresh_cleared isStrict).parsePieces_none expected not_mem_nil hk hlines
  rw [hnone] at hrun
  cases hrun

theorem incremental_cutField : Incremental true .requestLine
    [ascii "GET / HT", ascii "TP/1.1" ++ crlf ++ ascii "Host: a", crlf ++ crlf ++ ascii "body"] :=
  (incremental_iff _ _ _ _).1 (by decide)

/-- A request after an empty line: in one call the line is an error, in two calls a `CHECK` fails. -/
theorem not_incremental_emptyLine :
    ¬ Incremental true .requestLine [crlf, ascii "GET / HTTP/1.1" ++ crlf ++ crlf] := by
  rintro ⟨r, -, hrun, -⟩
  have hnone : parsePieces .requestLine (cleared true) [] [crlf, ascii "GET / HTTP/1.1" ++ crlf ++ crlf] = none := by
    decide
  cases hrun

end Calls

end Header

end Whispercast.Http
