import Whispercast.Http.Incremental
import Whispercast.Http.Reply

/-!
# The header of a reply, read back

A header that `AddField` has filled is read back as far as the status code and the fields go: the first line
(`parseFirstLine_status`), the lines of the fields (`readHeaderFields_fields`), and the whole text
(`parseCleared_toBytes`). Names come back in their normal form, contents without the blanks around them.
-/

namespace Whispercast.Http

open Io Library List HttpReturnCode MemoryStream

/-- A status code is read as it was written. -/
theorem ofInt_toInt (code : HttpReturnCode) : HttpReturnCode.ofInt (toInt32 code.toInt) = code := by
  rw [toInt, toInt32_toInt32, ofInt, toInt32]
  have hmod : ((code.toNat : Int).bmod (2 ^ 32)) % 2 ^ 32 = code.toNat := by
    have hlt := code.toNat_lt
    rw [show (2 : Int) ^ 32 = ((2 ^ 32 : Nat) : Int) from rfl, Int.bmod_emod]
    omega
  rw [UInt32.ofInt, hmod, Int.toNat_natCast, UInt32.ofNat_toNat]

namespace Header

/-! ## Fields -/

/-- A field as `AddField` accepts it, without a line break in its content. -/
structure ProperField (e : Bytes × Bytes) : Prop where
  name : isValidFieldName e.1 = true
  content : isValidFieldContent e.2 = true
  oneLine : 10 ∉ e.2

/-- A content as it is shown to who reads it. -/
def shownContent (content : Bytes) : Bytes := (MemoryStream.strTrimCRLF content).dropWhile isLwfChar

/-- The fields with one that was read; contents for the same name are joined. -/
def storeField (fields : List (Bytes × Bytes)) (e : Bytes × Bytes) : List (Bytes × Bytes) :=
  AssocList.setSorted (normalizeFieldName e.1)
    (match fields.lookup (normalizeFieldName e.1) with
      | none => shownContent e.2
      | some old => old ++ ascii ", " ++ shownContent e.2) fields

/-- The fields that were read are `fields`; the last one may wait for its next line. -/
def HoldsFields (h : Header) (fields : List (Bytes × Bytes)) : Prop :=
  h.addCrtParsingData =
    (true, { h with fields := fields, crtParsingFieldName := [], crtParsingFieldContent := [] })

variable {h : Header}

theorem holdsFields_start (hname : h.crtParsingFieldName = []) : HoldsFields h h.fields := by
  rw [HoldsFields, addCrtParsingData, if_pos hname, hname]

theorem isValidFieldContent_shown {content : Bytes} (h : isValidFieldContent content = true) :
    isValidFieldContent (shownContent content) = true := by
  rw [isValidFieldContent, all_eq_true] at h ⊢
  intro c hc
  exact h c (( rdropWhile_prefix _ _).subset ((dropWhile_suffix _).subset hc))

variable {e : Bytes × Bytes}

/-- A field that waits is stored when its next line comes. -/
theorem holdsFields_pending (he : ProperField e) :
    HoldsFields { h with crtParsingFieldName := e.1, crtParsingFieldContent := shownContent e.2 }
      (storeField h.fields e) := by
  have hne : e.1 ≠ [] := by
    intro hnil
    have hname := he.name
    rw [hnil] at hname
    cases hname
  have hret : (isValidFieldName e.1 && isValidFieldContent (shownContent e.2)) = true := by
    rw [he.name, isValidFieldContent_shown he.content]
    rfl
  cases hlookup : h.fields.lookup (normalizeFieldName e.1) with
  | none | some c => simp [HoldsFields, addCrtParsingData, hne, hret, storeField, hlookup]

theorem mem_name (he : ProperField e) :
    e.1 ≠ [] ∧ (e.1.head?.map isLwfChar).getD false = false ∧ 58 ∉ e.1 ∧ 10 ∉ e.1 := by
  have hname := he.name
  obtain ⟨name, _⟩ := e
  cases name with
  | nil => cases hname
  | cons c name =>
    rw [isValidFieldName, Bool.and_eq_true, all_eq_true] at hname
    have hmem : ∀ d ∈ c :: name, isTokenChar d = true ∨ isWhiteSpace d = true := by
      intro d hd
      rcases mem_cons.1 hd with rfl | hd
      · exact Or.inl hname.1
      · exact Bool.or_eq_true _ _ ▸ hname.2 d hd
    refine ⟨cons_ne_nil _ _, ?_, ?_, ?_⟩
    · show isLwfChar c = false
      by_contra hlwf
      rw [Bool.not_eq_false, isLwfChar] at hlwf
      simp only [Bool.or_eq_true, decide_eq_true_iff] at hlwf
      rcases hlwf with ((rfl | rfl) | rfl) | rfl <;> exact absurd hname.1 (by decide)
    · intro hcolon
      rcases hmem 58 hcolon with h | h <;> exact absurd h (by decide)
    · intro hlf
      rcases hmem 10 hlf with h | h <;> exact absurd h (by decide)

/-- What is in front of a character that is no line break is kept. -/
theorem strTrimCRLF_append (a b : Bytes) {x : UInt8} (hx : (x == 10 || x == 13) = false) :
    MemoryStream.strTrimCRLF (a ++ x :: b) = a ++ x :: MemoryStream.strTrimCRLF b := by
  rw [strTrimCRLF, strTrimCRLF]
  induction b using reverseRecOn with
  | nil => rw [rdropWhile_concat_neg _ _ _ (by rw [hx]; exact Bool.false_ne_true), rdropWhile_nil]
  | append_singleton b c ih =>
    rw [← cons_append, ← append_assoc, rdropWhile_concat, rdropWhile_concat, ih]
    split_ifs
    · rfl
    · rw [append_assoc, cons_append]

/-- The line of a field, without the LF at its end. -/
def fieldText (e : Bytes × Bytes) : Bytes := e.1 ++ ascii ": " ++ e.2 ++ [13]

theorem fieldLine_eq (e : Bytes × Bytes) : fieldLine e = fieldText e ++ [10] := by
  simp [fieldLine, fieldText, crlf]

theorem strTrimCRLF_fieldText (e : Bytes × Bytes) :
    MemoryStream.strTrimCRLF (fieldText e) = e.1 ++ 58 :: 32 :: MemoryStream.strTrimCRLF e.2 := by
  have htext : fieldText e = (e.1 ++ [58]) ++ 32 :: (e.2 ++ [13]) := by
    rw [fieldText, show ascii ": " = [58, 32] from by decide]
    simp
  have hcr : strTrimCRLF (e.2 ++ [13]) = strTrimCRLF e.2 := by
    rw [strTrimCRLF, rdropWhile_concat_pos _ _ _ rfl]
    rfl
  rw [htext, strTrimCRLF_append _ _ (by decide), hcr, append_assoc]
  rfl

variable {fields : List (Bytes × Bytes)}

/-- The line of a field is read: the field before it is stored, and it waits itself. -/
theorem readFieldLine_field (hh : HoldsFields h fields) (he : ProperField e) :
    h.readFieldLine (MemoryStream.strTrimCRLF (fieldText e)) =
      { h with fields := fields, crtParsingFieldName := e.1, crtParsingFieldContent := shownContent e.2 } := by
  obtain ⟨hne, hhead, hcolon, -⟩ := mem_name he
  have hlwf : ((strTrimCRLF (fieldText e)).head?.map isLwfChar).getD false = false := by
    rw [strTrimCRLF_fieldText, head?_append_of_ne_nil _ hne]
    exact hhead
  have hname : ∀ d ∈ e.1, decide (d ≠ 58) = true := by
    intro d hd
    rw [decide_eq_true_iff]
    rintro rfl
    exact hcolon hd
  have htake : (strTrimCRLF (fieldText e)).takeWhile (· ≠ 58) = e.1 := by
    rw [strTrimCRLF_fieldText, takeWhile_append_of_pos hname, takeWhile_cons_of_neg (by decide),
      append_nil]
  have hdrop : (strTrimCRLF (fieldText e)).dropWhile (· ≠ 58) =
      58 :: 32 :: strTrimCRLF e.2 := by
    rw [strTrimCRLF_fieldText, dropWhile_append_of_pos hname, dropWhile_cons_of_neg (by decide)]
  have hmem : 58 ∈ strTrimCRLF (fieldText e) := by
    rw [strTrimCRLF_fieldText]
    simp
  rw [readFieldLine, hlwf, if_neg Bool.false_ne_true, hh]
  rw [if_neg (not_not.2 hmem), htake, hdrop]
  rfl

theorem HoldsFields.addBytesParsed (hh : HoldsFields h fields)
    (n : Nat) : HoldsFields (h.addBytesParsed n) fields := by
  have hcount : (h.addBytesParsed n).addCrtParsingData =
      (h.addCrtParsingData.1, { h.addCrtParsingData.2 with bytesParsed := (h.addBytesParsed n).bytesParsed }) := by
    by_cases hname : h.crtParsingFieldName = []
    · simp [addCrtParsingData, Header.addBytesParsed, hname]
    · cases hret : isValidFieldName h.crtParsingFieldName && isValidFieldContent h.crtParsingFieldContent with
      | true => simp [addCrtParsingData, Header.addBytesParsed, hname, hret]
      | false =>
        cases hstrict : h.isStrict <;>
          simp [addCrtParsingData, Header.addBytesParsed, setParseError, hname, hret, hstrict]
  rw [HoldsFields, hcount, hh]
  rfl

/-- The lines of the fields are read, and the empty line behind them. -/
theorem readHeaderFields_fields (fs : List (Bytes × Bytes)) (hfs : ∀ e ∈ fs, ProperField e) (hh : HoldsFields h fields) (rest : Bytes) :
    ∃ h', h.readHeaderFields (fs.flatMap fieldLine ++ crlf ++ rest) = (true, h', rest) ∧
      h'.fields = fs.foldl storeField fields ∧ h'.statusCode = h.statusCode ∧
      h'.parseError.settled = h.parseError.settled := by
  induction fs generalizing h fields with
  | nil =>
    have hline := readHeaderFields_line (l := [13]) (by decide) rest h
    have hadd := hh.addBytesParsed 0
    have hlast : (h.addBytesParsed 0).readLastLine =
        { h.addBytesParsed 0 with
          fields := fields, crtParsingFieldName := [], crtParsingFieldContent := [],
          lastParseError := .ok, parseError := ParseError.ok.max h.parseError } := by
      rw [readLastLine, hadd]
      rfl
    refine ⟨(h.addBytesParsed 0).readLastLine, hline, ?_⟩
    rw [hlast]
    refine ⟨rfl, rfl, ?_⟩
    cases h.parseError <;> simp [ParseError.max, ParseError.toNat, ParseError.settled]
  | cons e fs ih =>
    have he := hfs e mem_cons_self
    have hlf : 10 ∉ fieldText e := by
      rw [fieldText, show ascii ": " = [58, 32] from by decide]
      simp [(mem_name he).2.2.2, he.oneLine]
    have hne : strTrimCRLF (fieldText e) ≠ [] := by
      rw [strTrimCRLF_fieldText]
      simp
    have htext : (e :: fs).flatMap fieldLine ++ crlf ++ rest =
        fieldText e ++ 10 :: (fs.flatMap fieldLine ++ crlf ++ rest) := by
      rw [flatMap_cons, fieldLine_eq]
      simp
    rw [htext, readHeaderFields_line hlf]
    rw [if_neg hne, readFieldLine_field (hh.addBytesParsed _) he]
    -- The field waits behind the fields that were there.
    obtain ⟨h', hread, hfields, hcode, herr⟩ := ih (fun e' he' => hfs e' (mem_cons_of_mem _ he'))
      (holdsFields_pending (h := { h.addBytesParsed (strTrimCRLF (fieldText e)).length with
        fields := fields }) he)
    exact ⟨h', hread, hfields, hcode, herr⟩

/-! ## The first line -/

/-- The first line of a reply, without the LF at its end. -/
def statusText (h : Header) : Bytes :=
  getHttpVersionName h.httpVersion ++ 32 :: (intToString h.statusCode.toInt ++ 32 :: (h.reason ++ [13]))

theorem composeFirstLine_status (htype : h.firstLineType = .statusLine) :
    h.composeFirstLine = statusText h ++ [10] := by
  have htext : ∀ version code reason : Bytes, version ++ ([32] ++ code ++ [32]) ++ reason ++ [13, 10] =
      version ++ 32 :: (code ++ 32 :: (reason ++ [13])) ++ [10] := by simp
  rw [composeFirstLine, htype]
  exact htext _ _ _

theorem not_mem_versionName (v : HttpVersion) : 32 ∉ getHttpVersionName v ∧ 10 ∉ getHttpVersionName v ∧
    getHttpVersionName v ≠ [] := by
  cases v <;> decide

/-- The text of a first line as `ReadLine` shows it: three parts, and the last one may be empty. -/
theorem strTrimCRLF_statusText (h : Header) : MemoryStream.strTrimCRLF (statusText h) =
    getHttpVersionName h.httpVersion ++ 32 :: (intToString h.statusCode.toInt ++
      32 :: MemoryStream.strTrimCRLF (h.reason ++ [13])) := by
  rw [statusText]
  generalize getHttpVersionName h.httpVersion = version
  generalize intToString h.statusCode.toInt = code
  have htrim := strTrimCRLF_append (version ++ 32 :: code) (h.reason ++ [13]) (x := 32) (by decide)
  rwa [append_assoc, append_assoc, cons_append, cons_append] at htrim

/-- A word ends at the first blank. -/
theorem takeWhile_word {word : Bytes} (hword : 32 ∉ word) (rest : Bytes) :
    (word ++ 32 :: rest).takeWhile (· ≠ 32) = word ∧ (word ++ 32 :: rest).dropWhile (· ≠ 32) = 32 :: rest := by
  have hall : ∀ c ∈ word, decide (c ≠ 32) = true := by
    intro c hc
    rw [decide_eq_true_iff]
    rintro rfl
    exact hword hc
  constructor
  · rw [takeWhile_append_of_pos hall, takeWhile_cons_of_neg (by decide), append_nil]
  · rw [dropWhile_append_of_pos hall, dropWhile_cons_of_neg (by decide)]

/-- The first line gives the status code, and no error. -/
theorem parseFirstLine_status (h₀ h : Header) : let h' := h₀.parseFirstLine .statusLine (strTrimCRLF (statusText h))
    h'.statusCode = h.statusCode ∧ h'.parseError = h₀.parseError ∧ h'.fields = h₀.fields ∧
      h'.crtParsingFieldName = h₀.crtParsingFieldName := by
  obtain ⟨hversion, -, -⟩ := not_mem_versionName h.httpVersion
  have hcode : 32 ∉ intToString h.statusCode.toInt := not_mem_intToString _ (by decide)
  obtain ⟨c, _, hcons⟩ := exists_cons_of_ne_nil (intToString_ne_nil h.statusCode.toInt)
  have hblank : c ≠ 32 := by
    rintro rfl
    rw [hcons] at hcode
    exact hcode mem_cons_self
  have hcodeText : ((32 :: (intToString h.statusCode.toInt ++ 32 :: strTrimCRLF (h.reason ++ [13]))).dropWhile
      (· = 32)) = intToString h.statusCode.toInt ++ 32 :: strTrimCRLF (h.reason ++ [13]) := by
    rw [dropWhile_cons_of_pos (by decide), hcons, cons_append, dropWhile_cons_of_neg (by simpa using hblank)]
  have hbound := Int.bmod_lt (x := h.statusCode.toNat) (m := 2 ^ 32) (by decide)
  have hbound' := Int.le_bmod (x := h.statusCode.toNat) (m := 2 ^ 32) (by decide)
  have hstrtol : Numeral.strtol 10 (intToString h.statusCode.toInt) = (h.statusCode.toInt, false) := by
    apply strtol_intToString
    · rw [toInt, toInt32]
      omega
    · rw [toInt, toInt32]
      omega
  have hmem : ∀ a b : Bytes, ¬ (32 ∉ a ++ 32 :: b) := fun a b hno => hno (by simp)
  intro h'
  have heq : h' = { h₀ with
      httpVersion := getHttpVersion (getHttpVersionName h.httpVersion)
      statusCode := h.statusCode
      reason := (strTrimCRLF (h.reason ++ [13])).dropWhile (· = 32)
      firstLineType := .statusLine } := by
    show h₀.parseFirstLine .statusLine _ = _
    rw [strTrimCRLF_statusText, parseFirstLine]
    simp only [(takeWhile_word hversion _).1, (takeWhile_word hversion _).2, hcodeText, (takeWhile_word hcode _).1,
      (takeWhile_word hcode _).2, if_neg (hmem _ _), parseStatusCode, hstrtol, ofInt_toInt]
    simp
  rw [heq]
  exact ⟨rfl, rfl, rfl, rfl⟩

/-! ## The whole header -/

/-- A header of a reply that can be sent: its fields are proper, and nothing in it breaks a line. -/
structure Sendable (h : Header) : Prop where
  type : h.firstLineType = .statusLine
  reason : 10 ∉ h.reason
  fields : ∀ e ∈ h.fields, ProperField e
  verbatim : h.verbatim = []

theorem not_mem_statusText (hreason : 10 ∉ h.reason) : 10 ∉ statusText h := by
  have hversion := (not_mem_versionName h.httpVersion).2.1
  have hcode : 10 ∉ intToString h.statusCode.toInt := not_mem_intToString _ (by decide)
  simp only [statusText, mem_append, mem_cons, not_or]
  exact ⟨hversion, by decide, hcode, by decide, hreason, by decide, not_mem_nil⟩

theorem toBytes_eq (hh : Sendable h) :
    h.toBytes = statusText h ++ 10 :: (h.fields.flatMap fieldLine ++ crlf ++ []) := by
  have htext : ∀ a b c : Bytes, a ++ [10] ++ b ++ [] ++ c = a ++ 10 :: (b ++ c ++ []) := by simp
  rw [toBytes, composeFirstLine_status hh.type, hh.verbatim]
  exact htext _ _ _

/-- A header that was written is read to its end, with its status code and the fields that were stored. -/
theorem parseCleared_toBytes (isStrict : Bool) (hh : Sendable h) :
    ∃ h', parseCleared isStrict .statusLine h.toBytes = (true, h', []) ∧ h'.statusCode = h.statusCode ∧
      h'.fields = h.fields.foldl storeField [] ∧ h'.parseError.settled = .init := by
  rw [toBytes_eq hh, parseCleared_line (not_mem_statusText hh.reason)]
  obtain ⟨hcode, herr, hfields, hname⟩ := parseFirstLine_status
    ((cleared isStrict).addBytesParsed (strTrimCRLF (statusText h)).length) h
  revert hcode herr hfields hname
  generalize ((cleared isStrict).addBytesParsed (strTrimCRLF (statusText h)).length).parseFirstLine
    .statusLine (strTrimCRLF (statusText h)) = h₁
  intro hcode herr hfields hname
  have hstart : HoldsFields h₁ [] := by
    have hholds := holdsFields_start hname
    rwa [hfields] at hholds
  obtain ⟨h', hread, hfields', hcode', herr'⟩ := readHeaderFields_fields h.fields hh.fields hstart []
  exact ⟨h', hread, hcode'.trans hcode, hfields', by rw [herr', herr]; rfl⟩

theorem lookup_storeField_of_ne {key : Bytes} (hne : normalizeFieldName e.1 ≠ key)
    (fields : List (Bytes × Bytes)) : (storeField fields e).lookup key = fields.lookup key := by
  rw [storeField, AssocList.lookup_setSorted, if_neg (Ne.symm hne)]

/-- A name that is not among the fields is not there when they are read. -/
theorem lookup_stored_of_ne {key : Bytes} {fs : List (Bytes × Bytes)}
    (hne : ∀ e ∈ fs, normalizeFieldName e.1 ≠ key) (fields : List (Bytes × Bytes)) :
    (fs.foldl storeField fields).lookup key = fields.lookup key := by
  induction fs generalizing fields with
  | nil => rfl
  | cons e fs ih =>
    rw [foldl_cons, ih fun e' he' => hne e' (mem_cons_of_mem _ he'),
      lookup_storeField_of_ne (hne e mem_cons_self)]

/-- A field whose name occurs once is read as it was written. -/
theorem lookup_stored (key : Bytes) {pre post : List (Bytes × Bytes)}
    (hkey : normalizeFieldName e.1 = key) (hne : ∀ e' ∈ pre ++ post, normalizeFieldName e'.1 ≠ key) :
    ((pre ++ e :: post).foldl storeField []).lookup key = some (shownContent e.2) := by
  have hpre := lookup_stored_of_ne (fun e' he' => hne e' (mem_append_left _ he')) []
  rw [foldl_append, foldl_cons,
    lookup_stored_of_ne fun e' he' => hne e' (mem_append_right _ he'), storeField, hkey,
    AssocList.lookup_setSorted, if_pos rfl, hpre]
  rfl

end Header

end Whispercast.Http
