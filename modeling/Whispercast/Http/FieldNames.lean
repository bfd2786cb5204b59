import Whispercast.Http.HeaderRead

/-!
# The names of fields

A header that is filled by `AddField`, `ClearField`, `CopyHeaderFields` and `ReadHeaderFields` is compared with the list of
what happened to its fields, in which all spellings of a name are one. Reading puts every name in its normal form.
`AddField` and `ClearField` do that when `as_is` is set, and take the name as it is when it is not; so the map of fields
is right as long as the names that they are given are normal.
-/

namespace Whispercast.Http

open Io Library List AssocList Header

/-! ## Normal names -/

/-- A property of bytes that holds of all numbers below 256. -/
theorem forall_byte {P : UInt8 → Prop} (h : ∀ n : Fin 256, P ⟨⟨n⟩⟩) (c : UInt8) : P c := h c.toFin

/-- The character of a normal name that stands for a character. -/
def capital (shouldUpcase : Bool) (c : UInt8) : UInt8 :=
  if isAlpha c then (if shouldUpcase then toUpper c else toLower c) else if isWhiteSpace c then 45 else c

variable (shouldUpcase : Bool)

theorem isAlpha_capital (c : UInt8) : isAlpha (capital shouldUpcase c) = isAlpha c := by
  cases shouldUpcase <;> revert c <;> apply forall_byte <;> decide +kernel

theorem capital_capital (c : UInt8) : capital shouldUpcase (capital shouldUpcase c) = capital shouldUpcase c := by
  cases shouldUpcase <;> revert c <;> apply forall_byte <;> decide +kernel

theorem capital_ne_zero (c : UInt8) : c ≠ 0 → capital shouldUpcase c ≠ 0 := by
  cases shouldUpcase <;> revert c <;> apply forall_byte <;> decide +kernel

theorem isLwfChar_capital (c : UInt8) : isLwfChar c = false → isLwfChar (capital shouldUpcase c) = false := by
  cases shouldUpcase <;> revert c <;> apply forall_byte <;> decide +kernel

/-- The ends of the text are no white space. -/
def Trimmed (s : Bytes) : Prop :=
  (∀ c, s.head? = some c → isLwfChar c = false) ∧ ∀ c, s.getLast? = some c → isLwfChar c = false

theorem head?_dropWhile_not {p : UInt8 → Bool} {s : Bytes} {c : UInt8} (h : (s.dropWhile p).head? = some c) :
    p c = false := by
  induction s with
  | nil => cases h
  | cons d s ih =>
    rw [dropWhile_cons] at h
    split_ifs at h with hd
    · exact ih h
    · cases h
      exact Bool.not_eq_true _ ▸ hd

theorem trimmed_trim (name : Bytes) : Trimmed ((name.rdropWhile isLwfChar).dropWhile isLwfChar) := by
  refine ⟨fun c hc => head?_dropWhile_not hc, fun c hc => ?_⟩
  obtain ⟨_, hpre⟩ := dropWhile_suffix isLwfChar (l := name.rdropWhile isLwfChar)
  have hlast : (name.rdropWhile isLwfChar).getLast? = some c := by
    rw [← hpre, getLast?_append, hc]
    rfl
  rw [rdropWhile, getLast?_reverse] at hlast
  exact head?_dropWhile_not hlast

theorem Trimmed.trim_eq {s : Bytes} (h : Trimmed s) : (s.rdropWhile isLwfChar).dropWhile isLwfChar = s := by
  have hlast : s.rdropWhile isLwfChar = s := by
    rw [rdropWhile_eq_self_iff]
    intro hne hlwf
    rw [h.2 _ (getLast?_eq_some_getLast hne)] at hlwf
    cases hlwf
  rw [hlast]
  cases s with
  | nil => rfl
  | cons c s => exact dropWhile_cons_of_neg (by rw [h.1 c rfl]; exact Bool.false_ne_true)

namespace Header

theorem capitalize_cons (shouldUpcase : Bool) (c : UInt8) (s : Bytes) :
    capitalize shouldUpcase (c :: s) = capital shouldUpcase c :: capitalize (!isAlpha c) s := by
  rw [capitalize, capital]
  by_cases hc : isAlpha c = true <;> simp [hc]

theorem capitalize_capitalize (shouldUpcase : Bool) (s : Bytes) :
    capitalize shouldUpcase (capitalize shouldUpcase s) = capitalize shouldUpcase s := by
  induction s generalizing shouldUpcase with
  | nil => rfl
  | cons c s ih => rw [capitalize_cons, capitalize_cons, capital_capital, isAlpha_capital, ih]

theorem capitalize_ne_zero {s : Bytes} (h : ∀ c ∈ s, c ≠ 0) (shouldUpcase : Bool) :
    ∀ c ∈ capitalize shouldUpcase s, c ≠ 0 := by
  induction s generalizing shouldUpcase with
  | nil => exact fun c hc => absurd hc not_mem_nil
  | cons c s ih =>
    obtain ⟨hc, hs⟩ := forall_mem_cons.1 h
    rw [capitalize_cons]
    exact forall_mem_cons.2 ⟨capital_ne_zero _ c hc, ih hs _⟩

theorem getLast?_capitalize {s : Bytes} {c : UInt8} (h : s.getLast? = some c) (shouldUpcase : Bool) :
    ∃ b, (capitalize shouldUpcase s).getLast? = some (capital b c) := by
  induction s generalizing shouldUpcase with
  | nil => cases h
  | cons d s ih =>
    rw [capitalize_cons]
    cases s with
    | nil =>
      cases h
      exact ⟨shouldUpcase, rfl⟩
    | cons e s =>
      obtain ⟨b, hb⟩ := ih h (!isAlpha d)
      rw [capitalize_cons] at hb ⊢
      exact ⟨b, by rw [getLast?_cons_cons, hb]⟩

/-- A text with capitals at the beginnings of its words, up to a NUL. -/
theorem trimmed_capitalize {s : Bytes} (h : Trimmed s) : Trimmed (capitalize true (cStr s) ++ s.dropWhile (· ≠ 0)) := by
  have hsplit : cStr s ++ s.dropWhile (· ≠ 0) = s := takeWhile_append_dropWhile
  constructor
  · intro c hc
    cases hs : cStr s with
    | nil =>
      rw [hs] at hc hsplit
      rw [nil_append] at hsplit
      rw [hsplit] at hc
      exact h.1 c hc
    | cons d ds =>
      rw [hs, capitalize_cons, cons_append] at hc
      cases hc
      refine isLwfChar_capital true d (h.1 d ?_)
      rw [← hsplit, hs]
      rfl
  · intro c hc
    rw [getLast?_append] at hc
    cases htail : (s.dropWhile (· ≠ 0)).getLast? with
    | some d =>
      rw [htail] at hc
      cases hc
      refine h.2 c ?_
      rw [← hsplit, getLast?_append, htail]
      rfl
    | none =>
      rw [htail, Option.none_or] at hc
      have hwhole : cStr s = s := by
        rw [getLast?_eq_none_iff.1 htail, append_nil] at hsplit
        exact hsplit
      rw [hwhole] at hc
      cases hlast : s.getLast? with
      | none =>
        rw [getLast?_eq_none_iff.1 hlast] at hc
        cases hc
      | some d =>
        obtain ⟨b, hb⟩ := getLast?_capitalize hlast true
        rw [hb] at hc
        cases hc
        exact isLwfChar_capital b d (h.2 d hlast)

/-- A normal name is its own normal form. -/
theorem normalizeFieldName_normalizeFieldName (name : Bytes) :
    normalizeFieldName (normalizeFieldName name) = normalizeFieldName name := by
  have htrimmed := trimmed_trim name
  rw [normalizeFieldName, normalizeFieldName]
  generalize (name.rdropWhile isLwfChar).dropWhile isLwfChar = s at htrimmed ⊢
  rw [(trimmed_capitalize htrimmed).trim_eq]
  have hnonzero : ∀ c ∈ capitalize true (cStr s), c ≠ 0 :=
    capitalize_ne_zero (fun c hc => by simpa using mem_takeWhile_imp hc) true
  have htail : (s.dropWhile (· ≠ 0)).takeWhile (· ≠ 0) = [] := by
    cases hs : s.dropWhile (· ≠ 0) with
    | nil => rfl
    | cons d ds =>
      have hd := head?_dropWhile_not (p := fun c => decide (c ≠ 0)) (s := s) (c := d) (by rw [hs]; rfl)
      exact takeWhile_cons_of_neg (by rw [hd]; exact Bool.false_ne_true)
  have hcStr : cStr (capitalize true (cStr s) ++ s.dropWhile (· ≠ 0)) = capitalize true (cStr s) := by
    have happend : (capitalize true (cStr s) ++ s.dropWhile (· ≠ 0)).takeWhile (fun c => decide (c ≠ 0)) =
        capitalize true (cStr s) ++ (s.dropWhile (· ≠ 0)).takeWhile (fun c => decide (c ≠ 0)) :=
      takeWhile_append_of_pos fun c hc => by simpa using hnonzero c hc
    rw [cStr, happend, htail, append_nil]
  have hdrop : (capitalize true (cStr s) ++ s.dropWhile (· ≠ 0)).dropWhile (· ≠ 0) = s.dropWhile (· ≠ 0) := by
    rw [dropWhile_append_of_pos (fun c hc => by simpa using hnonzero c hc), dropWhile_idempotent]
  rw [hcStr, hdrop, capitalize_capitalize]

end Header

/-! ## What happens to the fields -/

/-- Something that happens to a field: it is given to `AddField`, parsed, or given to `ClearField`. -/
inductive FieldEvent where
  | set (name content : Bytes) (replace : Bool)
  | parsed (name content : Bytes)
  | cleared (name : Bytes)

namespace FieldEvent

/-- The spelling of the name. -/
def name : FieldEvent → Bytes
  | .set name _ _ => name
  | .parsed name _ => name
  | .cleared name => name

/-- The value of the field afterwards. -/
def apply : FieldEvent → Option Bytes → Option Bytes
  | .set _ content _, none => some content
  | .set _ content replace, some old => some (if replace || old.isEmpty then content else old ++ ascii ", " ++ content)
  | .parsed _ content, none => some content
  | .parsed _ content, some old => some (old ++ ascii ", " ++ content)
  | .cleared _, _ => none

end FieldEvent

/-- The value accumulated under all spellings of a name. -/
def accumulated (events : List FieldEvent) (n : Bytes) : Option Bytes :=
  events.foldl (fun old e =>
    if Header.normalizeFieldName e.name = Header.normalizeFieldName n then e.apply old else old) none

theorem accumulated_concat (events : List FieldEvent) (e : FieldEvent) (n : Bytes) : accumulated (events ++ [e]) n =
      if Header.normalizeFieldName e.name = Header.normalizeFieldName n then e.apply (accumulated events n)
      else accumulated events n := by
  rw [accumulated, foldl_append]
  rfl

namespace Header

/-- What becomes of the field that is being parsed. -/
def crtEvents (h : Header) : List FieldEvent :=
  if h.crtParsingFieldName = [] then []
  else if !h.isStrict || (isValidFieldName h.crtParsingFieldName && isValidFieldContent h.crtParsingFieldContent) then
    [.parsed h.crtParsingFieldName h.crtParsingFieldContent]
  else []

/-- A line that does not go on with the field before it ends that field. -/
def lineEvents (h : Header) (line : Bytes) : List FieldEvent :=
  if (line.head?.map isLwfChar).getD false then [] else h.crtEvents

/-- The fields that are parsed from lines. -/
def readEvents : Header → List Bytes → List FieldEvent
  | _, [] => []
  | h, line :: lines =>
    let h := h.addBytesParsed line.length
    if line = [] then h.crtEvents else h.lineEvents line ++ readEvents (h.readFieldLine line) lines

end Header

/-- A call that works on the fields. -/
inductive FieldOp where
  | addField (name content : Bytes) (replace : Bool)
  | clearField (name : Bytes)
  | copyHeaderFields (src : Header) (replace : Bool)
  | readHeaderFields (io : Bytes)

namespace FieldOp

/-- The header after a call. -/
def apply (h : Header) : FieldOp → Header
  | .addField name content replace => h.addField name content replace false
  | .clearField name => h.clearField name
  | .copyHeaderFields src replace => h.copyHeaderFields src replace
  | .readHeaderFields io => (h.readHeaderFields io).2.1

/-- A field that `AddField` does not refuse. -/
def Accepted (e : Bytes × Bytes) : Prop := Header.isValidFieldName e.1 = true ∧ Header.isValidFieldContent e.2 = true

instance (e : Bytes × Bytes) : Decidable (Accepted e) := inferInstanceAs (Decidable (_ ∧ _))

/-- What a field that is given to `AddField` does. -/
def addEvents (replace : Bool) (e : Bytes × Bytes) : List FieldEvent :=
  if Accepted e then [.set e.1 e.2 replace] else []

/-- What a call does to the fields. -/
def events (h : Header) : FieldOp → List FieldEvent
  | .addField name content replace => addEvents replace (name, content)
  | .clearField name => [.cleared name]
  | .copyHeaderFields src replace => src.fields.flatMap (addEvents replace)
  | .readHeaderFields io => h.readEvents (headerLines io)

/-- A name that is used as a key is normal, or there is nothing to be missed. -/
def Careful (h : Header) : FieldOp → Prop
  | .addField name content _ => Accepted (name, content) → Header.normalizeFieldName name = name
  | .clearField name =>
    Header.normalizeFieldName name = name ∨ h.findField (Header.normalizeFieldName name) = none
  | .copyHeaderFields src _ => ∀ e ∈ src.fields, Accepted e → Header.normalizeFieldName e.1 = e.1
  | .readHeaderFields _ => True

end FieldOp

namespace Header

/-- The header after calls. -/
def run (h : Header) (ops : List FieldOp) : Header := ops.foldl FieldOp.apply h

/-- What calls do to the fields. -/
def runEvents : Header → List FieldOp → List FieldEvent
  | _, [] => []
  | h, op :: ops => op.events h ++ runEvents (op.apply h) ops

/-- All calls are careful. -/
def CarefulRun : Header → List FieldOp → Prop
  | _, [] => True
  | h, op :: ops => op.Careful h ∧ CarefulRun (op.apply h) ops

/-- The map of fields has one normal key for all spellings of a name, with the value accumulated under them. -/
structure OneNameEach (h : Header) (events : List FieldEvent) : Prop where
  sorted : (AssocList.keys h.fields).Pairwise (· < ·)
  normal : ∀ k ∈ AssocList.keys h.fields, normalizeFieldName k = k
  unique : ((AssocList.keys h.fields).map normalizeFieldName).Nodup
  found : ∀ n, h.findField (normalizeFieldName n) = accumulated events n

/-! ## One event -/

variable {h : Header} {events : List FieldEvent}

/-- Normal keys in order are different names. -/
theorem OneNameEach.of_sorted (hsorted : (AssocList.keys h.fields).Pairwise (· < ·))
    (hnormal : ∀ k ∈ AssocList.keys h.fields, normalizeFieldName k = k)
    (hfound : ∀ n, h.findField (normalizeFieldName n) = accumulated events n) : h.OneNameEach events := by
  refine ⟨hsorted, hnormal, ?_, hfound⟩
  rw [List.map_congr_left hnormal, List.map_id']
  refine hsorted.imp ?_
  rintro k _ hlt rfl
  exact List.lt_irrefl k hlt

theorem oneNameEach_cleared (isStrict : Bool) : (cleared isStrict).OneNameEach [] :=
  .of_sorted Pairwise.nil (fun _ hk => absurd hk not_mem_nil) fun _ => rfl

/-- Only the map of fields counts. -/
theorem OneNameEach.congr {h' : Header} (hone : h.OneNameEach events)
    (hfields : h'.fields = h.fields) : h'.OneNameEach events := by
  obtain ⟨hsorted, hnormal, hunique, hfound⟩ := hone
  rw [← hfields] at hsorted hnormal hunique
  refine ⟨hsorted, hnormal, hunique, fun n => ?_⟩
  rw [← hfound n, findField, findField, hfields]

/-- The value of a normal key is set. -/
theorem OneNameEach.put {h' : Header} (hone : h.OneNameEach events) (e : FieldEvent)
    {value : Bytes} (hfields : h'.fields = AssocList.setSorted (normalizeFieldName e.name) value h.fields)
    (hvalue : e.apply (h.findField (normalizeFieldName e.name)) = some value) : h'.OneNameEach (events ++ [e]) := by
  refine .of_sorted ?_ ?_ ?_
  · rw [hfields]
    exact setSorted_sorted _ _ hone.sorted
  · intro k hk
    rw [hfields] at hk
    rcases mem_keys_setSorted.1 hk with rfl | hk
    · exact normalizeFieldName_normalizeFieldName _
    · exact hone.normal k hk
  · intro n
    rw [findField, hfields, lookup_setSorted, accumulated_concat]
    by_cases hname : normalizeFieldName e.name = normalizeFieldName n
    · rw [if_pos hname.symm, if_pos hname, ← hvalue, hname, hone.found]
    · rw [if_neg fun heq => hname heq.symm, if_neg hname]
      exact hone.found n

variable {name : Bytes}

/-- A normal key is removed. -/
theorem OneNameEach.erase (hone : h.OneNameEach events)
    (hname : normalizeFieldName name = name) : (h.clearField name).OneNameEach (events ++ [.cleared name]) := by
  have hsublist : (keys (h.clearField name).fields).Sublist (keys h.fields) :=
    filter_sublist.map _
  refine .of_sorted (hone.sorted.sublist hsublist) (fun k hk => hone.normal k (hsublist.subset hk)) fun n => ?_
  rw [accumulated_concat, FieldEvent.name, hname]
  refine (lookup_filter_ne name (normalizeFieldName n) h.fields).trans ?_
  by_cases heq : name = normalizeFieldName n
  · rw [if_pos heq.symm, if_pos heq]
    rfl
  · rw [if_neg fun h => heq h.symm, if_neg heq]
    exact hone.found n

/-! ## One call -/

variable {content : Bytes} (replace : Bool)

theorem addField_refused
    (hrefused : ¬ FieldOp.Accepted (name, content)) : (h.addField name content replace false).fields = h.fields := by
  have hinvalid : (!isValidFieldName name || !isValidFieldContent content) = true := by
    simpa [FieldOp.Accepted, imp_iff_not_or] using hrefused
  simp [addField, addFieldTo, hinvalid]

/-- `AddField` takes the name as it is. -/
theorem addField_accepted (haccepted : FieldOp.Accepted (name, content)) :
    ∃ value, (h.addField name content replace false).fields = AssocList.setSorted name value h.fields ∧
      (FieldEvent.set name content replace).apply (h.findField name) = some value := by
  have hvalid : (!isValidFieldName name || !isValidFieldContent content) = false := by
    simp [haccepted.1, haccepted.2]
  cases hold : h.fields.lookup name with
  | none => exact ⟨content, by simp [addField, addFieldTo, hvalid, hold], by simp [findField, hold, FieldEvent.apply]⟩
  | some old =>
    by_cases hreplace : (replace || old.isEmpty) = true
    · refine ⟨content, ?_, by simp [findField, hold, FieldEvent.apply, hreplace]⟩
      simp [addField, addFieldTo, hvalid, hold, hreplace]
    · refine ⟨old ++ ascii ", " ++ content, ?_, by simp [findField, hold, FieldEvent.apply, hreplace]⟩
      simp [addField, addFieldTo, hvalid, hold, hreplace]

theorem OneNameEach.addField (hone : h.OneNameEach events)
    (name content : Bytes) (replace : Bool) (hcareful : FieldOp.Accepted (name, content) → normalizeFieldName name = name) :
    (h.addField name content replace false).OneNameEach (events ++ FieldOp.addEvents replace (name, content)) := by
  by_cases haccepted : FieldOp.Accepted (name, content)
  · obtain ⟨_, hfields, hvalue⟩ := addField_accepted (h := h) replace haccepted
    rw [FieldOp.addEvents, if_pos haccepted]
    exact hone.put _ (by rw [FieldEvent.name, hcareful haccepted, hfields])
      (by rw [FieldEvent.name, hcareful haccepted, hvalue])
  · rw [FieldOp.addEvents, if_neg haccepted, append_nil]
    exact hone.congr (addField_refused replace haccepted)

/-- A copy is a row of additions. -/
theorem OneNameEach.copyFields {replace : Bool} (fields : List (Bytes × Bytes)) (hone : h.OneNameEach events)
    (hcareful : ∀ e ∈ fields, FieldOp.Accepted e → normalizeFieldName e.1 = e.1) :
    (fields.foldl (fun h e => h.addField e.1 e.2 replace false) h).OneNameEach
      (events ++ fields.flatMap (FieldOp.addEvents replace)) := by
  induction fields generalizing h events with
  | nil =>
    rw [flatMap_nil, append_nil]
    exact hone
  | cons e fields ih =>
    obtain ⟨he, hfields⟩ := forall_mem_cons.1 hcareful
    rw [flatMap_cons, ← append_assoc]
    exact ih (hone.addField e.1 e.2 replace he) hfields

/-- Parsing finds the key by the normal form of the name. -/
theorem addCrtParsingData_kept (hname : h.crtParsingFieldName ≠ [])
    (hkept : (!h.isStrict ||
      (isValidFieldName h.crtParsingFieldName && isValidFieldContent h.crtParsingFieldContent)) = true) :
    ∃ value, h.addCrtParsingData.2.fields =
        AssocList.setSorted (normalizeFieldName h.crtParsingFieldName) value h.fields ∧
      (FieldEvent.parsed h.crtParsingFieldName h.crtParsingFieldContent).apply
        (h.findField (normalizeFieldName h.crtParsingFieldName)) = some value := by
  cases hret : isValidFieldName h.crtParsingFieldName && isValidFieldContent h.crtParsingFieldContent with
  | true =>
    cases hold : h.fields.lookup (normalizeFieldName h.crtParsingFieldName) <;>
      simp [addCrtParsingData, hname, hret, hold, findField, FieldEvent.apply]
  | false =>
    have hloose : h.isStrict = false := by simpa [hret] using hkept
    cases hold : h.fields.lookup (normalizeFieldName h.crtParsingFieldName) <;>
      simp [addCrtParsingData, hname, hret, hloose, hold, findField, FieldEvent.apply, setParseError]

theorem addCrtParsingData_dropped
    (hdropped : (!h.isStrict ||
      (isValidFieldName h.crtParsingFieldName && isValidFieldContent h.crtParsingFieldContent)) = false) :
    h.addCrtParsingData.2.fields = h.fields := by
  obtain ⟨hstrict, hret⟩ := Bool.or_eq_false_iff.1 hdropped
  by_cases hname : h.crtParsingFieldName = []
  · simp [addCrtParsingData, hname]
  · simp [addCrtParsingData, hname, hret, hstrict, setParseError]

theorem OneNameEach.addCrtParsingData (hone : h.OneNameEach events) :
    h.addCrtParsingData.2.OneNameEach (events ++ h.crtEvents) := by
  by_cases hname : h.crtParsingFieldName = []
  · rw [crtEvents, if_pos hname, append_nil]
    exact hone.congr (by rw [Header.addCrtParsingData, if_pos hname])
  · by_cases hkept : (!h.isStrict ||
        (isValidFieldName h.crtParsingFieldName && isValidFieldContent h.crtParsingFieldContent)) = true
    · obtain ⟨_, hfields, hvalue⟩ := addCrtParsingData_kept hname hkept
      rw [crtEvents, if_neg hname, if_pos hkept]
      exact hone.put _ hfields hvalue
    · rw [crtEvents, if_neg hname, if_neg hkept, append_nil]
      exact hone.congr (addCrtParsingData_dropped (Bool.not_eq_true _ ▸ hkept))

theorem OneNameEach.readFieldLine (hone : h.OneNameEach events)
    (line : Bytes) : (h.readFieldLine line).OneNameEach (events ++ h.lineEvents line) := by
  by_cases hlwf : (line.head?.map isLwfChar).getD false = true
  · rw [lineEvents, if_pos hlwf, append_nil]
    refine hone.congr ?_
    simp only [Header.readFieldLine, hlwf, if_true]
    split_ifs <;> rfl
  · rw [lineEvents, if_neg hlwf]
    refine hone.addCrtParsingData.congr ?_
    simp only [Header.readFieldLine]
    rw [if_neg hlwf]
    split_ifs <;> rfl

theorem OneNameEach.readLastLine (hone : h.OneNameEach events) :
    h.readLastLine.OneNameEach (events ++ h.crtEvents) := by
  refine hone.addCrtParsingData.congr ?_
  simp only [Header.readLastLine]
  split_ifs <;> rfl

theorem OneNameEach.readHeaderFields (io : Bytes) (hone : h.OneNameEach events) :
    (h.readHeaderFields io).2.1.OneNameEach (events ++ h.readEvents (headerLines io)) := by
  induction io using stream_induction generalizing h events with
  | tail io hlf =>
    rw [readHeaderFields_of_not_mem hlf, headerLines_of_not_mem hlf, readEvents, append_nil]
    exact hone.congr rfl
  | line l rest hl ih =>
    rw [readHeaderFields_line hl, headerLines_line hl, readEvents]
    have hcounted : (h.addBytesParsed (MemoryStream.strTrimCRLF l).length).OneNameEach events := hone.congr rfl
    by_cases hempty : MemoryStream.strTrimCRLF l = []
    · rw [if_pos hempty, if_pos hempty]
      exact hcounted.readLastLine
    · rw [if_neg hempty, if_neg hempty, ← append_assoc]
      exact ih (hcounted.readFieldLine _)

/-- A careful call keeps one name each. -/
theorem OneNameEach.apply (hone : h.OneNameEach events) (op : FieldOp)
    (hcareful : op.Careful h) : (op.apply h).OneNameEach (events ++ op.events h) := by
  cases op with
  | addField name content replace => exact hone.addField name content replace hcareful
  | copyHeaderFields src replace => exact hone.copyFields src.fields hcareful
  | readHeaderFields io => exact hone.readHeaderFields io
  | clearField name =>
    by_cases hname : normalizeFieldName name = name
    · exact hone.erase hname
    · -- No key is the name, and none is its normal form.
      have habsent := hcareful.resolve_left hname
      have hsame : (h.clearField name).fields = h.fields := by
        refine filter_eq_self.2 fun e he => ?_
        have hkey := hone.normal e.1 (mem_map_of_mem he)
        simp only [ne_eq, decide_not, Bool.not_eq_true', decide_eq_false_iff_not]
        intro heq
        exact hname (heq ▸ hkey)
      have hcleared : (h.clearField name).OneNameEach events := hone.congr hsame
      refine .of_sorted hcleared.sorted hcleared.normal fun n => ?_
      show (h.clearField name).findField (normalizeFieldName n) = accumulated (events ++ [.cleared name]) n
      rw [hcleared.found n, accumulated_concat]
      by_cases heq : normalizeFieldName name = normalizeFieldName n
      · rw [← hone.found n, ← heq, habsent]
        simp [FieldEvent.name, heq, FieldEvent.apply]
      · rw [FieldEvent.name, if_neg heq]

/-! ## Calls that are not careful -/

theorem mem_keys_addField (haccepted : FieldOp.Accepted (name, content)) :
    name ∈ AssocList.keys (h.addField name content replace false).fields := by
  obtain ⟨_, hfields, _⟩ := addField_accepted (h := h) replace haccepted
  rw [hfields]
  exact mem_keys_setSorted.2 (Or.inl rfl)

/-- No key is lost by an addition. -/
theorem keys_subset_addField (h : Header) (name content : Bytes) (replace : Bool) :
    AssocList.keys h.fields ⊆ AssocList.keys (h.addField name content replace false).fields := by
  by_cases haccepted : FieldOp.Accepted (name, content)
  · obtain ⟨_, hfields, _⟩ := addField_accepted (h := h) replace haccepted
    rw [hfields]
    exact fun k hk => mem_keys_setSorted.2 (Or.inr hk)
  · rw [addField_refused replace haccepted]
    exact Subset.refl _

theorem keys_subset_copyFields (fields : List (Bytes × Bytes)) (h : Header) : AssocList.keys h.fields ⊆
      AssocList.keys (fields.foldl (fun h e => h.addField e.1 e.2 replace false) h).fields := by
  induction fields generalizing h with
  | nil => exact Subset.refl _
  | cons e fields ih => exact Subset.trans (keys_subset_addField h e.1 e.2 replace) (ih _)

theorem mem_keys_copyFields {e : Bytes × Bytes} (haccepted : FieldOp.Accepted e)
    (fields : List (Bytes × Bytes)) (h : Header) (he : e ∈ fields) :
    e.1 ∈ AssocList.keys (fields.foldl (fun h e => h.addField e.1 e.2 replace false) h).fields := by
  induction fields generalizing h with
  | nil => cases he
  | cons e' fields ih =>
    rcases mem_cons.1 he with rfl | he
    · exact keys_subset_copyFields replace fields _ (mem_keys_addField replace haccepted)
    · exact ih _ he

/-- The names stay one each only after a careful call. -/
theorem OneNameEach.careful_of_apply (op : FieldOp)
    (hafter : (op.apply h).OneNameEach (events ++ op.events h)) : op.Careful h := by
  cases op with
  | addField name content replace => exact fun haccepted => hafter.normal name (mem_keys_addField replace haccepted)
  | copyHeaderFields src replace =>
    exact fun e he haccepted => hafter.normal e.1 (mem_keys_copyFields replace haccepted src.fields h he)
  | readHeaderFields io => trivial
  | clearField name =>
    by_cases hname : normalizeFieldName name = name
    · exact Or.inl hname
    · -- The name goes, but a field under its normal form stays.
      refine Or.inr ?_
      have hgone : (h.clearField name).findField (normalizeFieldName name) = none := by
        refine (hafter.found name).trans ?_
        rw [FieldOp.events, accumulated_concat, FieldEvent.name, if_pos rfl]
        rfl
      have hkept := lookup_filter_ne name (normalizeFieldName name) h.fields
      rw [if_neg hname] at hkept
      exact hkept.symm.trans hgone

/-! ## Runs -/

theorem oneNameEach_run_iff (hone : h.OneNameEach events) (ops : List FieldOp) :
    (∀ ops', ops' <+: ops → (h.run ops').OneNameEach (events ++ h.runEvents ops')) ↔ h.CarefulRun ops := by
  induction ops generalizing h events with
  | nil =>
    refine iff_of_true (fun ops' hinitial => ?_) trivial
    rw [prefix_nil.1 hinitial, runEvents, append_nil]
    exact hone
  | cons op ops ih =>
    constructor
    · intro hall
      have hstep := hall [op] ((prefix_append [op] ops))
      rw [runEvents, runEvents, append_nil] at hstep
      refine ⟨OneNameEach.careful_of_apply op hstep, (ih hstep).1 fun ops' hinitial => ?_⟩
      have hlater := hall (op :: ops') ((prefix_cons_inj op).2 hinitial)
      rw [runEvents, ← append_assoc] at hlater
      exact hlater
    · rintro ⟨hcareful, hrest⟩ ops' hinitial
      rcases prefix_cons_iff.1 hinitial with rfl | ⟨ops', rfl, hshorter⟩
      · rw [runEvents, append_nil]
        exact hone
      · rw [runEvents, ← append_assoc]
        exact (ih (hone.apply op hcareful)).2 hrest ops' hshorter

/-- Whatever calls fill a header, its fields have one normal key for all spellings of a name, with the value that was
accumulated under them, all along if and only if the names that were used as keys were normal. -/
theorem oneNameEach_iff_careful (isStrict : Bool) (ops : List FieldOp) :
    (∀ ops', ops' <+: ops → ((cleared isStrict).run ops').OneNameEach ((cleared isStrict).runEvents ops')) ↔
      (cleared isStrict).CarefulRun ops := by
  simpa using oneNameEach_run_iff (oneNameEach_cleared isStrict) ops

/-- A length that is read, and another that is added under a name in lower case. -/
theorem not_oneNameEach :
    ¬ ((cleared true).run [.readHeaderFields (ascii "Content-Length: 4\r\n\r\n"),
        .addField (ascii "content-length") (ascii "7") true]).OneNameEach
      ((cleared true).runEvents [.readHeaderFields (ascii "Content-Length: 4\r\n\r\n"),
        .addField (ascii "content-length") (ascii "7") true]) := by
  intro hone
  have hkeys : ascii "content-length" ∈
      keys ((cleared true).run [.readHeaderFields (ascii "Content-Length: 4\r\n\r\n"),
        .addField (ascii "content-length") (ascii "7") true]).fields := by decide +kernel
  have hnormal := hone.normal _ hkeys
  exact absurd hnormal (by decide +kernel)

end Header

end Whispercast.Http
