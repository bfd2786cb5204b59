import Mathlib.Data.Bool.AllAny
import Whispercast.Rpc.CodecLaws

/-!
# The JSON codec

The decoder reads tokens, with blanks in front of them. A number has a blank behind it in the encoding, but `true`,
`false` and `null` have not: they end where something else begins. The state is the flag of the map keys and the
one of the first item, which one call sets for the next one only.
-/

namespace Whispercast.Rpc.JsonDecoder

open Io Library StateReader JsonEncoder List Gets Numeral Regular StateReader

/-- A map key comes next, or not. -/
def At (key : Bool) (_ : List Nat) (s : DecoderState) : Prop := s.decodingMapKey = key

/-- The first item comes next. -/
def Fresh (_ : List Nat) (s : DecoderState) : Prop := s.decodingMapKey = false ∧ s.isFirstItem = true

/-- A text that begins with a token other than the ones between the items of a container. -/
def Opens (u : Bytes) : Prop :=
  ∀ rest, Delimited rest → ∃ t rest', readNextAsciiToken (u ++ rest) = .ok (t, rest') ∧
    t ≠ .sep 44 ∧ t ≠ .sep 93 ∧ t ≠ .sep 125

/-- A number that `strtoll` can return. -/
def Signed (v : UInt64) : Prop := v.toNat < 2 ^ 63

theorem blanks_one : Blanks IsBlank [32] := by
  intro c hc
  rw [mem_singleton] at hc
  rw [hc]
  decide

/-! ## Tokens -/

section Tokens

variable {P Q : DecoderState → Prop} {next : Bytes → Prop}

theorem gets_nextToken {u w : Bytes} {t : Token} (hw : Blanks IsBlank w)
    (h : ∀ rest, next rest → readNextAsciiToken (u ++ rest) = .ok (t, w ++ rest)) :
    Gets IsBlank next P nextToken u t P := by
  intro s b rest hs hb hrest
  refine ⟨s, w, hs, hw, ?_⟩
  rw [nextToken, readNextAsciiToken_blanks hb, h rest hrest]

/-- A separator with blanks behind it. -/
theorem gets_sep {c : UInt8} (hc : charAttr c = .sep) {w : Bytes} (hw : Blanks IsBlank w) :
    Gets IsBlank Anything P nextToken (c :: w) (.sep c) P :=
  gets_nextToken hw fun rest _ => readNextAsciiToken_sep hc (w ++ rest)

theorem gets_expected {c : UInt8} (hc : charAttr c = .sep) {w : Bytes} (hw : Blanks IsBlank w) :
    Gets IsBlank Anything P (readExpectedSeparator c) (c :: w) () P := by
  have h := (gets_sep (P := P) hc hw).bind (f := fun t => if t.text.head? = some c then pure () else fail .error)
    (v := []) (b := ()) (N := Anything) (R := P) ?_ fun _ _ => trivial
  · rwa [append_nil] at h
  · have hhead : (Token.sep c).text.head? = some c := rfl
    rw [if_pos hhead]
    exact Gets.pure ()

/-- A run of characters that ends where something else begins. -/
theorem gets_word {w : Bytes} (hw : ∀ c ∈ w, charAttr c = .char) (hne : w ≠ []) :
    Gets IsBlank Delimited P nextToken w (.word w) P :=
  gets_nextToken (blanks_nil _) fun _ hrest => readNextAsciiToken_word hw hne hrest

theorem gets_quoted {str : Bytes} (hstr : ∀ c ∈ str, Plain c) :
    Gets IsBlank Anything P nextToken (jsonQuoted str) (.quoted (jsonQuoted str)) P :=
  gets_nextToken (blanks_nil _) fun rest _ => readNextAsciiToken_jsonQuoted hstr rest

end Tokens

/-! ## Structs and containers -/

section Containers

variable {ns : List Nat} {n : Nat}

theorem gets_start {c : UInt8} (hc : charAttr c = .sep) :
    Gets IsBlank Anything (At false ns) (decodeStart c) [c] () (Fresh (n :: ns)) := by
  have hflag : Gets IsBlank Anything (At false ns)
      (modify fun s : DecoderState => { s with isFirstItem := true } : Decoding Unit) [] ()
      (Fresh (n :: ns)) := modify fun s hs => ⟨hs, rfl⟩
  exact hflag.bind (gets_expected hc (blanks_nil _)) fun _ _ => trivial

/-- One of the two separators between items. -/
theorem gets_elementContinue {c sep : UInt8} (hc : charAttr c = .sep) {w : Bytes} (hw : Blanks IsBlank w)
    (hcase : c = sep ∨ c = 44 ∧ sep ≠ 44) {ns' : List Nat} :
    Gets IsBlank Anything (At false ns) (decodeElementContinue sep) (c :: w) (c ≠ sep) (At false ns') := by
  intro s b rest hs hb _
  refine ⟨s, w, hs, hw, ?_⟩
  have htoken : readNextAsciiToken (b ++ (c :: w ++ rest)) = .ok (.sep c, w ++ rest) := by
    rw [readNextAsciiToken_blanks hb]
    exact readNextAsciiToken_sep hc (w ++ rest)
  rw [decodeElementContinue, htoken]
  dsimp only
  rcases hcase with rfl | ⟨rfl, hne⟩
  · rw [if_pos rfl]
    simp
  · have hsep : ¬ (Token.sep 44 = .sep sep) := by
      intro h
      cases h
      exact hne rfl
    rw [if_neg hsep, if_pos rfl]
    simp [Ne.symm hne]

/-- The first item is put back, and found to be one. -/
theorem gets_first {α : Type} {k : Bool → Decoding α} {u : Bytes} {a : α} {Q : DecoderState → Prop} {sep : UInt8}
    {ns' : List Nat} (hsep : sep = 93 ∨ sep = 125) (hu : Opens u)
    (hk : Gets IsBlank Delimited (At false ns') (k true) u a Q) :
    Gets IsBlank Delimited (Fresh ns) (decodeElementContinue sep >>= k) u a Q := by
  intro s b rest hs hb hrest
  obtain ⟨t, _, htoken, hcomma, hbracket, hbrace⟩ := hu rest hrest
  have hne : t ≠ .sep sep := by
    rcases hsep with rfl | rfl
    · exact hbracket
    · exact hbrace
  have hfirst : decodeElementContinue sep s (b ++ (u ++ rest)) =
      (.ok true, { s with isFirstItem := false }, b ++ (u ++ rest)) := by
    rw [decodeElementContinue, readNextAsciiToken_blanks hb, htoken]
    dsimp only
    rw [if_neg hne, if_neg hcomma, decodeFirstElement, if_pos hs.2]
  rw [bind_ok hfirst]
  exact hk { s with isFirstItem := false } b rest hs.1 hb hrest

theorem delimited_cons {c : UInt8} (hc : charAttr c = .sep) (x : Bytes) : Delimited (c :: x) := by
  rw [Delimited, hc]
  decide

theorem opens_sep {c : UInt8} (hc : charAttr c = .sep) (hcomma : c ≠ 44) (hbracket : c ≠ 93) (hbrace : c ≠ 125)
    (x : Bytes) : Opens (c :: x) := by
  intro rest _
  refine ⟨.sep c, x ++ rest, readNextAsciiToken_sep hc _, ?_, ?_, ?_⟩
  · exact fun h => hcomma (Token.sep.inj h)
  · exact fun h => hbracket (Token.sep.inj h)
  · exact fun h => hbrace (Token.sep.inj h)

theorem structLaws : StructLaws jsonEncoder jsonDecoder IsBlank Delimited At where
  start := by
    intro n ns _
    exact (gets_start (n := n) (by decide)).consequence (fun _ hs => hs) (fun _ hs => hs.1) fun _ h => h
  attribStart := modify (g := id) fun _ hs => hs
  attribMiddle := gets_expected (by decide) blanks_one
  attribEnd := rfl
  more := gets_elementContinue (by decide) blanks_one (Or.inr ⟨rfl, by decide⟩)
  done := gets_elementContinue (by decide) (blanks_nil _) (Or.inl rfl)
  next_more _ := delimited_cons (by decide) _
  next_done _ := delimited_cons (by decide) _

theorem arrayLaws : ArrayLaws jsonEncoder jsonDecoder IsBlank Delimited At Fresh Opens where
  start _ := gets_start (by decide)
  fresh h := h.1
  first hu hk := gets_first (Or.inl rfl) hu hk
  more := gets_elementContinue (by decide) blanks_one (Or.inr ⟨rfl, by decide⟩)
  done := gets_elementContinue (by decide) (blanks_nil _) (Or.inl rfl)
  next_more _ := delimited_cons (by decide) _
  next_done _ := delimited_cons (by decide) _
  opens _ x := opens_sep (by decide) (by decide) (by decide) (by decide) x
  opens_append hu hv := by
    intro rest _
    rw [append_assoc]
    exact hu _ (hv rest)

theorem mapLaws : MapLaws jsonEncoder jsonDecoder IsBlank Delimited At Fresh Opens where
  start _ := gets_start (by decide)
  fresh h := h.1
  first hu hk := gets_first (Or.inr rfl) hu hk
  more := gets_elementContinue (by decide) blanks_one (Or.inr ⟨rfl, by decide⟩)
  done := gets_elementContinue (by decide) (blanks_nil _) (Or.inl rfl)
  pairStart := modify fun _ _ => rfl
  pairMiddle := by
    intro ns
    have hflag : Gets IsBlank Anything (At true ns)
        (modify fun s : DecoderState => { s with decodingMapKey := false } : Decoding Unit) [] ()
        (At false ns) := modify fun _ _ => rfl
    exact hflag.bind (gets_expected (by decide) blanks_one) fun _ _ => trivial
  pairEnd := pure ()
  next_middle _ := delimited_cons (by decide) _
  next_end _ h := h
  next_more _ := delimited_cons (by decide) _
  next_done _ := delimited_cons (by decide) _
  opens _ x := opens_sep (by decide) (by decide) (by decide) (by decide) x
  opens_key key x hkey := by
    intro rest hrest
    have hmiddle : Delimited ([58, 32] ++ (x ++ rest)) := delimited_cons (by decide) _
    obtain ⟨t, rest', htoken, hne⟩ := hkey _ hmiddle
    refine ⟨t, rest', ?_, hne⟩
    rw [← htoken]
    change readNextAsciiToken ((key ++ ([58, 32] ++ x)) ++ rest) = _
    simp only [append_assoc]

end Containers

/-! ## Scalars -/

section Scalars

variable {key : Bool} {ns : List Nat}

theorem gets_readNumber {n : Int} (hmin : Numeral.longMin ≤ n) (hmax : n ≤ Numeral.longMax) :
    Gets IsBlank Anything (At key ns) readNumber (JsonEncoder.printBody key n) n (At key ns) := by
  intro s b rest hs hb _
  cases key with
  | false =>
    refine ⟨s, [32], hs, blanks_one, ?_⟩
    have htoken : nextToken s (b ++ (printBody false n ++ rest)) =
        (.ok (.word (printNumber n)), s, [32] ++ rest) := by
      have hdelim : Delimited ([32] ++ rest) := by
        change charAttr 32 ≠ .char ∧ charAttr 32 ≠ .error
        decide
      rw [nextToken, readNextAsciiToken_blanks hb, printBody, if_neg Bool.false_ne_true,
        append_assoc, readNextAsciiToken_word (charAttr_printNumber n) (printNumber_ne_nil n) hdelim]
    have hquotes : hasQuotes s ([32] ++ rest) = (.ok false, s, [32] ++ rest) := by
      rw [hasQuotes, hs]
    rw [readNumber, bind_ok htoken, bind_ok hquotes, numberText, if_neg Bool.false_ne_true, Option.bind_some,
      strtoll_printNumber hmin hmax]
    rfl
  | true =>
    obtain ⟨hescape, hplain⟩ := plain_printNumber n
    have htext : printBody true n = jsonQuoted (printNumber n) := by
      rw [printBody, if_pos rfl, jsonQuoted, hescape]
    refine ⟨s, [], hs, blanks_nil _, ?_⟩
    have htoken : nextToken s (b ++ (printBody true n ++ rest)) =
        (.ok (.quoted (jsonQuoted (printNumber n))), s, rest) := by
      rw [nextToken, readNextAsciiToken_blanks hb, htext, readNextAsciiToken_jsonQuoted hplain]
    have hquotes : hasQuotes s rest = (.ok true, s, rest) := by
      rw [hasQuotes, hs]
    rw [readNumber, bind_ok htoken, bind_ok hquotes, numberText, if_pos rfl, unquote_jsonQuoted,
      jsonStrUnescape_jsonStrEscape hplain, Option.bind_some, strtoll_printNumber hmin hmax]
    rfl

theorem opens_quoted {str : Bytes} (hstr : ∀ c ∈ str, Plain c) : Opens (jsonQuoted str) := by
  intro rest _
  exact ⟨_, rest, readNextAsciiToken_jsonQuoted hstr rest, nofun, nofun, nofun⟩

theorem opens_word {w : Bytes} (hw : ∀ c ∈ w, charAttr c = .char) (hne : w ≠ []) : Opens w := by
  intro rest hrest
  exact ⟨_, rest, readNextAsciiToken_word hw hne hrest, nofun, nofun, nofun⟩

theorem opens_printBody (key : Bool) (n : Int) : Opens (JsonEncoder.printBody key n) := by
  cases key with
  | false =>
    intro rest _
    have hdelim : Delimited ([32] ++ rest) := by
      change charAttr 32 ≠ .char ∧ charAttr 32 ≠ .error
      decide
    refine ⟨.word (printNumber n), [32] ++ rest, ?_, nofun, nofun, nofun⟩
    rw [printBody, if_neg Bool.false_ne_true, append_assoc,
      readNextAsciiToken_word (charAttr_printNumber n) (printNumber_ne_nil n) hdelim]
  | true =>
    obtain ⟨hescape, hplain⟩ := plain_printNumber n
    have htext : printBody true n = jsonQuoted (printNumber n) := by
      rw [printBody, if_pos rfl, jsonQuoted, hescape]
    rw [htext]
    exact opens_quoted hplain

/-- A type of numbers that are read as they were printed. -/
theorem scalar_number {α : Type} {f : α → Int} {g : Int → α} {good : α → Prop}
    (hmin : ∀ v, Numeral.longMin ≤ f v) (hmax : ∀ v, good v → f v ≤ Numeral.longMax) (hback : ∀ v, g (f v) = v) :
    ScalarLaw IsBlank Delimited At Opens (fun key v => JsonEncoder.printBody key (f v))
      (readNumber >>= fun n => pure (g n)) good where
  gets := by
    intro key ns v hv
    have h := (@gets_readNumber key ns _ (hmin v) (hmax v hv)).bind_pure g
    rw [hback] at h
    exact h.consequence (fun _ hs => hs) (fun _ hs => hs) fun _ _ => trivial
  opens key v _ := opens_printBody key (f v)

theorem chars_nullText : ∀ c ∈ JsonEncoder.nullText, charAttr c = .char :=
  all_iff_forall_prop.1 (by decide)

theorem chars_trueText : ∀ c ∈ JsonEncoder.trueText, charAttr c = .char :=
  all_iff_forall_prop.1 (by decide)

theorem chars_falseText : ∀ c ∈ JsonEncoder.falseText, charAttr c = .char :=
  all_iff_forall_prop.1 (by decide)

theorem gets_void : Gets IsBlank Delimited (At false ns) decodeVoid JsonEncoder.nullText () (At false ns) := by
  have h := (gets_word (P := At false ns) chars_nullText (by decide)).bind
    (f := fun t => if t = .word nullText then pure () else fail .error)
    (v := []) (b := ()) (N := Delimited) (R := At false ns) ?_ fun _ hrest => hrest
  · rwa [append_nil] at h
  · rw [if_pos rfl]
    exact Gets.pure ()

theorem gets_bool (v : Bool) : Gets IsBlank Delimited (At false ns) decodeBool
    (if v then JsonEncoder.trueText else JsonEncoder.falseText) v (At false ns) := by
  have hword : ∀ w, (∀ c ∈ w, charAttr c = .char) → w ≠ [] → (w = trueText ∧ v = true ∨
      w = falseText ∧ v = false) → Gets IsBlank Delimited (At false ns) decodeBool w v (At false ns) := by
    intro w hchars hne hcase
    have h := (gets_word (P := At false ns) hchars hne).bind
      (f := fun t => if t = .word trueText then pure true
        else if t = .word falseText then pure false else fail .error)
      (v := []) (b := v) (N := Delimited) (R := At false ns) ?_ fun _ hrest => hrest
    · rwa [append_nil] at h
    · rcases hcase with ⟨rfl, rfl⟩ | ⟨rfl, rfl⟩
      · rw [if_pos rfl]
        exact Gets.pure true
      · rw [if_neg (by decide), if_pos rfl]
        exact Gets.pure false
  cases v with
  | false => exact hword _ chars_falseText (by decide) (Or.inr ⟨rfl, rfl⟩)
  | true => exact hword _ chars_trueText (by decide) (Or.inl ⟨rfl, rfl⟩)

theorem gets_string {str : Bytes} (hstr : ∀ c ∈ str, Plain c) :
    Gets IsBlank Anything (At key ns) decodeString (jsonQuoted str) str (At key ns) := by
  rw [decodeString, ← append_nil (jsonQuoted str)]
  refine (gets_quoted (P := At key ns) hstr).bind (N := Anything) ?_ fun _ _ => trivial
  · dsimp only
    rw [unquote_jsonQuoted, jsonStrUnescape_jsonStrEscape hstr]
    exact Gets.pure str

theorem uint32_back (v : UInt32) : UInt32.ofInt (v.toNat : Int) = v := by
  have hlt := v.toNat_lt
  have hmod : ((v.toNat : Int) % 2 ^ 32).toNat = v.toNat := by omega
  rw [UInt32.ofInt, hmod, UInt32.ofNat_toNat]

theorem uint64_back (v : UInt64) : UInt64.ofInt (v.toNat : Int) = v := by
  have hlt := v.toNat_lt
  have hmod : ((v.toNat : Int) % 2 ^ 64).toNat = v.toNat := by omega
  rw [UInt64.ofInt, hmod, UInt64.ofNat_toNat]

theorem scalarLaws : ScalarLaws jsonEncoder jsonDecoder IsBlank Delimited At Opens (fun s => ∀ c ∈ s, Plain c)
    Signed where
  void := ⟨fun _ => gets_void, fun _ _ _ => opens_word chars_nullText (by decide)⟩
  bool := by
    refine ⟨fun _ => gets_bool _, ?_⟩
    intro _ v _
    cases v with
    | false => exact opens_word chars_falseText (by decide)
    | true => exact opens_word chars_trueText (by decide)
  int32 := by
    apply scalar_number (g := Int32.ofInt)
    · intro v
      have := v.le_toInt
      rw [longMin]
      omega
    · intro v _
      have := v.toInt_lt
      rw [longMax]
      omega
    · exact Int32.ofInt_toInt
  uint32 := by
    apply scalar_number (f := fun v : UInt32 => (v.toNat : Int)) (g := UInt32.ofInt)
    · intro v
      rw [longMin]
      omega
    · intro v _
      have := v.toNat_lt
      rw [longMax]
      omega
    · exact uint32_back
  int64 := by
    apply scalar_number (g := Int64.ofInt)
    · intro v
      have := v.le_toInt
      rw [longMin]
      omega
    · intro v _
      have := v.toInt_lt
      rw [longMax]
      omega
    · exact Int64.ofInt_toInt
  uint64 := by
    apply scalar_number (f := fun v : UInt64 => (v.toNat : Int)) (g := UInt64.ofInt)
    · intro v
      rw [longMin]
      omega
    · intro v hv
      have hlt : v.toNat < 2 ^ 63 := hv
      rw [longMax]
      omega
    · exact uint64_back
  string := by
    refine ⟨?_, fun _ _ hstr => opens_quoted hstr⟩
    intro key ns v hv
    exact (gets_string hv).consequence (fun _ hs => hs) (fun _ hs => hs) fun _ _ => trivial

end Scalars

/-! ## Every input -/

section Inputs

variable {I : DecoderState → Prop}

theorem regular_nextToken : Regular .notEnoughData I 1 nextToken := by
  refine ⟨?_, ?_, ?_⟩
  · intro s l
    constructor
    · intro a s' l' h x
      rw [nextToken] at h ⊢
      cases ht : readNextAsciiToken l with
      | error fault => rw [ht] at h; cases h
      | ok t =>
        rw [ht] at h
        cases h
        rw [readNextAsciiToken_append ht x]
    · intro e s' l' h hne x
      rw [nextToken] at h ⊢
      cases ht : readNextAsciiToken l with
      | ok t => rw [ht] at h; cases h
      | error fault =>
        rw [ht] at h
        cases h
        cases fault with
        | noData => exact absurd rfl hne
        | errorChar => rw [readNextAsciiToken_errorChar ht x]
  · intro s l a s' l' h
    rw [nextToken] at h
    cases ht : readNextAsciiToken l with
    | error fault => rw [ht] at h; cases h
    | ok t =>
      rw [ht] at h
      cases h
      exact readNextAsciiToken_length ht
  · intro s l hs
    rw [nextToken]
    cases readNextAsciiToken l with
    | error fault => exact hs
    | ok t => exact hs

theorem regular_expected (c : UInt8) : Regular .notEnoughData I 1 (readExpectedSeparator c) := by
  apply regular_nextToken.bind_left
  intro t
  split_ifs
  · exact pure _
  · exact fail _

/-- What the first item leads to depends on the state only, and takes nothing. -/
theorem firstElement_append (s : DecoderState) (l x : Bytes) : decodeFirstElement s (l ++ x) =
    ((decodeFirstElement s l).1, (decodeFirstElement s l).2.1, (decodeFirstElement s l).2.2 ++ x) := by
  rw [decodeFirstElement, decodeFirstElement]
  split_ifs
  · rfl
  · rfl

theorem firstElement_rest (s : DecoderState) (l : Bytes) : (decodeFirstElement s l).2.2 = l := by
  rw [decodeFirstElement]
  split_ifs
  · rfl
  · rfl

theorem extendsAt_firstElement (r : Decoding Bool) (s : DecoderState) (l : Bytes)
    (h : ∀ x, r s (l ++ x) = decodeFirstElement s (l ++ x)) : ExtendsAt .notEnoughData r s l := by
  have hnil : r s l = decodeFirstElement s l := by
    have := h []
    rwa [append_nil] at this
  constructor
  · intro a s' l' ha x
    rw [hnil] at ha
    rw [h x, firstElement_append, ha]
  · intro e s' l' he _ x
    rw [hnil] at he
    rw [h x, firstElement_append, he]

theorem regular_elementContinue (sep : UInt8) (hI : ∀ s b, I s → I { s with isFirstItem := b }) :
    Regular .notEnoughData I 0 (decodeElementContinue sep) := by
  refine ⟨?_, ?_, ?_⟩
  · intro s l
    cases ht : readNextAsciiToken l with
    | error fault =>
      cases fault with
      | noData =>
        constructor
        · intro a s' l' h
          rw [decodeElementContinue, ht] at h
          cases h
        · intro e s' l' h hne
          rw [decodeElementContinue, ht] at h
          cases h
          exact absurd rfl hne
      | errorChar =>
        apply extendsAt_firstElement
        intro x
        rw [decodeElementContinue, readNextAsciiToken_errorChar ht x]
    | ok t =>
      by_cases hsep : t.1 = .sep sep
      · constructor
        · intro a s' l' h x
          rw [decodeElementContinue, ht] at h
          rw [decodeElementContinue, readNextAsciiToken_append ht x]
          dsimp only at h ⊢
          rw [if_pos hsep] at h ⊢
          cases h
          rfl
        · intro e s' l' h
          rw [decodeElementContinue, ht] at h
          dsimp only at h
          rw [if_pos hsep] at h
          cases h
      · by_cases hcomma : t.1 = .sep 44
        · constructor
          · intro a s' l' h x
            rw [decodeElementContinue, ht] at h
            rw [decodeElementContinue, readNextAsciiToken_append ht x]
            dsimp only at h ⊢
            rw [if_neg hsep, if_pos hcomma] at h ⊢
            cases h
            rfl
          · intro e s' l' h
            rw [decodeElementContinue, ht] at h
            dsimp only at h
            rw [if_neg hsep, if_pos hcomma] at h
            cases h
        · apply extendsAt_firstElement
          intro x
          rw [decodeElementContinue, readNextAsciiToken_append ht x]
          dsimp only
          rw [if_neg hsep, if_neg hcomma]
  · intro s l a s' l' h
    have hfirst : ∀ y, decodeFirstElement s l = (y, s', l') → l'.length ≤ l.length := by
      intro y hy
      have hrest := firstElement_rest s l
      rw [hy] at hrest
      exact Nat.le_of_eq (congrArg length hrest)
    rw [decodeElementContinue] at h
    cases ht : readNextAsciiToken l with
    | error fault =>
      rw [ht] at h
      cases fault with
      | noData => cases h
      | errorChar => exact hfirst _ h
    | ok t =>
      have hlen := readNextAsciiToken_length ht
      rw [ht] at h
      dsimp only at h
      split_ifs at h
      · cases h
        exact Nat.le_of_lt hlen
      · cases h
        exact Nat.le_of_lt hlen
      · exact hfirst _ h
  · intro s l hs
    have hfirst : I (decodeFirstElement s l).2.1 := by
      rw [decodeFirstElement]
      split_ifs
      · exact hI s false hs
      · exact hs
    rw [decodeElementContinue]
    cases readNextAsciiToken l with
    | error fault =>
      cases fault with
      | noData => exact hs
      | errorChar => exact hfirst
    | ok t =>
      dsimp only
      split_ifs
      · exact hs
      · exact hs
      · exact hfirst

theorem regular_start (c : UInt8) (hI : ∀ s b, I s → I { s with isFirstItem := b }) :
    Regular .notEnoughData I 1 (decodeStart c) :=
  (Regular.modify fun s hs => hI s true hs).bind_right fun _ => regular_expected c

theorem regular_hasQuotes : Regular .notEnoughData I 0 hasQuotes := by
  refine ⟨?_, ?_, fun _ _ hs => hs⟩
  · intro s l
    constructor
    · intro a s' l' h x
      cases h
      rfl
    · intro e s' l' h
      cases h
  · intro s l a s' l' h
    cases h
    exact Nat.le_refl _

theorem regular_readNumber : Regular .notEnoughData I 1 readNumber := by
  apply regular_nextToken.bind_left
  intro t
  apply regular_hasQuotes.bind_left
  intro quotes
  cases (numberText quotes t).bind strtoll with
  | none => exact fail _
  | some n => exact pure _

theorem regular_number {α : Type} (g : Int → α) : Regular .notEnoughData I 1 (readNumber >>= fun n => pure (g n)) :=
  regular_readNumber.bind_left fun _ => Regular.pure _

theorem regular_string : Regular .notEnoughData I 1 decodeString := by
  apply regular_nextToken.bind_left
  intro t
  cases t with
  | word text => exact fail _
  | quoted text => exact pure _
  | sep c => exact fail _

theorem regular_void : Regular .notEnoughData I 1 decodeVoid := by
  apply regular_nextToken.bind_left
  intro t
  split_ifs
  · exact pure _
  · exact fail _

theorem regular_bool : Regular .notEnoughData I 1 decodeBool := by
  apply regular_nextToken.bind_left
  intro t
  split_ifs
  · exact pure _
  · exact pure _
  · exact fail _

theorem regular_rawToken (x : Bytes × Bytes) : Regular .notEnoughData I 1 (readRawToken x) := by
  apply regular_nextToken.bind_left
  intro t
  rcases paranthesisAfter x.1 t with - | (- | ⟨p, -⟩)
  · exact fail _
  · exact pure _
  · exact pure _

theorem rawToken_progress : Progress readRawToken :=
  fun x => TurnTakes.of_takes (regular_rawToken (I := fun _ => True) x).takes

theorem regular_rawObject : Regular .notEnoughData I 1 readRawObject := by
  have hloop : Regular .notEnoughData I 1 (iterate readRawToken .error ([], [])) :=
    Regular.iterate rawToken_progress regular_rawToken ([], [])
  refine ⟨?_, ?_, ?_⟩
  · intro s l
    constructor
    · intro a s' l' h x
      rw [readRawObject] at h ⊢
      split at h
      · cases h
      · rw [(hloop.decides s l).ok a s' l' h x]
    · intro e s' l' h hne x
      rw [readRawObject] at h ⊢
      split at h
      · cases h
        exact absurd rfl hne
      · have herr := (hloop.decides s l).error e s' l' h hne x
        split
        · rename_i hshort
          rw [hshort] at herr
          exact herr
        · exact herr
  · intro s l a s' l' h
    rw [readRawObject] at h
    split at h
    · cases h
    · exact hloop.takes s l a s' l' h
  · intro s l hs
    have hkeep := hloop.keeps s l hs
    rw [readRawObject]
    split
    · rename_i hshort
      rw [hshort] at hkeep
      exact hkeep
    · exact hkeep

theorem messageRegular (key : Bool) : MessageRegular jsonDecoder (At key []) where
  structStart := regular_start 123 fun _ _ hs => hs
  structContinue := regular_elementContinue 125 fun _ _ hs => hs
  structAttribStart := pure ()
  structAttribMiddle := (regular_expected 58).mono (Nat.zero_le 1)
  int32 := regular_number Int32.ofInt
  uint32 := regular_number UInt32.ofInt
  string := regular_string
  rawObject := regular_rawObject

theorem valueRegular : ValueRegular jsonDecoder where
  arrayStart := regular_start 91 fun _ _ _ => trivial
  arrayContinue := regular_elementContinue 93 fun _ _ _ => trivial
  mapStart := regular_start 123 fun _ _ _ => trivial
  mapContinue := regular_elementContinue 125 fun _ _ _ => trivial
  mapPairStart := Regular.modify fun _ _ => trivial
  mapPairMiddle := ((Regular.modify fun _ _ => trivial).bind_right fun _ => regular_expected 58).mono (Nat.zero_le 1)
  mapPairEnd := pure ()
  void := regular_void
  bool := regular_bool
  int32 := regular_number Int32.ofInt
  uint32 := regular_number UInt32.ofInt
  int64 := regular_number Int64.ofInt
  uint64 := regular_number UInt64.ofInt
  string := regular_string

end Inputs

end Whispercast.Rpc.JsonDecoder
