import Whispercast.Rpc.MessageRoundTrip

/-!
# Raw objects

`WriteRawObject` copies the encoded parameters of a call or the encoded result of a reply into the message. The
binary decoder copies them back. The JSON decoder reads tokens until the brackets are closed, and writes them down
without the blanks between them and with one blank at the end: the tokens are the same (`SameTokens`).
-/

namespace Whispercast.Rpc

open Io Library StateReader List

namespace JsonDecoder

/-- The text is read as these tokens, with something `next` behind it. -/
inductive Lexes (next : Bytes → Prop) : Bytes → List Token → Prop where
  | nil {w : Bytes} (hw : Blanks IsBlank w) : Lexes next w []
  | cons {u v : Bytes} {t : Token} {ts : List Token}
      (ht : ∀ rest, next rest → readNextAsciiToken (u ++ (v ++ rest)) = .ok (t, v ++ rest)) (hts : Lexes next v ts) :
      Lexes next (u ++ v) (t :: ts)

/-- The tokens close all brackets, the ones that were open before them too, and the last one is the first to do so. -/
def Closes : Bytes → List Token → Prop
  | _, [] => False
  | paranthesis, t :: ts =>
    match paranthesisAfter paranthesis t with
    | none => False
    | some [] => ts = []
    | some (p :: rest) => Closes (p :: rest) ts

/-- What is written for the tokens. -/
def compact (ts : List Token) : Bytes := ts.flatMap Token.text

/-- The two texts have the same tokens, which close their brackets. -/
def SameTokens (u u' : Bytes) : Prop :=
  ∃ ts, Closes [] ts ∧ Lexes Delimited u ts ∧ Lexes Delimited u' ts ∧ u' = compact ts ++ [32]

/-! ## Reading -/

theorem gets_rawTokens {P : DecoderState → Prop} {u : Bytes} {ts : List Token} (hlex : Lexes Delimited u ts)
    {paranthesis : Bytes} (out : Bytes) (hcloses : Closes paranthesis ts) :
    Gets IsBlank Delimited P (iterate readRawToken .error (paranthesis, out)) u (out ++ (compact ts ++ [32])) P := by
  induction hlex generalizing paranthesis out with
  | nil hw => exact hcloses.elim
  | @cons u v t ts ht hts ih =>
    rw [Closes] at hcloses
    rcases hafter : paranthesisAfter paranthesis t with - | (- | ⟨p, rest⟩)
    · rw [hafter] at hcloses
      exact hcloses.elim
    · -- The last bracket is closed: what is left of the text is blank.
      rw [hafter] at hcloses
      cases hcloses
      cases hts with
      | nil hw =>
        have htoken : Gets IsBlank Delimited P nextToken (u ++ v) t P := by
          apply gets_nextToken hw
          intro rest hrest
          rw [append_assoc, ht rest hrest]
        apply Gets.iterate_last rawToken_progress
        refine htoken.bind_nil ?_
        rw [hafter, compact, flatMap_cons, flatMap_nil, append_nil, ← append_assoc]
        exact Gets.pure _
    · rw [hafter] at hcloses
      have htoken : Gets IsBlank (fun l => ∃ rest, Delimited rest ∧ l = v ++ rest) P nextToken u t P := by
        apply gets_nextToken (blanks_nil _)
        rintro l ⟨rest, hrest, rfl⟩
        exact ht rest hrest
      have hturn : Gets IsBlank (fun l => ∃ rest, Delimited rest ∧ l = v ++ rest) P
          (readRawToken (paranthesis, out)) u (.inl (p :: rest, out ++ t.text)) P := by
        refine htoken.bind_nil ?_
        rw [hafter]
        exact Gets.pure _
      have hih := ih (out ++ t.text) hcloses
      rw [compact, flatMap_cons, append_assoc, ← append_assoc out]
      exact Gets.iterate_turn rawToken_progress hturn hih fun rest hrest => ⟨rest, hrest, rfl⟩

/-- The tokens of a raw object are read and written down. -/
theorem gets_rawObject {P : DecoderState → Prop} {u u' : Bytes} (h : SameTokens u u') :
    Gets IsBlank Delimited P readRawObject u u' P := by
  obtain ⟨_, hcloses, hlex, -, rfl⟩ := h
  intro s b rest hs hb hrest
  obtain ⟨s', t, hs', ht, heq⟩ := gets_rawTokens hlex [] hcloses s b rest hs hb hrest
  refine ⟨s', t, hs', ht, ?_⟩
  rw [readRawObject, heq]
  rfl

/-! ## Parts of a raw object -/

namespace Lexes

variable {N M : Bytes → Prop} {u v w : Bytes} {ts ss : List Token}

theorem blanks (hw : Blanks IsBlank w) (h : Lexes N v ts) : Lexes N (w ++ v) ts := by
  cases h with
  | nil hv =>
    apply Lexes.nil
    intro c hc
    rcases mem_append.1 hc with hc | hc
    · exact hw c hc
    · exact hv c hc
  | @cons u v t ts ht hts =>
    rw [← append_assoc]
    apply Lexes.cons ?_ hts
    intro rest hrest
    rw [append_assoc, readNextAsciiToken_blanks hw, ht rest hrest]

theorem append (h : Lexes N u ts) (h' : Lexes M v ss) (hN : ∀ rest, M rest → N (v ++ rest)) :
    Lexes M (u ++ v) (ts ++ ss) := by
  induction h with
  | nil hw => exact h'.blanks hw
  | @cons u w t ts ht hts ih =>
    rw [append_assoc]
    apply Lexes.cons ?_ ih
    intro rest hrest
    rw [append_assoc, ht _ (hN rest hrest)]

theorem mono (h : Lexes N u ts) (hN : ∀ rest, M rest → N rest) : Lexes M u ts := by
  have h' := h.append (M := M) (Lexes.nil (blanks_nil _)) fun rest hrest => hN rest hrest
  rwa [append_nil, append_nil] at h'

theorem single {t : Token} (hw : Blanks IsBlank w)
    (ht : ∀ rest, N rest → readNextAsciiToken (u ++ (w ++ rest)) = .ok (t, w ++ rest)) :
    Lexes N (u ++ w) [t] := Lexes.cons ht (Lexes.nil hw)

end Lexes

/-- Inside of brackets the tokens change nothing. -/
def Inside (ts : List Token) : Prop :=
  ∀ paranthesis more, paranthesis ≠ [] → Closes paranthesis more → Closes paranthesis (ts ++ more)

/-- A part of a raw object that is followed by something `next`, and what is written for it: the same tokens. -/
def Part (next : Bytes → Prop) (u u' : Bytes) : Prop :=
  ∃ ts, Inside ts ∧ Lexes next u ts ∧ Lexes next u' ts ∧ u' = compact ts

theorem delimited_blanks {w : Bytes} (hw : Blanks IsBlank w) {rest : Bytes} (hrest : Delimited rest) :
    Delimited (w ++ rest) := by
  cases w with
  | nil => exact hrest
  | cons c w =>
    have hc : charAttr c = .space := hw c mem_cons_self
    rw [cons_append, Delimited, hc]
    decide

namespace Part

variable {next next' : Bytes → Prop} {u u' v v' w : Bytes}

theorem nil : Part next [] [] :=
  ⟨[], fun _ _ _ h => h, Lexes.nil (blanks_nil _), Lexes.nil (blanks_nil _), rfl⟩

/-- Parts are put together where the second one may follow the first one. -/
theorem append (h : Part next u u') (h' : Part next' v v') (hv : ∀ rest, next' rest → next (v ++ rest))
    (hv' : ∀ rest, next' rest → next (v' ++ rest)) : Part next' (u ++ v) (u' ++ v') := by
  obtain ⟨ts, hin, hlex, hlex', rfl⟩ := h
  obtain ⟨ss, hin', hlexv, hlexv', rfl⟩ := h'
  refine ⟨ts ++ ss, ?_, hlex.append hlexv hv, hlex'.append hlexv' hv', ?_⟩
  · intro paranthesis more hne hmore
    rw [append_assoc]
    exact hin paranthesis (ss ++ more) hne (hin' paranthesis more hne hmore)
  · rw [compact, compact, compact, flatMap_append]

theorem mono (h : Part next u u') (hnext : ∀ rest, next' rest → next rest) : Part next' u u' := by
  obtain ⟨ts, hin, hlex, hlex', heq⟩ := h
  exact ⟨ts, hin, hlex.mono hnext, hlex'.mono hnext, heq⟩

theorem inside_single {t : Token} (hplain : ∀ p, paranthesisAfter p t = some p) : Inside [t] := by
  intro paranthesis more hne hmore
  obtain ⟨p, _, rfl⟩ := exists_cons_of_ne_nil hne
  rw [singleton_append, Closes, hplain]
  exact hmore

/-- A word or a quoted text, with blanks behind it. -/
theorem token {t : Token} (hw : Blanks IsBlank w) (hplain : ∀ p, paranthesisAfter p t = some p)
    (ht : ∀ rest, Delimited rest → readNextAsciiToken (t.text ++ rest) = .ok (t, rest)) :
    Part Delimited (t.text ++ w) t.text := by
  refine ⟨[t], inside_single hplain, ?_, ?_, ?_⟩
  · exact Lexes.single hw fun rest hrest => ht _ (delimited_blanks hw hrest)
  · have h := Lexes.single (N := Delimited) (u := t.text) (w := []) (t := t) (blanks_nil _) ht
    rwa [append_nil] at h
  · rw [compact, flatMap_cons, flatMap_nil, append_nil]

/-- A separator, with blanks behind it. -/
theorem sep {c : UInt8} (hc : charAttr c = .sep) (hplain : ∀ p, paranthesisAfter p (.sep c) = some p)
    (hw : Blanks IsBlank w) : Part Anything (c :: w) [c] := by
  refine ⟨[.sep c], inside_single hplain, ?_, ?_, rfl⟩
  · exact Lexes.single (u := [c]) hw fun rest _ => readNextAsciiToken_sep hc (w ++ rest)
  · exact Lexes.single (u := [c]) (w := []) (blanks_nil _) fun rest _ => readNextAsciiToken_sep hc rest

section

variable {o c : UInt8} (ho : charAttr o = .sep) (hc : charAttr c = .sep)
    (hopen : ∀ p, paranthesisAfter p (.sep o) = some (c :: p))
    (hclose : ∀ p, paranthesisAfter (c :: p) (.sep c) = some p) (h : Part next u u')
    (hnext : ∀ rest, next (c :: rest))

include ho hc hopen hclose h hnext

/-- The tokens between two brackets. -/
theorem brackets :
    ∃ ts, (Inside ts ∧ Closes [] ts) ∧ Lexes Anything (o :: (u ++ [c])) ts ∧ Lexes Anything (o :: (u' ++ [c])) ts ∧
      o :: (u' ++ [c]) = compact ts := by
  obtain ⟨ts, hin, hlex, hlex', rfl⟩ := h
  have hopening : Lexes Anything [o] [.sep o] :=
    Lexes.single (u := [o]) (w := []) (blanks_nil _) fun rest _ => readNextAsciiToken_sep ho rest
  have hclosing : Lexes Anything [c] [.sep c] :=
    Lexes.single (u := [c]) (w := []) (blanks_nil _) fun rest _ => readNextAsciiToken_sep hc rest
  have hall : ∀ v, Lexes next v ts → Lexes Anything (o :: (v ++ [c])) (.sep o :: (ts ++ [.sep c])) := by
    intro v hv
    exact hopening.append (hv.append hclosing fun rest _ => hnext rest) fun _ _ => trivial
  refine ⟨.sep o :: (ts ++ [.sep c]), ⟨?_, ?_⟩, hall u hlex, hall _ hlex', ?_⟩
  · intro paranthesis more hne hmore
    obtain ⟨p, rest, rfl⟩ := exists_cons_of_ne_nil hne
    rw [cons_append, Closes, hopen, append_assoc]
    apply hin _ _ (cons_ne_nil _ _)
    rw [singleton_append, Closes, hclose]
    exact hmore
  · rw [Closes, hopen]
    apply hin _ _ (cons_ne_nil _ _)
    rw [Closes, hclose]
  · simp only [compact, flatMap_cons, flatMap_append, flatMap_nil, append_nil, Token.text,
      singleton_append]

/-- A container is a part, and a whole raw object. -/
theorem of_brackets : Part Anything (o :: (u ++ [c])) (o :: (u' ++ [c])) ∧
      SameTokens (o :: (u ++ [c])) (o :: (u' ++ [c]) ++ [32]) := by
  obtain ⟨ts, ⟨hin, hcloses⟩, hlex, hlex', heq⟩ := brackets ho hc hopen hclose h hnext
  refine ⟨⟨ts, hin, hlex, hlex', heq⟩, ts, hcloses, hlex.mono fun _ _ => trivial, ?_, by rw [heq]⟩
  have hblank : Lexes Delimited [32] [] := Lexes.nil blanks_one
  have happend := hlex'.append hblank fun _ _ => trivial
  rwa [append_nil] at happend

end

end Part

/-! ## Encoded values -/

section Values

/-- A value is a part of a raw object, and one by itself. -/
def Raw (u : Bytes) : Prop := ∃ u', Part Delimited u u' ∧ SameTokens u (u' ++ [32])

theorem raw_token {t : Token} {w : Bytes} (hw : Blanks IsBlank w) (hplain : ∀ p, paranthesisAfter p t = some p)
    (ht : ∀ rest, Delimited rest → readNextAsciiToken (t.text ++ rest) = .ok (t, rest)) : Raw (t.text ++ w) := by
  refine ⟨t.text, Part.token hw hplain ht, [t], ?_, ?_, ?_, ?_⟩
  · rw [Closes, hplain]
  · exact Lexes.single hw fun rest hrest => ht _ (delimited_blanks hw hrest)
  · exact Lexes.single blanks_one fun rest hrest => ht _ (delimited_blanks blanks_one hrest)
  · rw [compact, flatMap_cons, flatMap_nil, append_nil]

theorem raw_word {u w : Bytes} (hu : ∀ c ∈ u, charAttr c = .char) (hne : u ≠ []) (hw : Blanks IsBlank w) :
    Raw (u ++ w) :=
  raw_token (t := .word u) hw (fun _ => rfl) fun _ hrest => readNextAsciiToken_word hu hne hrest

theorem raw_quoted {s : Bytes} (hs : ∀ c ∈ s, Plain c) : Raw (jsonQuoted s) := by
  have h := raw_token (t := .quoted (jsonQuoted s)) (blanks_nil _) (fun _ => rfl)
    fun rest _ => readNextAsciiToken_jsonQuoted hs rest
  rwa [append_nil] at h

theorem raw_printBody (key : Bool) (n : Int) : Raw (JsonEncoder.printBody key n) := by
  cases key with
  | false => exact raw_word (charAttr_printNumber n) (printNumber_ne_nil n) blanks_one
  | true =>
    obtain ⟨hescape, hplain⟩ := plain_printNumber n
    have htext : JsonEncoder.printBody true n = jsonQuoted (printNumber n) := by
      rw [JsonEncoder.printBody, if_pos rfl, jsonQuoted, hescape]
    rw [htext]
    exact raw_quoted hplain

theorem part_comma : Part Anything [44, 32] [44] := Part.sep (by decide) (fun _ => rfl) blanks_one

theorem part_colon : Part Anything [58, 32] [58] := Part.sep (by decide) (fun _ => rfl) blanks_one

variable {items : List Bytes}

section

variable (h : ∀ item ∈ items, ∃ item', Part Delimited item item')

include h

/-- Items with commas between them. -/
theorem part_separated : ∃ u', Part Delimited (separated [44, 32] items) u' := by
  have hrest : ∀ items : List Bytes, (∀ item ∈ items, ∃ item', Part Delimited item item') →
      ∃ u', Part Delimited (items.flatMap fun item => [44, 32] ++ item) u' ∧
        (∀ rest, Delimited rest → Delimited ((items.flatMap fun item => [44, 32] ++ item) ++ rest)) ∧
        ∀ rest, Delimited rest → Delimited (u' ++ rest) := by
    intro items
    induction items with
    | nil => exact fun _ => ⟨[], Part.nil, fun _ hrest => hrest, fun _ hrest => hrest⟩
    | cons item items ih =>
      intro h
      obtain ⟨item', hitem⟩ := h item mem_cons_self
      obtain ⟨u', hu, hdelim, hdelim'⟩ := ih fun i hi => h i (mem_cons_of_mem _ hi)
      refine ⟨([44] ++ item') ++ u', ?_, ?_, ?_⟩
      · rw [flatMap_cons]
        exact (part_comma.append hitem (fun _ _ => trivial) fun _ _ => trivial).append hu hdelim hdelim'
      · exact fun rest _ => delimited_cons (by decide) _
      · exact fun rest _ => delimited_cons (by decide) _
  cases items with
  | nil => exact ⟨[], Part.nil⟩
  | cons item items =>
    obtain ⟨item', hitem⟩ := h item mem_cons_self
    obtain ⟨u', hu, hdelim, hdelim'⟩ := hrest items fun i hi => h i (mem_cons_of_mem _ hi)
    exact ⟨item' ++ u', hitem.append hu hdelim hdelim'⟩

theorem raw_array : Raw (91 :: (separated [44, 32] items ++ [93])) := by
  obtain ⟨_, hu⟩ := part_separated h
  obtain ⟨hpart, hsame⟩ := Part.of_brackets (o := 91) (c := 93) (by decide) (by decide) (fun _ => rfl) (fun _ => rfl) hu
    fun rest => delimited_cons (by decide) rest
  exact ⟨_, hpart.mono fun _ _ => trivial, hsame⟩

theorem raw_map : Raw (123 :: (separated [44, 32] items ++ [125])) := by
  obtain ⟨_, hu⟩ := part_separated h
  obtain ⟨hpart, hsame⟩ := Part.of_brackets (o := 123) (c := 125) (by decide) (by decide) (fun _ => rfl) (fun _ => rfl)
    hu fun rest => delimited_cons (by decide) rest
  exact ⟨_, hpart.mono fun _ _ => trivial, hsame⟩

end

theorem raw_key (k : KeyType) {v : k.Val} (hv : k.Good (fun s => ∀ c ∈ s, Plain c) (fun _ => True) v) :
    Raw (k.encode jsonEncoder v) := by
  cases k with
  | int32 => exact raw_printBody true _
  | uint32 => exact raw_printBody true _
  | int64 => exact raw_printBody true _
  | uint64 => exact raw_printBody true _
  | string => exact raw_quoted hv

/-- The encoding of a value is a raw object, whatever numbers it has. -/
theorem raw_value (t : ValueType) {v : t.Val} (hv : t.Good (fun s => ∀ c ∈ s, Plain c) (fun _ => True) v) :
    Raw (t.encode jsonEncoder v) := by
  induction t with
  | void =>
    have h := raw_word chars_nullText (by decide) (blanks_nil _)
    rwa [append_nil] at h
  | bool =>
    cases v with
    | false =>
      have h := raw_word chars_falseText (by decide) (blanks_nil _)
      rwa [append_nil] at h
    | true =>
      have h := raw_word chars_trueText (by decide) (blanks_nil _)
      rwa [append_nil] at h
  | int32 => exact raw_printBody false _
  | uint32 => exact raw_printBody false _
  | int64 => exact raw_printBody false _
  | uint64 => exact raw_printBody false _
  | string => exact raw_quoted hv
  | vector t ih =>
    obtain ⟨hlen, hitems⟩ := hv
    have hcount : (UInt32.ofNat v.length).toNat = v.length := UInt32.toNat_ofNat_of_lt' hlen
    rw [ValueType.encode, Encoder.encodeVector, hcount, take_length]
    apply raw_array
    intro item hitem
    obtain ⟨x, hx, rfl⟩ := mem_map.1 hitem
    obtain ⟨x', hpart, -⟩ := ih (hitems x hx)
    exact ⟨x', hpart⟩
  | map k t ih =>
    obtain ⟨hlen, -, hitems⟩ := hv
    have hcount : (UInt32.ofNat v.length).toNat = v.length := UInt32.toNat_ofNat_of_lt' hlen
    rw [ValueType.encode, Encoder.encodeMap, hcount, countedPairs_eq _ (by rw [length_map, Nat.zero_add])]
    apply raw_map
    intro item hitem
    obtain ⟨x, hx, rfl⟩ := mem_map.1 hitem
    obtain ⟨key', hkey, -⟩ := raw_key k (hitems x hx).1
    obtain ⟨x', hpart, -⟩ := ih (hitems x hx).2
    -- The key, the colon and the value.
    have hvalue := part_colon.append hpart (fun _ _ => trivial) fun _ _ => trivial
    have hpair := hkey.append hvalue (fun _ _ => delimited_cons (by decide) _) fun _ _ => delimited_cons (by decide) _
    refine ⟨key' ++ ([58] ++ x'), ?_⟩
    rw [Encoder.encodePair]
    change Part Delimited (k.encode jsonEncoder x.1 ++ ([58, 32] ++ (t.encode jsonEncoder x.2 ++ []))) _
    rw [append_nil]
    exact hpair

end Values

end JsonDecoder

end Whispercast.Rpc
