import Whispercast.Checkpoint.StateKeeper

/-!
# Ranges of a prefix

The bounds of `strutil::GetBounds` on a map in order, and the calls that rest on them: `StateKeeper::DeletePrefix`, the
replay of `OP_CLEARPREFIX`, and `StateKeepUser::GetKeyValues`. The second bound is taken with `upper_bound`, so a key
that is the next text in the order is between the bounds, although it does not start with the prefix.
-/

namespace Whispercast.Checkpoint

open Io List StateMap

/-- `StateKeepUser::GetKeyValues`. `substr` throws for a key that is shorter than the prefix of the user. -/
def getKeyValues (user start : Bytes) (m out : StateMap) : Option StateMap :=
  let entries := m.between (user ++ start)
  if entries.all fun e => decide (user.length ≤ e.1.length) then
    some (StateMap.insertAll (entries.map fun e => (e.1.drop user.length, e.2)) out)
  else none

/-! ## The next text in the order -/

section NextText

/-- A byte in front of a text. -/
theorem nextOfReversed_concat (r : Bytes) (b : UInt8) : nextOfReversed (r ++ [b]) =
      if nextOfReversed r = [] then if b = 0xff then [] else [b + 1] else b :: nextOfReversed r := by
  induction r with
  | nil =>
    by_cases hb : b = 0xff <;> simp [nextOfReversed, hb]
  | cons c r ih =>
    rw [cons_append, nextOfReversed, nextOfReversed]
    by_cases hc : c = 0xff
    · rw [if_pos hc, if_pos hc, ih]
    · simp [hc]

theorem getNext_nil : getNextInLexicographicOrder [] = [] := rfl

theorem getNext_cons (b : UInt8) (s : Bytes) : getNextInLexicographicOrder (b :: s) =
      if getNextInLexicographicOrder s = [] then if b = 0xff then [] else [b + 1]
      else b :: getNextInLexicographicOrder s := by
  rw [getNextInLexicographicOrder, reverse_cons, nextOfReversed_concat]
  rfl

/-- The texts that start with a prefix are those from the prefix on and below the next text. -/
theorem isPrefix_iff (s k : Bytes) :
    s <+: k ↔ ¬ k < s ∧ (getNextInLexicographicOrder s ≠ [] → k < getNextInLexicographicOrder s) := by
  induction s generalizing k with
  | nil => simp [getNext_nil]
  | cons b s ih =>
    cases k with
    | nil => simp
    | cons c k =>
      rw [cons_prefix_cons, ih k, cons_lt_cons_iff, getNext_cons]
      by_cases hnext : getNextInLexicographicOrder s = []
      · by_cases hb : b = 0xff
        · -- No byte is above this one.
          simp only [hnext, hb, if_true]
          grind
        · have hnil : ¬ k < [] := not_lt_nil _
          rw [if_pos hnext, if_neg hb]
          simp only [cons_lt_cons_iff, hnext]
          grind
      · rw [if_neg hnext]
        simp only [cons_lt_cons_iff]
        grind

/-- The next text itself does not start with the prefix. -/
theorem not_isPrefix_getNext {s : Bytes} (h : getNextInLexicographicOrder s ≠ []) :
    ¬ s <+: getNextInLexicographicOrder s := by
  intro hstarts
  exact List.lt_irrefl _ (((isPrefix_iff _ _).1 hstarts).2 h)

end NextText

/-! ## Bounds on a map in order -/

section Bounds

variable {m : StateMap} {start : Bytes}

/-- In a list where the elements with `p` come first they are what `takeWhile` takes. -/
theorem takeWhile_dropWhile_eq_filter {α : Type} {p : α → Bool} {l : List α}
    (h : l.Pairwise fun a b => p b = true → p a = true) :
    l.takeWhile p = l.filter p ∧ l.dropWhile p = l.filter fun a => !p a := by
  induction l with
  | nil => exact ⟨rfl, rfl⟩
  | cons a l ih =>
    obtain ⟨hhead, htail⟩ := pairwise_cons.1 h
    cases hp : p a with
    | true => simp [hp, ih htail]
    | false =>
      have hrest : ∀ b ∈ l, p b = false := by
        intro b hb
        by_contra hne
        have hpa := hhead b hb (by simpa using hne)
        rw [hp] at hpa
        cases hpa
      have hnone : l.filter p = [] := filter_eq_nil_iff.2 fun b hb => by simp [hrest b hb]
      have hall : l.filter (fun b => !p b) = l := filter_eq_self.2 fun b hb => by simp [hrest b hb]
      simp [hp, hnone, hall]

namespace StateMap

theorem pairwise_entries (h : m.Sorted) : m.Pairwise fun e e' => e.1 < e'.1 := pairwise_map.1 h

theorem before_eq_filter (h : m.Sorted) (start : Bytes) : before start m = m.filter fun e => decide (e.1 < start) := by
  rw [before]
  by_cases hstart : start = []
  · rw [if_pos hstart, hstart]
    simp
  · rw [if_neg hstart]
    refine (takeWhile_dropWhile_eq_filter ((pairwise_entries h).imp ?_)).1
    intro e e' hlt hbelow
    exact decide_eq_true (List.lt_trans hlt (of_decide_eq_true hbelow))

/-- The entries behind the second bound: those above the next text, where there is one. -/
def Above (start key : Bytes) : Prop :=
  getNextInLexicographicOrder start ≠ [] ∧ getNextInLexicographicOrder start < key

instance (start key : Bytes) : Decidable (Above start key) := inferInstanceAs (Decidable (_ ∧ _))

theorem behind_eq_filter (h : m.Sorted) (start : Bytes) :
    behind start m = m.filter fun e => decide (Above start e.1) := by
  rw [behind]
  by_cases hnext : getNextInLexicographicOrder start = []
  · simp [Above, hnext]
  · have hcut := (takeWhile_dropWhile_eq_filter (l := m)
      (p := fun e => decide (¬ getNextInLexicographicOrder start < e.1)) ((pairwise_entries h).imp ?_)).2
    · rw [if_neg hnext, hcut]
      refine filter_congr fun e _ => ?_
      by_cases habove : getNextInLexicographicOrder start < e.1 <;> simp only [Above] <;> simp [hnext, habove]
    · intro e e' hlt hbelow
      have hnot := of_decide_eq_true hbelow
      exact decide_eq_true fun habove => hnot (List.lt_trans habove hlt)

theorem above_ge {key : Bytes} (h : Above start key) : ¬ key < start := by
  intro hlt
  exact List.lt_irrefl _ (List.lt_trans (List.lt_trans hlt (lt_getNext h.1)) h.2)

/-- A key between the bounds: it starts with the prefix, or it is the next text. -/
theorem between_key_iff (start key : Bytes) : (¬ key < start ∧ ¬ Above start key) ↔
      start <+: key ∨ getNextInLexicographicOrder start ≠ [] ∧ key = getNextInLexicographicOrder start := by
  rw [isPrefix_iff, Above]
  by_cases hnext : getNextInLexicographicOrder start = []
  · simp [hnext]
  · have hlt := lt_getNext hnext
    have htri : ¬ getNextInLexicographicOrder start < key ↔
        key < getNextInLexicographicOrder start ∨ key = getNextInLexicographicOrder start := by
      rw [List.not_lt, List.le_iff_lt_or_eq]
    simp only [ne_eq, hnext, not_false_eq_true, true_and, forall_const, htri]
    constructor
    · rintro ⟨hge, hbelow | heq⟩
      · exact Or.inl ⟨hge, hbelow⟩
      · exact Or.inr heq
    · rintro (⟨hge, hbelow⟩ | rfl)
      · exact ⟨hge, Or.inl hbelow⟩
      · exact ⟨fun hback => List.lt_irrefl _ (List.lt_trans hlt hback), Or.inr rfl⟩

/-- The map is what is before the bounds, what is between them and what is behind. -/
theorem split_eq (h : m.Sorted) (start : Bytes) :
    m = before start m ++ ((m.filter fun e => decide (¬ e.1 < start ∧ ¬ Above start e.1)) ++ behind start m) := by
  have hfirst := takeWhile_dropWhile_eq_filter (l := m) (p := fun e => decide (e.1 < start))
    ((pairwise_entries h).imp fun {e e'} hlt hbelow => decide_eq_true (List.lt_trans hlt (of_decide_eq_true hbelow)))
  have hrest : Sorted (m.filter fun e => !decide (e.1 < start)) := h.sublist List.filter_sublist
  have hsecond := takeWhile_dropWhile_eq_filter (l := m.filter fun e => !decide (e.1 < start))
    (p := fun e => !decide (Above start e.1)) ((pairwise_entries hrest).imp ?_)
  · have hmiddle : ((m.filter fun e => !decide (e.1 < start)).filter fun e => !decide (Above start e.1)) =
        m.filter fun e => decide (¬ e.1 < start ∧ ¬ Above start e.1) := by
      rw [filter_filter]
      refine filter_congr fun e _ => ?_
      by_cases hbelow : e.1 < start <;> by_cases habove : Above start e.1 <;> simp [hbelow, habove]
    have hlast : ((m.filter fun e => !decide (e.1 < start)).filter fun e => !!decide (Above start e.1)) =
        m.filter fun e => decide (Above start e.1) := by
      rw [filter_filter]
      refine filter_congr fun e _ => ?_
      by_cases habove : Above start e.1
      · have hge : ¬ e.1 < start := above_ge habove
        simp [habove, hge]
      · simp [habove]
    have hcut := List.takeWhile_append_dropWhile (p := fun e : Bytes × Bytes => decide (e.1 < start)) (l := m)
    have hcut' := List.takeWhile_append_dropWhile (p := fun e : Bytes × Bytes => !decide (Above start e.1))
      (l := m.filter fun e => !decide (e.1 < start))
    rw [hsecond.1, hsecond.2, hmiddle, hlast] at hcut'
    rw [hfirst.1, hfirst.2, ← hcut'] at hcut
    rw [before_eq_filter h, behind_eq_filter h]
    exact hcut.symm
  · intro e e' hlt hnot
    rw [Bool.not_eq_true', decide_eq_false_iff_not] at hnot ⊢
    exact fun habove => hnot ⟨habove.1, List.lt_trans habove.2 hlt⟩

theorem between_eq_filter (h : m.Sorted) (start : Bytes) :
    between start m = m.filter fun e => decide (¬ e.1 < start ∧ ¬ Above start e.1) := by
  have hsplit := split_eq h start
  have hdrop : m.drop (before start m).length =
      (m.filter fun e => decide (¬ e.1 < start ∧ ¬ Above start e.1)) ++ behind start m :=
    (congrArg (drop (before start m).length) hsplit).trans drop_left
  have hlen := congrArg length hsplit
  rw [length_append, length_append] at hlen
  rw [between, hdrop]
  exact take_left' (by omega)

theorem clearPrefix_eq_filter (h : m.Sorted) (start : Bytes) :
    m.clearPrefix start = m.filter fun e => decide (e.1 < start ∨ Above start e.1) := by
  have hsplit := congrArg (filter fun e : Bytes × Bytes => decide (e.1 < start ∨ Above start e.1)) (split_eq h start)
  rw [filter_append, filter_append, filter_filter] at hsplit
  have hbefore : (before start m).filter (fun e => decide (e.1 < start ∨ Above start e.1)) = before start m := by
    rw [filter_eq_self, before_eq_filter h]
    intro e he
    exact decide_eq_true (Or.inl (of_decide_eq_true (mem_filter.1 he).2))
  have hbehind : (behind start m).filter (fun e => decide (e.1 < start ∨ Above start e.1)) = behind start m := by
    rw [filter_eq_self, behind_eq_filter h]
    intro e he
    exact decide_eq_true (Or.inr (of_decide_eq_true (mem_filter.1 he).2))
  have hmiddle : m.filter (fun e => decide (e.1 < start ∨ Above start e.1) &&
      decide (¬ e.1 < start ∧ ¬ Above start e.1)) = [] := by
    rw [filter_eq_nil_iff]
    intro e _
    by_cases hbelow : e.1 < start <;> by_cases habove : Above start e.1 <;> simp [hbelow, habove]
  rw [hbefore, hbehind, hmiddle, nil_append] at hsplit
  exact hsplit.symm

end StateMap

/-! ## Exact ranges -/

/-- The entries whose keys start with a prefix, and the others. -/
def withPrefix (start : Bytes) (m : StateMap) : StateMap := m.filter fun e => decide (start <+: e.1)
def withoutPrefix (start : Bytes) (m : StateMap) : StateMap := m.filter fun e => decide (¬ start <+: e.1)

/-- The range of a prefix is exact, and so are the calls that take it. -/
structure ExactRange (start : Bytes) (m : StateMap) : Prop where
  between : m.between start = withPrefix start m
  /-- `DeletePrefix` of a keeper with this map. -/
  deletePrefix : ∀ k k' : StateKeeper, k.data_ = m → k.deletePrefix start = some k' →
    k'.data_ = withoutPrefix start m
  /-- The replay of the operation. -/
  replay : ∀ buf, readCode start m (StateOp.OP_CLEARPREFIX :: buf) = some (withoutPrefix start m, buf)
  /-- `GetKeyValues` of every user whose prefix is a part of this one. -/
  getKeyValues : ∀ user rest, user ++ rest = start → ∀ out, getKeyValues user rest m out =
    some (StateMap.insertAll ((withPrefix start m).map fun e => (e.1.drop user.length, e.2)) out)

theorem queueOp_data {k k' : StateKeeper} {op : StateOp} (h : k.queueOp op = some k') : k'.data_ = k.data_ := by
  rw [StateKeeper.queueOp] at h
  dsimp only at h
  split_ifs at h with _ _ htransaction
  · cases h
    rfl
  · cases h
    rfl

theorem deletePrefix_data {k k' : StateKeeper} (h : k.deletePrefix start = some k') :
    k'.data_ = k.data_.clearPrefix start := queueOp_data h

/-- The range of a prefix is exact if and only if the next text in the order is no key of the map. -/
theorem exactRange_iff (h : m.Sorted) (start : Bytes) : ExactRange start m ↔
      (getNextInLexicographicOrder start ≠ [] → ∀ e ∈ m, e.1 ≠ getNextInLexicographicOrder start) := by
  constructor
  · intro hexact hnext e he heq
    have hmem : e ∈ m.between start := by
      rw [between_eq_filter h, mem_filter]
      exact ⟨he, decide_eq_true ((between_key_iff start e.1).2 (Or.inr ⟨hnext, heq⟩))⟩
    rw [hexact.between, withPrefix, mem_filter, heq] at hmem
    exact not_isPrefix_getNext hnext (of_decide_eq_true hmem.2)
  · intro hnone
    -- Without the next text the bounds hold what starts with the prefix.
    have hkey : ∀ e ∈ m, (¬ e.1 < start ∧ ¬ Above start e.1) ↔ start <+: e.1 := by
      intro e he
      rw [between_key_iff]
      exact or_iff_left fun heq => hnone heq.1 e he heq.2
    have hbetween : m.between start = withPrefix start m := by
      rw [between_eq_filter h, withPrefix]
      exact filter_congr fun e he => decide_eq_decide.2 (hkey e he)
    have hclear : m.clearPrefix start = withoutPrefix start m := by
      rw [clearPrefix_eq_filter h, withoutPrefix]
      refine filter_congr fun e he => decide_eq_decide.2 ?_
      rw [← hkey e he, not_and_or, not_not, not_not]
    refine ⟨hbetween, ?_, ?_, ?_⟩
    · intro k k' hdata hdelete
      rw [deletePrefix_data hdelete, hdata, hclear]
    · intro buf
      rw [← hclear]
      rfl
    · rintro user rest rfl -
      have hlong : (withPrefix (user ++ rest) m).all (fun e => decide (user.length ≤ e.1.length)) = true := by
        rw [all_eq_true]
        intro e he
        have hstarts := (of_decide_eq_true (mem_filter.1 he).2 : user ++ rest <+: e.1).length_le
        rw [length_append] at hstarts
        exact decide_eq_true (by omega)
      rw [Checkpoint.getKeyValues, hbetween]
      exact if_pos hlong

/-- A map without the key `b`. -/
theorem exactRange_without_next : ExactRange [97] [([97], [1]), ([97, 98], [2]), ([99], [3])] :=
  (exactRange_iff (by simp [Sorted]; decide) [97]).2 (by decide)

/-- `DeletePrefix("a")` deletes the key `b`. -/
theorem not_exactRange_next : ¬ ExactRange [97] [([97, 98], [1]), ([98], [2])] := by
  intro hexact
  have hbetween := hexact.between
  revert hbetween
  decide

end Bounds

end Whispercast.Checkpoint
