import Mathlib.Data.List.Infix

/-!
# Texts as components

A text that starts with a separator is a sequence of components, each behind a separator and free of it (`render`), and
every text is the components between its separators (`components`). A pattern of whole components is found at a separator
only, so searching a text is searching its components (`findSub_render`), and so is looking at its end
(`suffix_render`).
-/

namespace Whispercast.Library

open List

namespace Components

variable {α : Type} [DecidableEq α]

/-! ## Searching -/

/-- The first position at which a pattern occurs. -/
def findSub (pattern : List α) : List α → Option Nat
  | [] => if pattern = [] then some 0 else none
  | b :: bs => if pattern <+: b :: bs then some 0 else (findSub pattern bs).map (· + 1)

/-- The last position at which a pattern that is not empty occurs. -/
def rfindSub (pattern : List α) : List α → Option Nat
  | [] => none
  | b :: bs =>
    match rfindSub pattern bs with
    | some i => some (i + 1)
    | none => if pattern <+: b :: bs then some 0 else none

/-- The last position of an element. -/
def lastIndexOf (a : α) : List α → Option Nat
  | [] => none
  | b :: bs =>
    match lastIndexOf a bs with
    | some i => some (i + 1)
    | none => if b = a then some 0 else none

variable {pattern : List α}

theorem rfindSub_eq_some {s : List α} {i : Nat} (h : rfindSub pattern s = some i) : pattern <+: s.drop i := by
  induction s generalizing i with
  | nil => cases h
  | cons b bs ih =>
    rw [rfindSub] at h
    cases hrest : rfindSub pattern bs with
    | some j =>
      rw [hrest] at h
      cases h
      exact ih hrest
    | none =>
      rw [hrest] at h
      by_cases hprefix : pattern <+: b :: bs
      · rw [if_pos hprefix] at h
        cases h
        exact hprefix
      · rw [if_neg hprefix] at h
        cases h

theorem rfindSub_append_self (hne : pattern ≠ []) (u : List α) : rfindSub pattern (u ++ pattern) = some u.length := by
  induction u with
  | nil =>
    cases pattern with
    | nil => exact absurd rfl hne
    | cons b bs =>
      rw [nil_append, rfindSub]
      cases hrest : rfindSub (b :: bs) bs with
      | some j =>
        -- the pattern is longer than what is behind its first element
        have hlength := (rfindSub_eq_some hrest).length_le
        rw [length_drop, length_cons] at hlength
        exact absurd hlength (by omega)
      | none => exact if_pos prefix_rfl
  | cons b u ih => rw [cons_append, rfindSub, ih, length_cons]

/-- A text ends with a pattern where the last occurrence is at its end. -/
theorem rfindSub_at_end {s : List α} (hne : pattern ≠ []) :
    rfindSub pattern s = some (s.length - pattern.length) ↔ pattern <:+ s := by
  constructor
  · intro h
    obtain ⟨rest, hrest⟩ := rfindSub_eq_some h
    have hlength := congrArg length hrest
    rw [length_append, length_drop] at hlength
    have hnil : rest = [] := eq_nil_of_length_eq_zero (by omega)
    rw [hnil, append_nil] at hrest
    rw [hrest]
    exact drop_suffix _ _
  · rintro ⟨u, rfl⟩
    rw [rfindSub_append_self hne, length_append, Nat.add_sub_cancel]

theorem lastIndexOf_append {a : α} (u : List α) {x : List α} (h : a ∉ x) :
    lastIndexOf a (u ++ a :: x) = some u.length := by
  have hnone : lastIndexOf a x = none := by
    induction x with
    | nil => rfl
    | cons b x ih =>
      rw [mem_cons, not_or] at h
      rw [lastIndexOf, ih h.2]
      exact if_neg (Ne.symm h.1)
  induction u with
  | nil =>
    rw [nil_append, lastIndexOf, hnone]
    exact if_pos rfl
  | cons b u ih => rw [cons_append, lastIndexOf, ih, length_cons]

/-! ## Components -/

variable (sep : α)

/-- Every component behind a separator. -/
def render : List (List α) → List α
  | [] => []
  | c :: cs => sep :: (c ++ render cs)

/-- The components between the separators of a text. -/
def components : List α → List (List α)
  | [] => [[]]
  | b :: bs =>
    if b = sep then [] :: components bs
    else
      match components bs with
      | [] => [[b]]
      | c :: cs => (b :: c) :: cs

/-- The components do not contain the separator. -/
def Free (cs : List (List α)) : Prop := ∀ c ∈ cs, sep ∉ c

variable {sep}

omit [DecidableEq α] in
@[simp] theorem render_append (cs cs' : List (List α)) : render sep (cs ++ cs') = render sep cs ++ render sep cs' := by
  induction cs with
  | nil => rfl
  | cons c cs ih => rw [cons_append, render, render, ih, cons_append, append_assoc]

omit [DecidableEq α] in
theorem render_singleton (c : List α) : render sep [c] = sep :: c := by
  rw [render, render, append_nil]

omit [DecidableEq α] in
theorem length_le_render (cs : List (List α)) : cs.length ≤ (render sep cs).length := by
  induction cs with
  | nil => exact Nat.le_refl _
  | cons c cs ih =>
    rw [render, length_cons, length_cons, length_append]
    omega

omit [DecidableEq α] in
variable (sep) in
theorem mem_render_of_mem {a : α} {c : List α} {cs : List (List α)} (hc : c ∈ cs) (ha : a ∈ c) : a ∈ render sep cs := by
  induction cs with
  | nil => exact absurd hc not_mem_nil
  | cons d cs ih =>
    rw [render, mem_cons, mem_append]
    rcases mem_cons.1 hc with rfl | hrest
    · exact Or.inr (Or.inl ha)
    · exact Or.inr (Or.inr (ih hrest))

omit [DecidableEq α] in
theorem exists_of_mem_render {a : α} {cs : List (List α)} (h : a ∈ render sep cs) (hne : a ≠ sep) :
    ∃ c ∈ cs, a ∈ c := by
  induction cs with
  | nil => exact absurd h not_mem_nil
  | cons d cs ih =>
    rw [render, mem_cons, mem_append] at h
    rcases h with heq | hd | hrest
    · exact absurd heq hne
    · exact ⟨d, mem_cons_self, hd⟩
    · obtain ⟨c, hc, ha⟩ := ih hrest
      exact ⟨c, mem_cons_of_mem _ hc, ha⟩

theorem components_ne_nil (s : List α) : components sep s ≠ [] := by
  cases s with
  | nil => exact cons_ne_nil _ _
  | cons b bs =>
    rw [components]
    split_ifs
    · exact cons_ne_nil _ _
    · split
      · exact cons_ne_nil _ _
      · exact cons_ne_nil _ _

theorem render_components (s : List α) : render sep (components sep s) = sep :: s := by
  induction s with
  | nil => rfl
  | cons b bs ih =>
    rw [components]
    split_ifs with h
    · rw [render, nil_append, ih, h]
    · cases hrest : components sep bs with
      | nil => exact absurd hrest (components_ne_nil bs)
      | cons c cs =>
        rw [hrest, render] at ih
        have htail : c ++ render sep cs = bs := tail_eq_of_cons_eq ih
        rw [render, cons_append, htail]

variable (sep) in
theorem components_free (s : List α) : Free sep (components sep s) := by
  induction s with
  | nil =>
    intro c hc
    rw [mem_singleton.1 hc]
    exact not_mem_nil
  | cons b bs ih =>
    rw [components]
    split_ifs with h
    · intro c hc
      rcases mem_cons.1 hc with rfl | hmem
      · exact not_mem_nil
      · exact ih c hmem
    · cases hrest : components sep bs with
      | nil => exact absurd hrest (components_ne_nil bs)
      | cons c cs =>
        rw [hrest] at ih
        intro c' hc'
        rcases mem_cons.1 hc' with rfl | hmem
        · rw [mem_cons, not_or]
          exact ⟨Ne.symm h, ih c mem_cons_self⟩
        · exact ih c' (mem_cons_of_mem _ hmem)

theorem components_append {c s : List α} {cs : List (List α)} (hc : sep ∉ c) (h : components sep s = [] :: cs) :
    components sep (c ++ s) = c :: cs := by
  induction c with
  | nil => exact h
  | cons b c ih =>
    rw [mem_cons, not_or] at hc
    rw [cons_append, components, if_neg (Ne.symm hc.1), ih hc.2]

theorem components_render {cs : List (List α)} (hcs : Free sep cs) : components sep (render sep cs) = [] :: cs := by
  induction cs with
  | nil => rfl
  | cons c cs ih =>
    have hrest := ih fun c hc => hcs c (mem_cons_of_mem _ hc)
    rw [render, components, if_pos rfl, components_append (hcs c mem_cons_self) hrest]

/-! ## Patterns of whole components -/

omit [DecidableEq α] in
/-- A component is compared as a whole. -/
theorem free_prefix {p c u : List α} {cs : List (List α)} (hp : sep ∉ p) (hc : sep ∉ c) :
    p ++ sep :: u <+: c ++ render sep cs ↔ p = c ∧ sep :: u <+: render sep cs := by
  induction p generalizing c with
  | nil =>
    cases c with
    | nil => simp
    | cons b c =>
      rw [mem_cons, not_or] at hc
      simp [hc.1]
  | cons a p ih =>
    rw [mem_cons, not_or] at hp
    cases c with
    | nil =>
      cases cs with
      | nil => simp [render]
      | cons d cs => simp [render, Ne.symm hp.1]
    | cons b c =>
      rw [mem_cons, not_or] at hc
      simp only [cons_append, cons_prefix_cons, List.cons.injEq, ih hp.2 hc.2, and_assoc]

omit [DecidableEq α] in
variable (sep) in
theorem exists_pattern (ps : List (List α)) : ∃ u, render sep ps ++ [sep] = sep :: u := by
  cases ps with
  | nil => exact ⟨[], rfl⟩
  | cons p ps => exact ⟨p ++ render sep ps ++ [sep], rfl⟩

omit [DecidableEq α] in
/-- Components and one more separator are in front of a text where they are its first components, and others follow. -/
theorem render_isPrefix {ps cs : List (List α)} (hps : Free sep ps) (hcs : Free sep cs) :
    render sep ps ++ [sep] <+: render sep cs ↔ ∃ rest, rest ≠ [] ∧ cs = ps ++ rest := by
  induction ps generalizing cs with
  | nil =>
    cases cs with
    | nil => simp [render]
    | cons c cs => simp [render]
  | cons p ps ih =>
    have hp := hps p mem_cons_self
    cases cs with
    | nil => simp [render]
    | cons c cs =>
      have hc := hcs c mem_cons_self
      have hrest := ih (fun p hp => hps p (mem_cons_of_mem _ hp)) (show Free sep cs from
        fun c hc => hcs c (mem_cons_of_mem _ hc))
      obtain ⟨u, hu⟩ := exists_pattern sep ps
      rw [render, render, cons_append, append_assoc, cons_prefix_cons, hu, free_prefix hp hc, ← hu,
        hrest]
      constructor
      · rintro ⟨-, rfl, rest, hne, rfl⟩
        exact ⟨rest, hne, rfl⟩
      · rintro ⟨rest, hne, heq⟩
        rw [cons_append, List.cons.injEq] at heq
        exact ⟨rfl, heq.1.symm, rest, hne, heq.2⟩

/-- A pattern that starts with the separator does not occur inside a component. -/
theorem findSub_append {pattern c : List α} (hc : sep ∉ c) (s : List α) :
    findSub (sep :: pattern) (c ++ s) = (findSub (sep :: pattern) s).map (· + c.length) := by
  induction c with
  | nil => simp
  | cons b c ih =>
    rw [mem_cons, not_or] at hc
    have hno : ¬ sep :: pattern <+: b :: (c ++ s) := by
      rw [cons_prefix_cons]
      exact fun h => hc.1 h.1
    rw [cons_append, findSub, if_neg hno, ih hc.2, Option.map_map, length_cons]
    rfl

variable (sep) in
/-- Where components first occur with others behind them, if they do. -/
inductive Search (ps cs : List (List α)) : Option Nat → Prop where
  | none (h : ∀ pre rest, cs = pre ++ (ps ++ rest) → rest = []) : Search ps cs none
  | some {pre rest : List (List α)} (hcs : cs = pre ++ (ps ++ rest)) (hrest : rest ≠ [])
      (hfirst : ∀ pre' rest', cs = pre' ++ (ps ++ rest') → rest' ≠ [] → pre.length ≤ pre'.length) :
      Search ps cs (some (render sep pre).length)

/-- Searching a text for components is searching its components. -/
theorem findSub_render {ps cs : List (List α)} (hps : Free sep ps) (hcs : Free sep cs) :
    Search sep ps cs (findSub (render sep ps ++ [sep]) (render sep cs)) := by
  induction cs with
  | nil =>
    rw [render, findSub, if_neg (append_ne_nil_of_right_ne_nil _ (cons_ne_nil _ _))]
    refine .none fun pre rest h => ?_
    exact (append_eq_nil_iff.1 (append_eq_nil_iff.1 h.symm).2).2
  | cons c cs ih =>
    have hc := hcs c mem_cons_self
    have hsearch := ih fun c hc => hcs c (mem_cons_of_mem _ hc)
    by_cases hprefix : render sep ps ++ [sep] <+: render sep (c :: cs)
    · obtain ⟨rest, hne, heq⟩ := (render_isPrefix hps hcs).1 hprefix
      rw [render] at hprefix
      have hzero : 0 = (render sep ([] : List (List α))).length := rfl
      rw [render, findSub, if_pos hprefix, hzero]
      exact .some heq hne fun _ _ _ _ => Nat.zero_le _
    · have hhere : ∀ rest, c :: cs = ps ++ rest → rest = [] := by
        intro rest heq
        by_contra hne
        exact hprefix ((render_isPrefix hps hcs).2 ⟨rest, hne, heq⟩)
      obtain ⟨u, hu⟩ := exists_pattern sep ps
      rw [render] at hprefix
      rw [render, findSub, if_neg hprefix]
      rw [hu] at hsearch ⊢
      rw [findSub_append hc]
      generalize findSub (sep :: u) (render sep cs) = found at hsearch ⊢
      cases hsearch with
      | none h =>
        refine .none fun pre rest heq => ?_
        cases pre with
        | nil => exact hhere rest heq
        | cons d pre =>
          rw [cons_append, List.cons.injEq] at heq
          exact h pre rest heq.2
      | @some pre rest hsplit hne hfirst =>
        have hlength : (render sep pre).length + c.length + 1 = (render sep (c :: pre)).length := by
          rw [render, length_cons, length_append]
          omega
        rw [Option.map_some, Option.map_some, hlength]
        refine .some (by rw [hsplit, cons_append]) hne ?_
        intro pre' rest' heq hne'
        cases pre' with
        | nil => exact absurd (hhere rest' heq) hne'
        | cons d pre' =>
          rw [cons_append, List.cons.injEq] at heq
          exact Nat.succ_le_succ (hfirst pre' rest' heq.2 hne')

/-- A text ends with a separator and a component where the component is its last one. -/
theorem suffix_render {p : List α} {cs : List (List α)} (hp : sep ∉ p) (hcs : Free sep cs) :
    sep :: p <:+ render sep cs ↔ ∃ pre, cs = pre ++ [p] := by
  constructor
  · rintro ⟨w, hw⟩
    rcases eq_nil_or_concat cs with rfl | ⟨pre, c, rfl⟩
    · exact absurd hw (append_ne_nil_of_right_ne_nil _ (cons_ne_nil _ _))
    · have hc : sep ∉ c := hcs c (by simp)
      rw [concat_eq_append, render_append, render_singleton] at hw
      -- the last separator is in front of the last component
      have hlast := congrArg (lastIndexOf sep) hw
      rw [lastIndexOf_append w hp, lastIndexOf_append _ hc] at hlast
      obtain ⟨-, htail⟩ := append_inj hw (Option.some.inj hlast)
      rw [cons.injEq] at htail
      exact ⟨pre, by rw [concat_eq_append, htail.2]⟩
  · rintro ⟨pre, rfl⟩
    rw [render_append, render_singleton]
    exact suffix_append _ _

end Components

end Whispercast.Library
