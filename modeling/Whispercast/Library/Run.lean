import Mathlib.Data.List.Basic

/-!
# Runs of a machine

A machine takes one event after another; `step` is `none` where the program would be aborted, or where the event
cannot happen. What every step keeps holds at the end of every run, and what makes every step possible makes every run
possible.
-/

namespace Whispercast.Library

variable {σ ε : Type} (step : σ → ε → Option σ)

/-- The state behind a sequence of events. -/
def run : σ → List ε → Option σ
  | s, [] => some s
  | s, e :: es => (step s e).bind fun s' => run s' es

@[simp] theorem run_nil (s : σ) : run step s [] = some s := rfl

theorem run_cons (s : σ) (e : ε) (es : List ε) : run step s (e :: es) = (step s e).bind fun s' => run step s' es := rfl

/-- A check that is passed. -/
theorem guard_of {p : Prop} [Decidable p] (h : p) : (guard p : Option Unit) = some () := if_pos h

/-- A check that is not passed. -/
theorem guard_of_not {p : Prop} [Decidable p] (h : ¬ p) : (guard p : Option Unit) = none := if_neg h

variable {step}

variable {s : σ} {es : List ε}

theorem run_cons_eq_some {t : σ} {e : ε} :
    run step s (e :: es) = some t ↔ ∃ s', step s e = some s' ∧ run step s' es = some t := by
  rw [run_cons, Option.bind_eq_some_iff]

theorem run_append {t : σ} {fs : List ε} (h : run step s es = some t) : run step s (es ++ fs) = run step t fs := by
  induction es generalizing s with
  | nil =>
    cases h
    rfl
  | cons e es ih =>
    obtain ⟨_, hs', hrun⟩ := run_cons_eq_some.1 h
    rw [List.cons_append, run_cons, hs', Option.bind_some, ih hrun]

theorem run_append_eq_some {t : σ} {fs : List ε} :
    run step s (es ++ fs) = some t ↔ ∃ s', run step s es = some s' ∧ run step s' fs = some t := by
  induction es generalizing s with
  | nil => simp
  | cons e es ih =>
    rw [List.cons_append, run_cons_eq_some]
    simp only [ih, run_cons_eq_some]
    constructor
    · rintro ⟨s₁, h₁, s₂, h₂, h₃⟩
      exact ⟨s₂, ⟨s₁, h₁, h₂⟩, h₃⟩
    · rintro ⟨s₂, ⟨s₁, h₁, h₂⟩, h₃⟩
      exact ⟨s₁, h₁, s₂, h₂, h₃⟩

variable {I : σ → Prop}

/-- An invariant holds at the end of every run whose events meet a condition. -/
theorem run_invariant {M : ε → Prop} (hstep : ∀ s e s', I s → M e → step s e = some s' → I s') {t : σ} (hs : I s)
    (hes : ∀ e ∈ es, M e) (hrun : run step s es = some t) : I t := by
  induction es generalizing s with
  | nil =>
    cases hrun
    exact hs
  | cons e es ih =>
    obtain ⟨s', hs', hrun⟩ := run_cons_eq_some.1 hrun
    exact ih (hstep s e s' hs (hes e List.mem_cons_self) hs') (fun f hf => hes f (List.mem_cons_of_mem _ hf)) hrun

/-- Where the invariant makes every step possible, no run is aborted. -/
theorem run_isSome (hstep : ∀ s e, I s → ∃ s', step s e = some s' ∧ I s') (hs : I s)
    (es : List ε) : ∃ t, run step s es = some t ∧ I t := by
  induction es generalizing s with
  | nil => exact ⟨s, rfl, hs⟩
  | cons e es ih =>
    obtain ⟨s', hs', hinv⟩ := hstep s e hs
    obtain ⟨t, ht, hinv'⟩ := ih hinv
    exact ⟨t, run_cons_eq_some.2 ⟨s', hs', ht⟩, hinv'⟩

/-- Every event of a run meets a condition on the state that it finds. -/
def Along (step : σ → ε → Option σ) (C : σ → ε → Prop) : σ → List ε → Prop
  | _, [] => True
  | s, e :: es => C s e ∧ ∀ s', step s e = some s' → Along step C s' es

instance decidableAlong (step : σ → ε → Option σ) (C : σ → ε → Prop) [∀ s e, Decidable (C s e)] :
    ∀ s es, Decidable (Along step C s es)
  | _, [] => isTrue trivial
  | s, e :: es =>
    match h : step s e with
    | none => decidable_of_iff (C s e) (by simp [Along, h])
    | some s' =>
      have := decidableAlong step C s' es
      decidable_of_iff (C s e ∧ Along step C s' es) (by simp [Along, h])

variable {C : σ → ε → Prop}

/-- Two conditions along a run. -/
theorem Along.and {step : σ → ε → Option σ} {D : σ → ε → Prop} (hC : Along step C s es)
    (hD : Along step D s es) : Along step (fun s e => C s e ∧ D s e) s es := by
  induction es generalizing s with
  | nil => trivial
  | cons e es ih => exact ⟨⟨hC.1, hD.1⟩, fun s' hs' => ih (hC.2 s' hs') (hD.2 s' hs')⟩

/-- Where the invariant and the condition make every step possible, no run along the condition is aborted. -/
theorem run_along (hstep : ∀ s e, I s → C s e → ∃ s', step s e = some s' ∧ I s') (hs : I s)
    (hes : Along step C s es) : ∃ t, run step s es = some t ∧ I t := by
  induction es generalizing s with
  | nil => exact ⟨s, rfl, hs⟩
  | cons e es ih =>
    obtain ⟨s', hs', hinv⟩ := hstep s e hs hes.1
    obtain ⟨t, ht, hinv'⟩ := ih hinv (hes.2 s' hs')
    exact ⟨t, run_cons_eq_some.2 ⟨s', hs', ht⟩, hinv'⟩

/-- What every step along a condition keeps holds at the end of every run along it. -/
theorem run_invariant_along (hstep : ∀ s e s', I s → C s e → step s e = some s' → I s') {t : σ} (hs : I s)
    (hes : Along step C s es) (hrun : run step s es = some t) : I t := by
  induction es generalizing s with
  | nil =>
    cases hrun
    exact hs
  | cons e es ih =>
    obtain ⟨s', hs', hrun⟩ := run_cons_eq_some.1 hrun
    exact ih (hstep s e s' hs hes.1 hs') (hes.2 s' hs') hrun

/-- Where a step against the condition leads to states that are not left again, exactly the runs that are not along the
condition end there. -/
theorem run_trapped_iff {D : σ → Prop} (hkeep : ∀ s e s', I s → C s e → step s e = some s' → I s')
    (hfall : ∀ s e s', I s → ¬ C s e → step s e = some s' → D s')
    (htrap : ∀ s e s', D s → step s e = some s' → D s') (hdisjoint : ∀ s, I s → ¬ D s) {t : σ} (hs : I s)
    (hrun : run step s es = some t) : D t ↔ ¬ Along step C s es := by
  induction es generalizing s with
  | nil =>
    cases hrun
    exact iff_of_false (hdisjoint _ hs) (not_not_intro trivial)
  | cons e es ih =>
    obtain ⟨s', hs', hrun⟩ := run_cons_eq_some.1 hrun
    by_cases hC : C s e
    · rw [ih (hkeep s e s' hs hC hs') hrun]
      refine not_congr ⟨fun h => ⟨hC, fun s'' hs'' => ?_⟩, fun h => h.2 s' hs'⟩
      cases hs'.symm.trans hs''
      exact h
    · have hD := run_invariant (fun s e s' h (_ : True) => htrap s e s' h) (hfall s e s' hs hC hs')
        (fun _ _ => trivial) hrun
      exact iff_of_true hD fun h => hC h.1

end Whispercast.Library
