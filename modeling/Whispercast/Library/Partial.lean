import Mathlib.Logic.Basic

/-!
# Total correctness of partial computations

A computation that can get stuck is an `Option`. `Yields x post` is the triple for it: `x` is not stuck
and its result satisfies `post`. The rules below follow the shape of the program: a result, a
sequence, a weaker postcondition.
-/

namespace Whispercast.Library

universe u v

/-- `x` has a result, and the result satisfies `post`. -/
def Yields {α : Type u} (x : Option α) (post : α → Prop) : Prop :=
  ∃ a, x = some a ∧ post a

namespace Yields

variable {α β : Type u} {x : Option α} {P Q : α → Prop}

theorem intro {a : α} (hx : x = some a) (ha : P a) : Yields x P := ⟨a, hx, ha⟩

theorem some {a : α} (ha : P a) : Yields (some a) P := ⟨a, rfl, ha⟩

/-- Sequence: what the first computation yields is what the second one starts from. -/
theorem bind {f : α → Option β} {R : β → Prop} (hx : Yields x P)
    (hf : ∀ a, P a → Yields (f a) R) : Yields (x >>= f) R := by
  obtain ⟨a, rfl, ha⟩ := hx
  exact hf a ha

theorem map {γ : Type v} {f : α → γ} {R : γ → Prop} (hx : Yields x P) (hf : ∀ a, P a → R (f a)) :
    Yields (x.map f) R := by
  obtain ⟨a, rfl, ha⟩ := hx
  exact some (hf a ha)

theorem mono (hx : Yields x P) (hPQ : ∀ a, P a → Q a) : Yields x Q := by
  obtain ⟨a, ha, hP⟩ := hx
  exact ⟨a, ha, hPQ a hP⟩

/-- What is known of the result when it is already at hand. -/
theorem of_eq {a : α} (hx : Yields x P) (ha : x = Option.some a) : P a := by
  obtain ⟨b, hb, hP⟩ := hx
  rw [ha] at hb
  cases hb
  exact hP

theorem ne_none (hx : Yields x P) : x ≠ none := by
  obtain ⟨a, rfl, -⟩ := hx
  exact Option.some_ne_none a

end Yields

end Whispercast.Library
