import Mathlib.Data.List.Basic
import Mathlib.Order.Basic

/-!
# Recovery from a snapshot and a log

A state changes by operations, which are written to a log at growing positions. A snapshot is a state together with a
position; it recovers the state that the operations of the log from its position on lead to. Operations that are
appended are recovered too, a snapshot of the present state behind the end of the log recovers it, and what lies before
the position of a snapshot can be removed from the log.
-/

namespace Whispercast.Library

variable {π σ ο : Type}

/-- The state behind operations. -/
def replay (apply : σ → ο → σ) (s : σ) (ops : List ο) : σ := ops.foldl apply s

theorem replay_append (apply : σ → ο → σ) (s : σ) (ops ops' : List ο) :
    replay apply s (ops ++ ops') = replay apply (replay apply s ops) ops' := List.foldl_append

section

variable [Preorder π] [DecidableLE π]

/-- The operations of a log from a position on. -/
def logFrom (p : π) (log : List (π × ο)) : List ο := (log.filter fun e => p ≤ e.1).map Prod.snd

/-- A snapshot recovers a state from a log. -/
def Recovers (apply : σ → ο → σ) (snapshot : π × σ) (log : List (π × ο)) (s : σ) : Prop :=
  replay apply snapshot.2 (logFrom snapshot.1 log) = s

variable {apply : σ → ο → σ} {p : π} {log : List (π × ο)} {s t : σ}

/-- A snapshot behind all operations is the present state. -/
theorem recovers_taken (h : ∀ e ∈ log, ¬ p ≤ e.1) : Recovers apply (p, s) log s := by
  have hnone : log.filter (fun e => p ≤ e.1) = [] := by
    rw [List.filter_eq_nil_iff]
    intro e he
    simpa using h e he
  rw [Recovers, logFrom, hnone]
  rfl

/-- An operation that is appended is recovered. -/
theorem Recovers.append (h : Recovers apply (p, s) log t) {x : π} (hx : p ≤ x) (op : ο) :
    Recovers apply (p, s) (log ++ [(x, op)]) (apply t op) := by
  have hlast : [(x, op)].filter (fun e => p ≤ e.1) = [(x, op)] := by simp [hx]
  rw [Recovers, logFrom, List.filter_append, hlast, List.map_append, replay_append]
  exact congrArg (apply · op) h

/-- What lies before the position of a snapshot is not needed. -/
theorem Recovers.compact (h : Recovers apply (p, s) log t) {keep : π × ο → Bool}
    (hkeep : ∀ e ∈ log, p ≤ e.1 → keep e = true) : Recovers apply (p, s) (log.filter keep) t := by
  rw [Recovers, logFrom, List.filter_filter]
  have hsame : log.filter (fun e => decide (p ≤ e.1) && keep e) = log.filter fun e => p ≤ e.1 := by
    refine List.filter_congr fun e he => ?_
    by_cases hp : p ≤ e.1
    · simp [hp, hkeep e he hp]
    · simp [hp]
  rw [hsame]
  exact h

end

end Whispercast.Library
