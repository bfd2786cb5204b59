import Mathlib.Data.List.Nodup
import Mathlib.Data.List.Range
import Mathlib.Data.List.Perm.Basic

/-!
# An agenda

What is to be done later is registered under a key, with the time when it is due. A registration is replaced by the
next one under its key, or cancelled, or served when its key is fired; until then it waits. It ends once, in one of
these ways.
-/

namespace Whispercast.Library

open List

variable {κ τ : Type}

/-- A registration. -/
structure Agenda.Entry (κ τ : Type) where
  id : Nat
  key : κ
  due : τ

/-- A key is fired at a time: the registrations that are served, and all that wait before. -/
structure Agenda.Firing (κ τ : Type) where
  key : κ
  time : τ
  served : List (Agenda.Entry κ τ)
  waiting : List (Agenda.Entry κ τ)

/-- All registrations, and what has become of them. -/
structure Agenda (κ τ : Type) where
  registered : Nat := 0
  waiting : List (Agenda.Entry κ τ) := []
  replaced : List Nat := []
  cancelled : List Nat := []
  fired : List (Agenda.Firing κ τ) := []

namespace Agenda

variable [DecidableEq κ]

/-- What waits under a key. -/
def under (key : κ) (a : Agenda κ τ) : List (Entry κ τ) := a.waiting.filter fun e => e.key = key

/-- What waits under other keys. -/
def others (key : κ) (a : Agenda κ τ) : List (Entry κ τ) := a.waiting.filter fun e => ¬ e.key = key

def register (key : κ) (due : τ) (a : Agenda κ τ) : Agenda κ τ :=
  { a with
    registered := a.registered + 1
    waiting := a.others key ++ [⟨a.registered, key, due⟩]
    replaced := a.replaced ++ (a.under key).map Entry.id }

def cancel (key : κ) (a : Agenda κ τ) : Agenda κ τ :=
  { a with waiting := a.others key, cancelled := a.cancelled ++ (a.under key).map Entry.id }

def fire (key : κ) (time : τ) (a : Agenda κ τ) : Agenda κ τ :=
  { a with waiting := a.others key, fired := a.fired ++ [⟨key, time, a.under key, a.waiting⟩] }

/-- The registrations that have been served. -/
def served (a : Agenda κ τ) : List (Entry κ τ) := a.fired.flatMap Firing.served

/-- Every registration waits, or has ended in one way, once; and a key has one registration at most that waits. -/
structure Sound (a : Agenda κ τ) : Prop where
  once : ((a.waiting ++ a.served).map Entry.id ++ (a.replaced ++ a.cancelled)).Perm (List.range a.registered)
  keys : (a.waiting.map Entry.key).Nodup

/-- What is fired waits, is due, and nothing that waits is due earlier. -/
def OnTime [LE τ] (a : Agenda κ τ) : Prop :=
  ∀ f ∈ a.fired, ∃ e ∈ f.waiting, f.served = [e] ∧ e.due ≤ f.time ∧ ∀ w ∈ f.waiting, e.due ≤ w.due

variable {a : Agenda κ τ} {key : κ} {due time : τ} {e : Entry κ τ}

theorem others_under_perm (key : κ) (a : Agenda κ τ) : (a.others key ++ a.under key).Perm a.waiting := by
  have h := filter_append_perm (fun e : Entry κ τ => decide ¬ e.key = key) a.waiting
  simpa [others, under] using h

theorem mem_others : e ∈ a.others key ↔ e ∈ a.waiting ∧ e.key ≠ key := by
  simp [others]

theorem mem_under : e ∈ a.under key ↔ e ∈ a.waiting ∧ e.key = key := by
  simp [under]

/-- The number of times that a registration waits. -/
theorem count_ids (key : κ) (a : Agenda κ τ) (id : Nat) : (a.waiting.map Entry.id).count id =
      ((a.others key).map Entry.id).count id + ((a.under key).map Entry.id).count id := by
  rw [← count_append, ← map_append]
  exact (((others_under_perm key a).map Entry.id).count_eq id).symm

omit [DecidableEq κ] in
theorem Sound.count (h : a.Sound) (id : Nat) :
    (a.waiting.map Entry.id).count id + (a.served.map Entry.id).count id + (a.replaced.count id + a.cancelled.count id) =
      (List.range a.registered).count id := by
  rw [← h.once.count_eq id]
  simp only [map_append, count_append]

omit [DecidableEq κ] in
theorem sound_init : ({} : Agenda κ τ).Sound := ⟨by simp [served], by simp⟩

theorem nodup_others (h : a.Sound) (key : κ) : ((a.others key).map Entry.key).Nodup :=
  h.keys.sublist (filter_sublist.map Entry.key)

theorem Sound.register (h : a.Sound) (key : κ) (due : τ) : (a.register key due).Sound where
  once := by
    refine perm_iff_count.2 fun id => ?_
    have hcount := h.count id
    rw [count_ids key a id] at hcount
    have hserved : (a.register key due).served = a.served := rfl
    rw [hserved]
    simp only [Agenda.register, map_append, count_append, map_cons, map_nil, range_succ]
    omega
  keys := by
    rw [Agenda.register, map_append]
    refine (nodup_others h key).append (nodup_singleton _) ?_
    intro k hk hkey
    obtain ⟨e, he, rfl⟩ := mem_map.1 hk
    exact (mem_others.1 he).2 (mem_singleton.1 hkey)

theorem Sound.cancel (h : a.Sound) (key : κ) : (a.cancel key).Sound where
  once := by
    refine perm_iff_count.2 fun id => ?_
    have hcount := h.count id
    rw [count_ids key a id] at hcount
    have hserved : (a.cancel key).served = a.served := rfl
    rw [hserved]
    simp only [Agenda.cancel, map_append, count_append]
    omega
  keys := nodup_others h key

theorem Sound.fire (h : a.Sound) (key : κ) (time : τ) : (a.fire key time).Sound where
  once := by
    refine perm_iff_count.2 fun id => ?_
    have hcount := h.count id
    rw [count_ids key a id] at hcount
    have hserved : (a.fire key time).served = a.served ++ a.under key := by simp [served, Agenda.fire]
    rw [hserved]
    simp only [Agenda.fire, map_append, count_append]
    omega
  keys := nodup_others h key

/-- A key with a registration has this one only. -/
theorem Sound.under_eq (h : a.Sound) (he : e ∈ a.waiting) : a.under e.key = [e] := by
  have hkey : ∀ x ∈ a.under e.key, x = e := fun x hx =>
    inj_on_of_nodup_map h.keys (mem_under.1 hx).1 he (mem_under.1 hx).2
  have hnodup : (a.under e.key).Nodup := (Nodup.of_map _ h.keys).filter _
  have hmem : e ∈ a.under e.key := mem_under.2 ⟨he, rfl⟩
  exact perm_singleton.1 ((perm_ext_iff_of_nodup hnodup (nodup_singleton e)).2 fun x =>
    ⟨fun hx => mem_singleton.2 (hkey x hx), fun hx => by rwa [mem_singleton.1 hx]⟩)

theorem OnTime.fire [LE τ] (h : a.OnTime) (hsound : a.Sound) (he : e ∈ a.waiting) (hdue : e.due ≤ time)
    (hfirst : ∀ w ∈ a.waiting, e.due ≤ w.due) : (a.fire e.key time).OnTime := by
  intro f hf
  rcases mem_append.1 hf with hf | hf
  · exact h f hf
  · obtain rfl := mem_singleton.1 hf
    exact ⟨e, he, hsound.under_eq he, hdue, hfirst⟩

end Agenda

end Whispercast.Library
