import Whispercast.Library.Run

/-!
# Alarms

`util::Alarm` (`common/base/alarm.cc`), with what it asks of the selector: whether `fire_callback_` is registered. Closures
have numbers; those that the alarm has deleted are remembered. Calls between `fire` and `returned` are made by the closure
that runs. `none` is a failed `CHECK`, or what cannot happen. Left out: the destructor, and the overflow of times.
-/

namespace Whispercast.Util

open Library

/-- `Alarm`, and what is remembered: the closures that were deleted, whether one of them was used, or deleted while it
ran, whether the last call was a starting one (`wanted`), and whether the last one behind a firing was a stopping one. -/
structure Alarm where
  alarm_ : Option Nat := none
  auto_delete_ : Bool := false
  timeout_ : Int := 0
  repeat_ : Bool := false
  last_start_ts_ : Int := -1
  last_fire_ts_ : Int := -1
  now : Nat := 0
  registered : Bool := false
  running : Option Nat := none
  deleted : List Nat := []
  misused : Bool := false
  wanted : Bool := false
  stopped : Bool := false

namespace Alarm

variable (s : Alarm)

def IsStarted : Prop := s.alarm_.isSome ∧ 0 ≤ s.last_start_ts_

instance : Decidable s.IsStarted := inferInstanceAs (Decidable (_ ∧ _))

def stop : Alarm := if s.IsStarted then { s with registered := false, last_start_ts_ := -1 } else s

/-- `Start`, with its `CHECK`. -/
def start : Option Alarm := do
  guard s.alarm_.isSome
  some { s with registered := true, last_start_ts_ := s.now }

/-- `delete alarm_`. -/
def deleteAlarm (c : Nat) : Alarm :=
  { s with deleted := c :: s.deleted, misused := s.misused || c ∈ s.deleted || s.running = some c }

def clear : Alarm :=
  let s := s.stop
  let s := match s.alarm_ with
    | some c => if s.auto_delete_ then s.deleteAlarm c else s
    | none => s
  { s with alarm_ := none, auto_delete_ := false }

/-- A call says that the alarm is to fire, or not to. -/
def want (b : Bool) : Alarm := { s with wanted := b, stopped := !b }

inductive Event where
  | set (closure : Nat) (auto_delete : Bool) (timeout : Int) (again start : Bool)
  | start
  | stop
  | clear
  | release
  | resetTimeout (timeout : Int)
  | fire
  | returned
  | time (now : Nat)

/-- One step. A closure that is set has not been deleted; `Fire` is split where the closure returns. -/
def step : Event → Option Alarm
  | .set closure auto_delete timeout again start => do
      guard (closure ∉ s.deleted)
      let s := { s.clear with
        alarm_ := some closure, auto_delete_ := auto_delete, timeout_ := timeout, repeat_ := again }
      if start then (s.want true).start else some (s.want false)
  | .start => (s.want true).start
  | .stop => some (s.stop.want false)
  | .clear => some (s.clear.want false)
  | .release => some { s.stop.want false with alarm_ := none }
  | .resetTimeout timeout => do
      guard s.alarm_.isSome
      { s.want true with timeout_ := timeout }.start
  | .fire => do
      guard (s.registered ∧ s.running = none)
      let c ← s.alarm_
      some { s with
        registered := false, last_fire_ts_ := s.now, last_start_ts_ := -1, running := some c
        misused := s.misused || c ∈ s.deleted, wanted := false, stopped := false }
  | .returned => do
      let c ← s.running
      let t := { s with running := none, wanted := s.wanted || (s.alarm_ = some c && s.repeat_ && !s.stopped) }
      if s.alarm_ = some c ∧ s.repeat_ then t.start else some t
  | .time now => some { s with now := now }

/-- A closure that is deleted with the alarm is not replaced or cleared while it runs, nor set again; and a repeating alarm
whose closure returns was not stopped by it, or was started again behind that. -/
def Careful : Event → Prop
  | .set closure .. => s.auto_delete_ → s.alarm_ ≠ some closure ∧ (s.alarm_.isSome → s.running ≠ s.alarm_)
  | .clear => s.auto_delete_ → s.alarm_.isSome → s.running ≠ s.alarm_
  | .returned => s.repeat_ → s.alarm_ = s.running → s.stopped = false
  | _ => True

instance decidableCareful : ∀ e, Decidable (s.Careful e)
  | .set .. | .clear | .returned => by unfold Careful; infer_instance
  | .start | .stop | .release | .resetTimeout _ | .fire | .time _ => .isTrue trivial

/-- What is to hold of every state: the alarm is started exactly when its callback is registered, and exactly when that is
wanted; and no closure was misused. -/
structure Fine : Prop where
  started : s.IsStarted ↔ s.registered = true
  wanted : s.registered = s.wanted
  unharmed : s.misused = false

/-- The invariant. -/
structure Inv : Prop where
  wanted : s.registered = s.wanted
  unharmed : s.misused = false
  set : s.registered = true → s.alarm_.isSome ∧ 0 ≤ s.last_start_ts_
  idle : s.registered = false → s.last_start_ts_ = -1
  kept : ∀ c, s.alarm_ = some c ∨ s.running = some c → c ∉ s.deleted

variable {s} {s' : Alarm}

theorem Inv.fine (h : s.Inv) : s.Fine where
  started := by
    refine ⟨fun hstarted => ?_, h.set⟩
    by_contra hnot
    have := h.idle (Bool.eq_false_iff.2 hnot)
    have := hstarted.2
    omega
  wanted := h.wanted
  unharmed := h.unharmed

theorem Inv.stop_eq (h : s.Inv) : s.stop = { s with registered := false, last_start_ts_ := -1 } := by
  unfold stop
  split_ifs with hstarted
  · rfl
  · have hfalse : s.registered = false := Bool.eq_false_iff.2 fun hr => hstarted (h.fine.started.2 hr)
    rw [← hfalse, ← h.idle hfalse]

/-- An alarm that is set and stopped, or whose callback was not registered, can be started. -/
theorem inv_start {t : Alarm} (hstart : t.start = some s') (hset : t.alarm_.isSome) (hwanted : t.wanted = true)
    (hunharmed : t.misused = false) (hkept : ∀ c, t.alarm_ = some c ∨ t.running = some c → c ∉ t.deleted) : s'.Inv := by
  rw [Alarm.start, guard_of hset] at hstart
  cases hstart
  exact ⟨hwanted.symm, hunharmed, fun _ => ⟨hset, Int.natCast_nonneg _⟩, nofun, hkept⟩

/-- `Clear` deletes the closure of the alarm at most, which does not run. -/
theorem Inv.clear (h : s.Inv) (hrunning : s.auto_delete_ → s.alarm_.isSome → s.running ≠ s.alarm_) :
    s.clear.registered = false ∧ s.clear.last_start_ts_ = -1 ∧ s.clear.alarm_ = none ∧ s.clear.misused = false ∧
      s.clear.running = s.running ∧ (∀ c, s.running = some c → c ∉ s.clear.deleted) ∧
      ∀ c, c ∉ s.deleted → (s.auto_delete_ → s.alarm_ ≠ some c) → c ∉ s.clear.deleted := by
  have hkept := h.kept
  have hunharmed := h.unharmed
  unfold Alarm.clear
  rw [h.stop_eq]
  cases halarm : s.alarm_ with
  | none => simp_all
  | some d =>
    cases hauto : s.auto_delete_ with
    | false => simp_all
    | true =>
      have hrun : s.running ≠ some d := halarm ▸ hrunning hauto (by rw [halarm]; rfl)
      simp only [deleteAlarm, hunharmed, hrun, hkept d (.inl halarm), if_true]
      refine ⟨trivial, trivial, trivial, by simp, trivial, fun c hc => ?_, fun c hc hne => ?_⟩
      · have hcd : c ≠ d := fun heq => hrun (heq ▸ hc)
        simp [hcd, hkept c (.inr hc)]
      · have hcd : c ≠ d := fun heq => hne trivial (by rw [heq])
        simp [hcd, hc]

theorem Inv.step (h : s.Inv) {e : Event} (hcareful : s.Careful e) (hstep : s.step e = some s') : s'.Inv := by
  cases e with
  | set closure auto_delete timeout again start =>
    obtain ⟨_, hguard, hstep⟩ := Option.bind_eq_some_iff.1 hstep
    have hnot : closure ∉ s.deleted := by
      by_contra hmem
      rw [guard_of_not (not_not.2 hmem)] at hguard
      cases hguard
    obtain ⟨hreg, hlast, -, hmisused, hrun, hrunning, hclosure⟩ := h.clear fun hauto => (hcareful hauto).2
    have hkept : ∀ c, some closure = some c ∨ s.clear.running = some c → c ∉ s.clear.deleted := by
      rintro c (heq | heq)
      · cases heq
        exact hclosure closure hnot fun hauto => (hcareful hauto).1
      · exact hrunning c (hrun ▸ heq)
    split_ifs at hstep with hstart
    · exact inv_start hstep rfl rfl hmisused hkept
    · cases hstep
      exact ⟨hreg, hmisused, by simp [want, hreg], fun _ => hlast, hkept⟩
  | start =>
    have hset : s.alarm_.isSome := by
      by_contra hset
      rw [Alarm.step, Alarm.start, guard_of_not (by simpa [want] using hset)] at hstep
      cases hstep
    exact inv_start hstep hset rfl h.unharmed h.kept
  | stop =>
    cases hstep
    rw [h.stop_eq]
    exact ⟨rfl, h.unharmed, nofun, fun _ => rfl, h.kept⟩
  | clear =>
    cases hstep
    obtain ⟨hreg, hlast, halarm, hmisused, hrun, hrunning, -⟩ := h.clear hcareful
    refine ⟨hreg, hmisused, by simp [want, hreg], fun _ => hlast, ?_⟩
    rintro c (heq | heq)
    · cases halarm.symm.trans heq
    · exact hrunning c (hrun ▸ heq)
  | release =>
    cases hstep
    rw [h.stop_eq]
    exact ⟨rfl, h.unharmed, nofun, fun _ => rfl, fun c hc => h.kept c (.inr (by simpa [want] using hc))⟩
  | resetTimeout timeout =>
    obtain ⟨_, hguard, hstep⟩ := Option.bind_eq_some_iff.1 hstep
    have hset : s.alarm_.isSome := by
      by_contra hset
      rw [guard_of_not hset] at hguard
      cases hguard
    exact inv_start hstep hset rfl h.unharmed h.kept
  | fire =>
    obtain ⟨_, hguard, hstep⟩ := Option.bind_eq_some_iff.1 hstep
    obtain ⟨c, halarm, hstep⟩ := Option.bind_eq_some_iff.1 hstep
    cases hstep
    have hc := h.kept c (.inl halarm)
    refine ⟨rfl, by simp [h.unharmed, hc], nofun, fun _ => rfl, ?_⟩
    rintro d (heq | heq)
    · exact h.kept d (.inl heq)
    · cases heq
      exact hc
  | returned =>
    obtain ⟨c, hrun, hstep⟩ := Option.bind_eq_some_iff.1 hstep
    have hkept : ∀ d, s.alarm_ = some d ∨ none = some d → d ∉ s.deleted := by
      rintro d (heq | heq)
      · exact h.kept d (.inl heq)
      · cases heq
    split_ifs at hstep with hagain
    · have hstopped := hcareful hagain.2 (hagain.1.trans hrun.symm)
      exact inv_start hstep (by simp [hagain.1]) (by simp [hagain, hstopped]) h.unharmed hkept
    · cases hstep
      have hwanted : s.registered = (s.wanted || (s.alarm_ = some c && s.repeat_ && !s.stopped)) := by
        rw [h.wanted]
        by_cases halarm : s.alarm_ = some c <;> cases hrepeat : s.repeat_ <;> simp_all
      exact ⟨hwanted, h.unharmed, h.set, h.idle, hkept⟩
  | time now =>
    cases hstep
    exact ⟨h.wanted, h.unharmed, h.set, h.idle, h.kept⟩

theorem inv_new : ({} : Alarm).Inv := ⟨rfl, rfl, nofun, fun _ => rfl, by simp⟩

/-- In every run whose steps are careful, every state is a fine one. -/
theorem run_stopped {events : List Event} (hcareful : Along step Careful {} events) (hrun : run step {} events = some s) :
    s.Fine :=
  (run_invariant_along (I := Inv) (fun _ _ _ h hc hstep => h.step hc hstep) inv_new hcareful hrun).fine

/-- A repeating alarm is replaced by its closure. -/
theorem run_stopped_replaced : ∃ s, run step {} [.set 0 false 10 true true, .fire, .returned, .fire,
    .set 1 true 20 true true, .returned, .stop] = some s ∧ s.Fine :=
  (Option.isSome_iff_exists.1 (by decide +kernel)).imp fun _ hs => ⟨hs, run_stopped (by decide +kernel) hs⟩

/-- A repeating alarm that its closure stops is started again. -/
theorem stopped_starts : ∃ s, run step {} [.set 0 false 10 true true, .fire, .stop, .returned] = some s ∧ ¬ s.Fine :=
  ⟨_, rfl, fun h => absurd h.wanted (by decide)⟩

end Alarm

end Whispercast.Util
