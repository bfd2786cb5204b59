import Whispercast.Library.Run
import Whispercast.Net.Selector

/-!
# Alarms run once, on time and in order

`alarms_` and `reverse_alarms_` hold what waits on the agenda. Each step of the selector keeps this, and an alarm that
is run is the first one that waits. Two pieces of `Loop` look at alarms that are overdue as if there were none: the
sleep before `LoopStep`, and the end of the loop; `Careful` leaves these cases out.
-/

namespace Whispercast.Net

open Library List Option Agenda Function

/-! ## The two indexes -/

instance : Std.Total Alarm.le where
  total x y := by
    rcases lt_trichotomy x.1 y.1 with htime | htime | htime
    · exact .inl (.inl htime)
    · exact (le_total x.2 y.2).imp (fun h => .inr ⟨htime, h⟩) fun h => .inr ⟨htime.symm, h⟩
    · exact .inr (.inl htime)

instance : IsTrans Alarm Alarm.le where
  trans x y z hxy hyz := by
    rcases hxy with hxy | ⟨hxy, hxy'⟩ <;> rcases hyz with hyz | ⟨hyz, hyz'⟩
    · exact .inl (hxy.trans hyz)
    · exact .inl (hyz ▸ hxy)
    · exact .inl (hxy ▸ hyz)
    · exact .inr ⟨hxy.trans hyz, hxy'.trans hyz'⟩

/-- The element of `alarms_` that a registration has. -/
def alarmOf (e : Agenda.Entry Closure Int) : Alarm := (e.due, e.key)

/-- `alarms_` and `reverse_alarms_` hold what waits. -/
structure Indexes (alarms : List Alarm) (reverse_alarms : Closure → Option Int)
    (waiting : List (Agenda.Entry Closure Int)) : Prop where
  sorted : alarms.Pairwise Alarm.le
  same : ∀ closure time, (time, closure) ∈ alarms ↔ reverse_alarms closure = some time
  waiting : (waiting.map alarmOf).Perm alarms

section Indexes

variable {alarms : List Alarm} {reverse_alarms : Closure → Option Int} {a : Agenda Closure Int}
  {waiting : List (Agenda.Entry Closure Int)} {closure : Closure} {time : Int}

theorem Indexes.mem (h : Indexes alarms reverse_alarms waiting) {e : Agenda.Entry Closure Int} (he : e ∈ waiting) :
    reverse_alarms e.key = some e.due :=
  (h.same _ _).1 (h.waiting.mem_iff.1 (mem_map_of_mem he))

theorem Indexes.exists (h : Indexes alarms reverse_alarms waiting) (hclosure : reverse_alarms closure = some time) :
    ∃ e ∈ waiting, e.due = time ∧ e.key = closure := by
  obtain ⟨e, he, heq⟩ := mem_map.1 (h.waiting.mem_iff.2 ((h.same closure time).2 hclosure))
  exact ⟨e, he, (Prod.mk.inj heq).1, (Prod.mk.inj heq).2⟩

/-- A closure that is not registered has nothing on the agenda. -/
theorem Indexes.others_eq (h : Indexes alarms reverse_alarms a.waiting) (hclosure : reverse_alarms closure = none) :
    a.others closure = a.waiting := by
  refine filter_eq_self.2 fun e he => decide_eq_true fun hkey => ?_
  have hmem := h.mem he
  rw [hkey, hclosure] at hmem
  cases hmem

/-- A closure is taken out of both indexes. -/
theorem Indexes.erase (h : Indexes alarms reverse_alarms a.waiting) (hsound : a.Sound)
    (hclosure : reverse_alarms closure = some time) :
    Indexes (alarms.erase (time, closure)) (Function.update reverse_alarms closure none) (a.others closure) := by
  have hmem := (h.same closure time).2 hclosure
  have hperm : ((a.others closure).map alarmOf).Perm (alarms.erase (time, closure)) := by
    obtain ⟨e, he, rfl, rfl⟩ := h.exists hclosure
    have hsplit := (others_under_perm e.key a).map alarmOf
    rw [hsound.under_eq he, List.map_append] at hsplit
    have hall := hsplit.trans (h.waiting.trans (List.perm_cons_erase hmem))
    exact ((List.perm_append_singleton _ _).symm.trans hall).cons_inv
  refine ⟨h.sorted.sublist List.erase_sublist, fun other t => ?_, hperm⟩
  rw [← hperm.mem_iff, List.mem_map]
  constructor
  · rintro ⟨e, he, heq⟩
    obtain ⟨rfl, rfl⟩ := Prod.mk.inj heq
    obtain ⟨hwaits, hne⟩ := mem_others.1 he
    rw [update_of_ne hne]
    exact h.mem hwaits
  · intro hother
    have hne : other ≠ closure := fun heq => by
      rw [heq, update_self] at hother
      cases hother
    rw [update_of_ne hne] at hother
    obtain ⟨e, he, rfl, rfl⟩ := h.exists hother
    exact ⟨e, mem_others.2 ⟨he, hne⟩, rfl⟩

/-- A closure that is in neither index is put into both. -/
theorem Indexes.insert (h : Indexes alarms reverse_alarms waiting) (hclosure : reverse_alarms closure = none)
    (id : Nat) (time : Int) :
    Indexes (insertAlarm (time, closure) alarms) (Function.update reverse_alarms closure (some time))
      (waiting ++ [⟨id, closure, time⟩]) := by
  have hnot : (time, closure) ∉ alarms := fun hmem => by
    rw [h.same, hclosure] at hmem
    cases hmem
  rw [insertAlarm, if_neg hnot]
  refine ⟨h.sorted.orderedInsert _ _, fun other t => ?_, ?_⟩
  · rw [mem_orderedInsert, h.same, Prod.mk.injEq]
    by_cases hother : other = closure
    · rw [hother, update_self, hclosure]
      simp [eq_comm]
    · rw [update_of_ne hother]
      simp [hother]
  · rw [map_append]
    refine (perm_append_singleton _ _).trans ?_
    exact (h.waiting.cons _).trans (perm_orderedInsert _ _ _).symm

end Indexes

/-! ## The property, and where it may be lost -/

/-- The loop is about to sleep, or sleeps. -/
def LoopPhase.Resting : LoopPhase → Prop
  | .top => True
  | .sleeping _ => True
  | _ => False

namespace Selector

/-- Both indexes hold what waits, every registration ends once, what is run is the first that waits and is due, and
while the loop sleeps nothing waits that was due when it woke up last; it sleeps no longer than up to the first alarm. -/
structure OnTime (s : Selector) : Prop where
  same : ∀ closure time, (time, closure) ∈ s.alarms_ ↔ s.reverse_alarms_ closure = some time
  waiting : (s.agenda.waiting.map alarmOf).Perm s.alarms_
  once : s.agenda.Sound
  fired : s.agenda.OnTime
  woke : s.phase.Resting → ∀ ticks, s.woke = some ticks → ∀ e ∈ s.agenda.waiting, (ticks : Int) < e.due
  timeout : ∀ timeout, s.phase = .sleeping timeout →
    0 ≤ timeout ∧ ∀ e ∈ s.agenda.waiting, timeout ≤ max 0 (e.due - s.now_)

/-- No alarm is overdue when the loop computes how long to sleep, unless a closure is to be run, and none is due when
the loop has ended. -/
def CarefulAt (p : SelectorFlags) (s : Selector) (ticks : Nat) : LoopPhase → Prop
  | .top => s.should_end_ = true ∨ s.to_run_ ≠ [] ∨
      ∀ x ∈ s.alarms_, (if p.selector_high_alarm_precission then (ticks : Int) else s.now_) ≤ x.1
  | .lastAlarms => ∀ x ∈ s.alarms_, (ticks : Int) < x.1
  | _ => True

def Careful (p : SelectorFlags) (s : Selector) : SelectorEvent → Prop
  | .go ticks => s.CarefulAt p ticks s.phase
  | _ => True

instance (p : SelectorFlags) (s : Selector) (ticks : Nat) : DecidablePred (s.CarefulAt p ticks)
  | .top => inferInstanceAs (Decidable (_ ∨ _))
  | .lastAlarms => inferInstanceAs (Decidable (∀ x ∈ s.alarms_, (ticks : Int) < x.1))
  | .idle | .sleeping _ | .events | .closures _ _ | .closure _ _ | .alarms | .alarm | .closing | .lastClosures _
  | .lastClosure _ | .callOnClose | .ended => isTrue trivial

instance (p : SelectorFlags) (s : Selector) : DecidablePred (s.Careful p)
  | .go ticks => inferInstanceAs (Decidable (s.CarefulAt p ticks s.phase))
  | .registerAlarm _ _ | .unregisterAlarm _ | .runInSelectLoop _ | .makeLoopExit | .loopStepFails => isTrue trivial

/-! ## Steps -/

/-- What every step keeps. -/
structure Inv (s : Selector) : Prop where
  indexes : Indexes s.alarms_ s.reverse_alarms_ s.agenda.waiting
  once : s.agenda.Sound
  fired : s.agenda.OnTime
  now_nonneg : 0 ≤ s.now_
  now_le : s.now_ ≤ s.clock
  clock_le : s.clock ≤ maxTicks
  unused : s.phase = .idle → s.woke = none
  woke_le : ∀ ticks, s.woke = some ticks → (ticks : Int) ≤ s.now_
  woke : s.phase.Resting → ∀ ticks, s.woke = some ticks → ∀ e ∈ s.agenda.waiting, (ticks : Int) < e.due
  timeout : ∀ timeout, s.phase = .sleeping timeout →
    0 ≤ timeout ∧ ∀ e ∈ s.agenda.waiting, timeout ≤ max 0 (e.due - s.now_)

variable {p : SelectorFlags} {s s' : Selector} {callback : Closure} {ticks : Nat}

theorem inv_new (hticks : ticks ≤ maxTicks) : (new ticks).Inv where
  indexes := ⟨Pairwise.nil, fun _ _ => by simp [new], .nil⟩
  once := sound_init
  fired := fun f hf => by cases hf
  now_nonneg := Int.natCast_nonneg ticks
  now_le := le_rfl
  clock_le := hticks
  unused := fun _ => rfl
  woke_le := fun _ hwoke => by cases hwoke
  woke := fun _ _ hwoke => by cases hwoke
  timeout := fun _ hphase => by cases hphase

theorem Inv.onTime (h : s.Inv) : s.OnTime :=
  ⟨h.indexes.same, h.indexes.waiting, h.once, h.fired, h.woke, h.timeout⟩

theorem Inv.mem_alarms (h : s.Inv) {e : Agenda.Entry Closure Int} : e ∈ s.agenda.waiting → (e.due, e.key) ∈ s.alarms_ :=
  fun he => (h.indexes.same _ _).2 (h.indexes.mem he)

variable {phase : LoopPhase}

theorem not_resting_of_inCallback (h : phase.InCallback) :
    ¬ phase.Resting ∧ phase ≠ .idle ∧ ∀ timeout, phase ≠ .sleeping timeout := by
  cases phase <;> simp_all [LoopPhase.InCallback, LoopPhase.Resting]

theorem not_resting_of_outside (h : phase.Outside) : ¬ phase.Resting ∧ ∀ timeout, phase ≠ .sleeping timeout := by
  rcases h with rfl | rfl <;> simp [LoopPhase.Resting]

/-- The sum that is checked is not wrapped. -/
theorem wake_up_time_eq {now : Int} (hnow : 0 ≤ now) (hmax : now ≤ maxTicks) {timeout : Int64}
    (hcheck : timeout.toInt < 0 ∨ timeout.toInt ≤ (now + timeout.toInt).bmod (2 ^ 64)) :
    (now + timeout.toInt).bmod (2 ^ 64) = now + timeout.toInt := by
  have hle := timeout.le_toInt
  have hmax' : now ≤ 9223372036854 := hmax.trans (by decide)
  rw [Int.bmod_def] at hcheck ⊢
  omega

section

variable (h : s.Inv)

include h

/-- Calls change the indexes and the agenda only, and are not made while the loop rests. -/
theorem Inv.changed (hphase : ¬ s.phase.Resting) {alarms : List Alarm}
    {reverse_alarms : Closure → Option Int} {agenda : Agenda Closure Int}
    (hindexes : Indexes alarms reverse_alarms agenda.waiting) (honce : agenda.Sound) (hfired : agenda.OnTime) :
    Inv { s with alarms_ := alarms, reverse_alarms_ := reverse_alarms, agenda := agenda } where
  indexes := hindexes
  once := honce
  fired := hfired
  now_nonneg := h.now_nonneg
  now_le := h.now_le
  clock_le := h.clock_le
  unused := h.unused
  woke_le := h.woke_le
  woke := fun hrests => absurd hrests hphase
  timeout := fun timeout heq => absurd (show s.phase.Resting by rw [show s.phase = _ from heq]; trivial) hphase

/-- Another piece of the loop begins, and reads the clock or not. -/
theorem Inv.moved {now : Int} (hnow : now = s.now_ ∨ now = s.clock)
    (hphase : ¬ phase.Resting) (hidle : phase ≠ .idle) : Inv { s with phase := phase, now_ := now } := by
  have hclock := h.now_le
  have hnonneg := h.now_nonneg
  refine ⟨h.indexes, h.once, h.fired, ?_, ?_, h.clock_le, fun heq => absurd heq hidle, fun t ht => ?_,
    fun hrests => absurd hrests hphase, fun t heq => ?_⟩
  · rcases hnow with rfl | rfl <;> dsimp only <;> omega
  · rcases hnow with rfl | rfl <;> dsimp only <;> omega
  · have := h.woke_le t ht
    rcases hnow with rfl | rfl <;> dsimp only <;> omega
  · exact absurd (show phase.Resting by rw [show phase = _ from heq]; trivial) hphase

theorem Inv.registerAlarm {timeout_in_ms : Int64} (hs : s.registerAlarm callback timeout_in_ms = some s') :
    s'.Inv := by
  rw [Selector.registerAlarm] at hs
  dsimp only at hs
  split_ifs at hs with hphase hcheck
  have hrests : ¬ s.phase.Resting := by
    rcases hphase with hin | hout
    · exact (not_resting_of_inCallback hin).1
    · exact (not_resting_of_outside hout.1).1
  rw [wake_up_time_eq h.now_nonneg (h.now_le.trans (Int.ofNat_le.2 h.clock_le)) hcheck] at hs
  have honce := h.once.register callback (s.now_ + timeout_in_ms.toInt)
  cases hreverse : s.reverse_alarms_ callback with
  | none =>
    rw [hreverse] at hs
    obtain rfl := Option.some.inj hs
    refine h.changed hrests ?_ honce h.fired
    rw [Agenda.register, h.indexes.others_eq hreverse]
    exact h.indexes.insert hreverse _ _
  | some old =>
    rw [hreverse] at hs
    obtain rfl := Option.some.inj hs
    refine h.changed hrests ?_ honce h.fired
    have hgone := (h.indexes.erase h.once hreverse).insert (update_self ..) s.agenda.registered
      (s.now_ + timeout_in_ms.toInt)
    rw [Function.update_idem] at hgone
    exact hgone

theorem Inv.unregisterAlarm (hs : s.unregisterAlarm callback = some s') : s'.Inv := by
  rw [Selector.unregisterAlarm] at hs
  split_ifs at hs with hphase
  have hrests := (not_resting_of_inCallback hphase).1
  dsimp only at hs
  cases hreverse : s.reverse_alarms_ callback with
  | none =>
    rw [hreverse] at hs
    obtain rfl := Option.some.inj hs
    refine h.changed hrests ?_ (h.once.cancel callback) h.fired
    rw [Agenda.cancel, h.indexes.others_eq hreverse]
    exact h.indexes
  | some time =>
    rw [hreverse] at hs
    dsimp only at hs
    split_ifs at hs
    obtain rfl := Option.some.inj hs
    exact h.changed hrests (h.indexes.erase h.once hreverse) (h.once.cancel callback) h.fired

/-- The first alarm is the first that waits. -/
theorem Inv.first {first : Int} {closure : Closure} {rest : List Alarm}
    (halarms : s.alarms_ = (first, closure) :: rest) :
    (∀ e ∈ s.agenda.waiting, first ≤ e.due) ∧ s.reverse_alarms_ closure = some first ∧
      ∃ e ∈ s.agenda.waiting, e.due = first ∧ e.key = closure := by
  have hreverse : s.reverse_alarms_ closure = some first :=
    (h.indexes.same _ _).1 (by rw [halarms]; exact mem_cons_self)
  refine ⟨fun e he => ?_, hreverse, h.indexes.exists hreverse⟩
  have hmem := h.mem_alarms he
  have hsorted := h.indexes.sorted
  rw [halarms] at hmem hsorted
  rcases mem_cons.1 hmem with heq | hlater
  · exact (Prod.mk.inj heq).1.ge
  · rcases rel_of_pairwise_cons hsorted hlater with hlt | ⟨heq, -⟩
    · exact hlt.le
    · exact heq.le

theorem Inv.runAlarm (hphase : s.phase = .alarms) (hs : s.runAlarm = some s') : s'.Inv := by
  -- Where the loop ends, nothing that waits is due.
  have hdone : (∀ e ∈ s.agenda.waiting, s.now_ < e.due) → Inv { s with phase := .top } := fun hlater =>
    ⟨h.indexes, h.once, h.fired, h.now_nonneg, h.now_le, h.clock_le, (nomatch ·), h.woke_le,
      fun _ t ht e he => (h.woke_le t ht).trans_lt (hlater e he), fun _ => (nomatch ·)⟩
  rw [Selector.runAlarm] at hs
  split at hs
  · next halarms =>
    obtain rfl := Option.some.inj hs
    refine hdone fun e he => ?_
    have hmem := h.mem_alarms he
    rw [halarms] at hmem
    cases hmem
  · next first closure rest halarms =>
    obtain ⟨hfirst, hreverse, e, he, hdue, rfl⟩ := h.first halarms
    by_cases hlater : s.now_ < first
    · rw [if_pos hlater] at hs
      obtain rfl := Option.some.inj hs
      exact hdone fun e he => hlater.trans_le (hfirst e he)
    · rw [if_neg hlater, eraseFirst, hreverse, if_neg (some_ne_none first), Option.map_some] at hs
      obtain rfl := Option.some.inj hs
      have herase := h.indexes.erase h.once hreverse
      rw [halarms, List.erase_cons_head] at herase
      have hfired : (s.agenda.fire e.key s.now_).OnTime :=
        Agenda.OnTime.fire h.fired h.once he (by rw [hdue]; exact Int.not_lt.1 hlater) fun w hw => by
          rw [hdue]
          exact hfirst w hw
      have hrests : ¬ s.phase.Resting := by
        rw [hphase]
        exact not_false
      exact (h.changed hrests herase (h.once.fire e.key s.now_) hfired).moved (.inl rfl) not_false (by simp)

/-- What waits to be run as a closure has nothing to do with the alarms. -/
theorem Inv.queued (to_run : List Closure) : Inv { s with to_run_ := to_run } :=
  ⟨h.indexes, h.once, h.fired, h.now_nonneg, h.now_le, h.clock_le, h.unused, h.woke_le, h.woke, h.timeout⟩

/-- The clock goes on. -/
theorem Inv.tick (hclock : s.clock ≤ ticks) (hmax : ticks ≤ maxTicks) : Inv { s with clock := ticks } :=
  ⟨h.indexes, h.once, h.fired, h.now_nonneg, h.now_le.trans (Int.ofNat_le.2 hclock), hmax, h.unused, h.woke_le, h.woke,
    h.timeout⟩

end

theorem refresh_eq (p : SelectorFlags) (ticks : Nat) (s : Selector) :
    ∃ now : Int, (now = s.now_ ∨ now = ticks) ∧ s.refresh p ticks = { s with now_ := now } := by
  rw [refresh]
  split_ifs
  · exact ⟨ticks, .inr rfl, rfl⟩
  · exact ⟨s.now_, .inl rfl, rfl⟩

theorem refresh_now (p : SelectorFlags) (ticks : Nat) (s : Selector) :
    (s.refresh p ticks).now_ = if p.selector_high_alarm_precission then (ticks : Int) else s.now_ := by
  rw [refresh]
  split_ifs <;> rfl

section

variable (h : s.Inv)

include h

/-- The loop sleeps until the first alarm is due, if that is soon. -/
theorem Inv.toSleepMs (hready : s.to_run_ ≠ [] ∨ ∀ x ∈ s.alarms_, s.now_ ≤ x.1) :
    0 ≤ s.toSleepMs ∧ ∀ e ∈ s.agenda.waiting, s.toSleepMs ≤ max 0 (e.due - s.now_) := by
  rw [Selector.toSleepMs]
  by_cases hrun : s.to_run_ ≠ []
  · rw [if_pos hrun]
    exact ⟨le_rfl, fun e _ => le_max_left _ _⟩
  · rw [if_neg hrun]
    replace hready := hready.resolve_left hrun
    split
    · next halarms =>
      refine ⟨by decide, fun e he => ?_⟩
      have hmem := h.mem_alarms he
      rw [halarms] at hmem
      cases hmem
    · next first closure rest halarms =>
      obtain ⟨hfirst, -, -⟩ := h.first halarms
      have hlate : s.now_ ≤ first := hready (first, closure) (by rw [halarms]; exact mem_cons_self)
      have hall : ∀ timeout : Int, 0 ≤ timeout → timeout ≤ first - s.now_ →
          0 ≤ timeout ∧ ∀ e ∈ s.agenda.waiting, timeout ≤ max 0 (e.due - s.now_) := by
        intro timeout hnonneg hle
        refine ⟨hnonneg, fun e he => ?_⟩
        have := hfirst e he
        omega
      by_cases hsoon : first < s.now_ + kStandardWakeUpTimeMs
      · -- The difference is small, so that nothing is cut off.
        rw [kStandardWakeUpTimeMs] at hsoon
        rw [if_pos (by rwa [kStandardWakeUpTimeMs]),
          Int.bmod_eq_of_le_mul_two (x := first - s.now_) (by omega) (by omega),
          Int.bmod_eq_of_le_mul_two (by omega) (by omega)]
        exact hall _ (by omega) le_rfl
      · rw [if_neg hsoon]
        rw [kStandardWakeUpTimeMs] at hsoon ⊢
        exact hall _ (by omega) (by omega)

theorem Inv.top (hphase : s.phase = .top) (hclock : s.clock = ticks)
    (hready : s.to_run_ ≠ [] ∨ ∀ x ∈ s.alarms_, (s.refresh p ticks).now_ ≤ x.1) :
    Inv { s.refresh p ticks with phase := .sleeping (s.refresh p ticks).toSleepMs } := by
  obtain ⟨now, hnow, heq⟩ := refresh_eq p ticks s
  rw [heq] at hready ⊢
  have hle := h.now_le
  have hnonneg := h.now_nonneg
  have h' : Inv { s with now_ := now } := by
    refine ⟨h.indexes, h.once, h.fired, ?_, ?_, h.clock_le, h.unused, fun t ht => (h.woke_le t ht).trans ?_, h.woke,
      fun _ hsleeps => ?_⟩
    · rcases hnow with rfl | rfl <;> dsimp only <;> omega
    · rcases hnow with rfl | rfl <;> dsimp only <;> omega
    · rcases hnow with rfl | rfl <;> dsimp only <;> omega
    · rw [show s.phase = _ from hsleeps] at hphase
      cases hphase
  refine ⟨h'.indexes, h'.once, h'.fired, h'.now_nonneg, h'.now_le, h'.clock_le, (nomatch ·), h'.woke_le,
    fun _ => h'.woke (by rw [show s.phase = _ from hphase]; trivial), fun timeout hsleeps => ?_⟩
  obtain rfl := LoopPhase.sleeping.inj hsleeps
  exact h'.toSleepMs hready

theorem Inv.dropAlarm (hclock : s.clock = ticks) (hlater : ∀ x ∈ s.alarms_, (ticks : Int) < x.1)
    (hs : s.dropAlarm ticks = some s') : s'.Inv := by
  rw [Selector.dropAlarm] at hs
  split at hs
  · obtain rfl := Option.some.inj hs
    exact h.moved (.inl rfl) not_false (by simp)
  · next first closure rest halarms =>
    rw [if_pos (hlater (first, closure) (by rw [halarms]; exact mem_cons_self))] at hs
    obtain rfl := Option.some.inj hs
    exact h.moved (.inr (by rw [hclock])) not_false (by simp)

theorem Inv.go (hclock : s.clock = ticks) (hcareful : s.Careful p (.go ticks))
    (hs : s.go p ticks = some s') : s'.Inv := by
  have hread : ∀ {now : Int}, now = s.now_ ∨ now = ticks → now = s.now_ ∨ now = s.clock := fun hnow => by rwa [hclock]
  replace hcareful : s.CarefulAt p ticks s.phase := hcareful
  rw [Selector.go] at hs
  cases hphase : s.phase with
  | idle =>
    rw [hphase] at hs
    obtain rfl := Option.some.inj hs
    exact ⟨h.indexes, h.once, h.fired, h.now_nonneg, h.now_le, h.clock_le, (nomatch ·), h.woke_le,
      fun _ t ht => by (cases (h.unused hphase).symm.trans ht), fun _ => (nomatch ·)⟩
  | top =>
    rw [hphase] at hs hcareful
    by_cases hend : s.should_end_ = true
    · rw [if_pos hend] at hs
      obtain rfl := Option.some.inj hs
      exact h.moved (.inl rfl) not_false (by simp)
    · rw [if_neg hend] at hs
      obtain rfl := Option.some.inj hs
      refine h.top hphase hclock ((hcareful.resolve_left hend).imp id fun hlate => ?_)
      rw [refresh_now]
      exact hlate
  | sleeping timeout =>
    rw [hphase] at hs
    obtain rfl := Option.some.inj hs
    have hmoved : Inv { s with phase := .events, now_ := (ticks : Int) } :=
      h.moved (.inr (by rw [hclock])) not_false (by simp)
    exact ⟨hmoved.indexes, hmoved.once, hmoved.fired, hmoved.now_nonneg, hmoved.now_le, hmoved.clock_le, (nomatch ·),
      fun t ht => (Option.some.inj ht ▸ le_rfl), fun hrests => absurd hrests not_false, fun _ => (nomatch ·)⟩
  | events =>
    rw [hphase] at hs
    obtain rfl := Option.some.inj hs
    obtain ⟨now, hnow, heq⟩ := refresh_eq p ticks s
    rw [heq]
    exact h.moved (hread hnow) not_false (by simp)
  | closures run_count ran =>
    rw [hphase] at hs
    obtain rfl := Option.some.inj hs
    rw [runClosure]
    split_ifs
    · exact (h.queued s.to_run_.tail).moved (.inl rfl) not_false (by simp)
    · exact h.moved (.inl rfl) not_false (by simp)
    · obtain ⟨now, hnow, heq⟩ := refresh_eq p ticks s
      rw [heq]
      exact h.moved (hread hnow) not_false (by simp)
  | closure run_count ran =>
    rw [hphase] at hs
    obtain rfl := Option.some.inj hs
    exact h.moved (.inl rfl) not_false (by simp)
  | alarms =>
    rw [hphase] at hs
    exact h.runAlarm hphase hs
  | alarm =>
    rw [hphase] at hs
    obtain rfl := Option.some.inj hs
    exact h.moved (.inl rfl) not_false (by simp)
  | closing =>
    rw [hphase] at hs
    obtain rfl := Option.some.inj hs
    exact h.moved (.inr (by rw [hclock])) not_false (by simp)
  | lastClosures ran =>
    rw [hphase] at hs
    replace hs : s.runLastClosure p ran = some s' := hs
    rw [runLastClosure] at hs
    split_ifs at hs <;> obtain rfl := Option.some.inj hs
    · exact (h.queued s.to_run_.tail).moved (.inl rfl) not_false (by simp)
    · exact h.moved (.inl rfl) not_false (by simp)
    · exact h.moved (.inl rfl) not_false (by simp)
  | lastClosure ran =>
    rw [hphase] at hs
    obtain rfl := Option.some.inj hs
    exact h.moved (.inl rfl) not_false (by simp)
  | lastAlarms =>
    rw [hphase] at hs hcareful
    exact h.dropAlarm hclock hcareful hs
  | callOnClose =>
    rw [hphase] at hs
    obtain rfl := Option.some.inj hs
    exact h.moved (.inl rfl) not_false (by simp)
  | ended =>
    rw [hphase] at hs
    cases hs

theorem Inv.step {event : SelectorEvent} (hcareful : s.Careful p event) (hs : s.step p event = some s') : s'.Inv := by
  cases event with
  | registerAlarm callback timeout_in_ms => exact h.registerAlarm hs
  | unregisterAlarm callback => exact h.unregisterAlarm hs
  | runInSelectLoop callback =>
    obtain rfl := Option.some.inj hs
    exact h.queued _
  | makeLoopExit =>
    rw [Selector.step] at hs
    split_ifs at hs
    obtain rfl := Option.some.inj hs
    exact ⟨h.indexes, h.once, h.fired, h.now_nonneg, h.now_le, h.clock_le, h.unused, h.woke_le, h.woke, h.timeout⟩
  | go ticks =>
    rw [Selector.step] at hs
    split_ifs at hs with hticks
    exact (h.tick hticks.1 hticks.2).go rfl hcareful hs
  | loopStepFails =>
    rw [Selector.step] at hs
    split at hs
    · obtain rfl := Option.some.inj hs
      exact h.moved (.inl rfl) not_false (by simp)
    · cases hs

theorem Inv.eraseFirst_isSome {first : Int} {closure : Closure} {rest : List Alarm}
    (halarms : s.alarms_ = (first, closure) :: rest) : (s.eraseFirst closure rest).isSome := by
  rw [eraseFirst, (h.first halarms).2.1, if_neg (some_ne_none first)]
  rfl

/-- The checks on the two indexes are passed. -/
theorem Inv.unregisterAlarm_isSome (hphase : s.phase.InCallback) (callback : Closure) :
    (s.unregisterAlarm callback).isSome := by
  rw [Selector.unregisterAlarm, if_neg (not_not.2 hphase)]
  dsimp only
  cases hreverse : s.reverse_alarms_ callback with
  | none => rfl
  | some time =>
    dsimp only
    rw [if_neg (not_not.2 ((h.indexes.same _ _).2 hreverse))]
    rfl

theorem Inv.go_isSome (hphase : s.phase ≠ .ended) (hclosures : 0 < p.selector_num_closures_per_event)
    (ticks : Nat) : (s.go p ticks).isSome := by
  rw [Selector.go]
  split
  · rfl
  · split_ifs <;> rfl
  · rfl
  · rfl
  · rfl
  · rfl
  · rw [Selector.runAlarm]
    split
    · rfl
    · next first closure rest halarms =>
      split_ifs
      · rfl
      · rw [Option.isSome_map]
        exact h.eraseFirst_isSome halarms
  · rfl
  · rfl
  · next ran _ =>
    rw [runLastClosure]
    split_ifs with hrun hran hleft
    · rfl
    · rfl
    · exact absurd ⟨by omega, hleft⟩ hrun
    · rfl
  · rfl
  · rw [Selector.dropAlarm]
    split
    · rfl
    · next first closure rest halarms =>
      dsimp only
      split_ifs
      · rfl
      · rw [eraseFirst, (h.first halarms).2.1, if_neg (some_ne_none first)]
        rfl
  · rfl
  · contradiction

end

/-- In every run along the condition the alarms are run once, on time and in order, and no check of the selector on its
indexes fails: a closure can be unregistered, and the loop goes on until it is over. -/
theorem alarms_on_time (p : SelectorFlags) (ticks : Nat) (hticks : ticks ≤ maxTicks) (events : List SelectorEvent)
    (s : Selector) (hcareful : Along (step p) (Careful p) (new ticks) events)
    (hrun : run (step p) (new ticks) events = some s) :
    s.OnTime ∧ (s.phase.InCallback → ∀ callback, (s.step p (.unregisterAlarm callback)).isSome) ∧
      (s.phase ≠ .ended → 0 < p.selector_num_closures_per_event →
        ∀ next, s.clock ≤ next → next ≤ maxTicks → (s.step p (.go next)).isSome) := by
  have h : s.Inv :=
    run_invariant_along (fun _ _ _ h hcareful hs => h.step hcareful hs) (inv_new hticks) hcareful hrun
  refine ⟨h.onTime, h.unregisterAlarm_isSome, fun hphase hclosures next hclock hmax => ?_⟩
  rw [Selector.step, if_pos ⟨hclock, hmax⟩]
  exact (h.tick hclock hmax).go_isSome hphase hclosures next

/-! ## Samples -/

/-- An alarm that is registered before `Loop`, one that is replaced and one that is cancelled. -/
def alarmRun : List SelectorEvent :=
  [.registerAlarm 7 10, .go 5, .go 6, .go 15, .registerAlarm 8 5, .registerAlarm 8 0, .registerAlarm 9 1,
    .unregisterAlarm 9, .go 15, .go 15, .go 16, .go 16, .go 16, .go 17, .go 17, .go 18]

theorem alarms_on_time_run :
    ∃ s, run (step {}) (new 5) alarmRun = some s ∧ s.agenda.fired.map Agenda.Firing.key = [7, 8] ∧
      (s.OnTime ∧ (s.phase.InCallback → ∀ callback, (s.step {} (.unregisterAlarm callback)).isSome) ∧
        (s.phase ≠ .ended → 0 < 64 → ∀ next, s.clock ≤ next → next ≤ maxTicks → (s.step {} (.go next)).isSome)) := by
  have hcareful : Along (step {}) (Careful {}) (new 5) alarmRun := by decide
  exact ⟨_, rfl, rfl, alarms_on_time {} 5 (by decide) alarmRun _ hcareful rfl⟩

/-- An alarm falls due between the clock reading before the alarms are run and the one before the sleep. -/
def overdueRun : List SelectorEvent :=
  [.go 0, .go 0, .go 1, .registerAlarm 7 10, .go 2, .go 3, .go 3, .go 12]

/-- An alarm is due when the loop has ended. -/
def endRun : List SelectorEvent :=
  [.go 0, .go 0, .go 1, .registerAlarm 7 5, .makeLoopExit, .go 1, .go 1, .go 1, .go 2, .go 10, .go 10, .go 10]

/-- In `overdueRun` the loop sleeps without end, and in `endRun` the alarm is thrown away. -/
theorem alarms_not_on_time :
    (∃ s, run (step { selector_high_alarm_precission := true }) (new 0) overdueRun = some s ∧
      s.phase = .sleeping (-1) ∧ ¬ s.OnTime) ∧
    ∃ s, run (step {}) (new 0) endRun = some s ∧ s.agenda.waiting = [⟨0, 7, 6⟩] ∧ s.alarms_ = [] ∧ ¬ s.OnTime := by
  refine ⟨⟨_, rfl, rfl, fun h => ?_⟩, _, rfl, rfl, rfl, fun h => ?_⟩
  · exact absurd (h.timeout (-1) rfl).1 (by decide)
  · exact absurd h.waiting.length_eq (by decide)

end Selector

end Whispercast.Net
