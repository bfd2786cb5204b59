import Whispercast.Stream.PlaylistPolicy

/-!
# The schedule of a timed playlist

When an item of a timed playlist is replaced, in runs of the alarm, the clock, ends of streams and restarts.
-/

namespace Whispercast.Stream

open Library Position

namespace Position

variable {α : Type} {p : Position α}

/-- The index behind the current one. -/
def successor (p : Position α) : Option Int :=
  if p.crt_ + 1 < p.size then some (p.crt_ + 1) else if p.loop_playlist_ then some 0 else none

theorem not_valid (h : p.playlist_.isEmpty) (i : Int) : ¬ p.Valid i := by
  rintro ⟨_, hlt⟩
  rw [size, List.isEmpty_iff.1 h, List.length_nil] at hlt
  omega

theorem not_valid_neg : ¬ p.Valid (-1) := fun h => absurd h.1 (by decide)

theorem goToNext_isEmpty (h : p.goToNext.2 = .empty) : p.playlist_.isEmpty := by
  by_contra hempty
  unfold goToNext at h
  split_ifs at h

/-- One item is to be played next. -/
theorem goToNext_queued (h : p.Valid p.next_to_play_) (hnn : ¬ p.Valid p.next_next_to_play_) :
    p.goToNext = ({ p with crt_ := p.next_to_play_, next_to_play_ := -1 }, .plays) := by
  unfold goToNext
  rw [if_neg (fun hempty => not_valid hempty _ h), if_pos h, if_neg hnn]

theorem goToNext_successor (h : p.Valid p.crt_) (hnext : ¬ p.Valid p.next_to_play_) :
    p.goToNext.2 ≠ .empty ∧ (if p.goToNext.2 = .plays then some p.goToNext.1.crt_ else none) = p.successor := by
  have hempty : ¬ p.playlist_.isEmpty := fun hempty => not_valid hempty _ h
  unfold goToNext successor
  rw [if_neg hempty, if_neg hnext]
  split_ifs with hend hloop <;> first | omega | simp_all

/-- Where only one item was to be played next, nothing is left of that. -/
theorem goToNext_queue (h : ¬ p.Valid p.next_next_to_play_) (hne : p.goToNext.2 ≠ .empty) :
    ¬ p.goToNext.1.Valid p.goToNext.1.next_to_play_ ∧ ¬ p.goToNext.1.Valid p.goToNext.1.next_next_to_play_ := by
  unfold goToNext at hne ⊢
  split_ifs at hne ⊢ with hempty hnext hend hloop
  · exact absurd rfl hne
  · exact ⟨not_valid_neg, h⟩
  · exact ⟨hnext, h⟩
  · exact ⟨hnext, h⟩
  · exact ⟨hnext, h⟩

end Position

namespace TimedPlaylistPolicy

variable (s : TimedPlaylistPolicy)

/-- The alarm goes off exactly when it is due, the clock does not go back, there are no calls but `NotifyEos`, and a policy
is restarted behind its end. An item is replayed only at the time at which it was started; and a policy is restarted only
while what is saved is that time. -/
def Punctual : Call → Prop
  | .fire _ => s.running ∧ s.alarm = some s.now
  | .time now => s.now ≤ now ∧ ∀ due ∈ s.alarm, now ≤ due
  | .stop => s.running
  | .restart _ => ¬ s.running ∧ ∀ slot ∈ s.slot, 0 < slot.2 ∧
      s.local_state_keeper_.bind SavedState.last_switch_time = some slot.2
  | .notifyEos _ => s.running ∧ (s.policy_ = .replay → ∀ slot ∈ s.slot.or (some (0, s.now - 1)), slot.2 = s.now)
  | _ => False

instance decidablePunctual : ∀ c, Decidable (s.Punctual c)
  | .fire _ | .time _ | .stop | .restart _ | .notifyEos _ => by unfold Punctual; infer_instance
  | .goToNext _ | .goToPrev _ | .addToPlay _ | .reset => .isFalse id

/-- Every item is replaced by the one behind it, when its time is over or, if that is later, at the restart. -/
structure OnSchedule : Prop where
  playing : s.running → ∀ i t, s.slot = some (i, t) → s.position.crt_ = i ∧ ∃ item, s.position.current = some item ∧
    s.alarm = some (max (t + item.1) s.resumed) ∧ s.now ≤ max (t + item.1) s.resumed
  replaced : s.running → s.slot.isSome → s.alarm = some s.now → ∀ switched, ∃ s', s.step (.fire switched) = some s' ∧
    s'.slot = s.position.successor.map (·, s.now)
  kept : ∀ c s', s.Punctual c → (∀ switched, c ≠ .fire switched) → s.step c = some s' → s.slot.isSome → s'.slot = s.slot

/-- A policy that was never started, with its state keeper. -/
def fresh (playlist : List (Int × String)) (loop_playlist : Bool) (policy : EmptyPolicy) (now : Int) :
    TimedPlaylistPolicy where
  position := { playlist_ := playlist, loop_playlist_ := loop_playlist }
  policy_ := policy
  local_state_keeper_ := some {}
  now := now

/-- The invariant. -/
structure Inv : Prop where
  policy : s.policy_ ≠ .next
  positive : ∀ item ∈ s.position.playlist_, 0 < item.1
  keeper : ∃ saved, s.local_state_keeper_ = some saved ∧ ¬ s.position.Valid (saved.next_next_to_play.getD (-1)) ∧
    (∀ i t, s.slot = some (i, t) → saved.next_to_play = some i) ∧
    (s.slot = none → saved.last_switch_time.getD (-1) ≤ 0)
  crt : -1 ≤ s.position.crt_
  queue : ¬ s.position.Valid s.position.next_to_play_ ∧ ¬ s.position.Valid s.position.next_next_to_play_
  slot : ∀ i t, s.slot = some (i, t) → s.position.Valid i ∧ t ≤ s.now
  last : s.running → s.last_switch_time_ ≤ 0
  alarm : s.slot = none → s.alarm = none
  playing : s.running → ∀ i t, s.slot = some (i, t) → s.position.crt_ = i ∧ ∃ item, s.position.current = some item ∧
    s.alarm = some (max (t + item.1) s.resumed) ∧ t ≤ s.resumed ∧ s.resumed ≤ s.now ∧
    s.now ≤ max (t + item.1) s.resumed

variable {s} {s' : TimedPlaylistPolicy} {w : Bool}

theorem delay_eq {duration : Int} (h : s.last_switch_time_ ≤ 0) : s.delay duration = duration :=
  if_neg fun hlt => absurd hlt.1 (by omega)

/-- `GoToNext` without a time to resume starts an item, for its whole duration. -/
theorem inv_goToNext {saved : SavedState} (hpolicy : s.policy_ ≠ .next)
    (hpositive : ∀ item ∈ s.position.playlist_, 0 < item.1) (hkeeper : s.local_state_keeper_ = some saved)
    (hcrt : -1 ≤ s.position.crt_) (hqueue : ¬ s.position.Valid s.position.next_next_to_play_)
    (hlast : s.last_switch_time_ ≤ 0) (halarm : s.alarm = none)
    (hempty : s.position.goToNext.2 = .empty → s.Inv) :
    ∃ s' r, s.goToNext w = some (s', r) ∧ s'.Inv ∧ (s.position.goToNext.2 ≠ .empty →
      s'.slot = (if s.position.goToNext.2 = .plays then some s.position.goToNext.1.crt_ else none).map (·, s.now)) := by
  have hvalid := goToNext_valid hcrt
  have hlist : s.position.goToNext.1.playlist_ = s.position.playlist_ := goToNext_playlist
  unfold goToNext move
  cases houtcome : s.position.goToNext.2 with
  | empty => exact ⟨s, false, rfl, hempty houtcome, fun hne => absurd rfl hne⟩
  | refused =>
    have hq := goToNext_queue hqueue (by simp [houtcome])
    refine ⟨_, _, rfl, ⟨hpolicy, hlist ▸ hpositive, ?_, hvalid.1, hq, by rintro _ _ ⟨⟩, fun _ => hlast,
      fun _ => halarm, by rintro _ _ _ ⟨⟩⟩, fun _ => rfl⟩
    exact ⟨⟨some s.position.goToNext.1.crt_, some s.position.goToNext.1.next_to_play_, some s.last_switch_time_⟩, by simp [saveState, hkeeper], hq.1,
      by rintro _ _ ⟨⟩, fun _ => hlast⟩
  | plays =>
    have hq := goToNext_queue hqueue (by simp [houtcome])
    obtain ⟨item, hitem, hmem⟩ := exists_current (hvalid.2 houtcome)
    have hpos := hpositive item (hlist ▸ hmem)
    rw [playCurrent_eq (s := { s with
      position := s.position.goToNext.1, slot := some (s.position.goToNext.1.crt_, s.now), resumed := s.now }) hitem,
      delay_eq (by exact hlast)]
    refine ⟨_, _, rfl, ⟨hpolicy, hlist ▸ hpositive, ?_, hvalid.1, hq, ?_, fun _ => Int.le_refl _, by rintro ⟨⟩, ?_⟩, fun _ => rfl⟩
    · refine ⟨⟨some s.position.goToNext.1.crt_, some s.position.goToNext.1.next_to_play_, some s.now⟩, by simp [hkeeper],
        hq.1, fun i t hslot => ?_, by rintro ⟨⟩⟩
      cases hslot
      rfl
    · intro i t hslot
      cases hslot
      exact ⟨hvalid.2 houtcome, Int.le_refl _⟩
    · intro _ i t hslot
      cases hslot
      refine ⟨rfl, item, hitem, ?_, Int.le_refl _, Int.le_refl _, Int.le_max_right _ _⟩
      rw [Int.max_eq_left (by dsimp only; omega)]

/-- At the end of its time, an item is replaced by the one behind it. -/
theorem Inv.fire (h : s.Inv) (hpunctual : s.Punctual (.fire w)) :
    ∃ s', s.step (.fire w) = some s' ∧ s'.Inv ∧ s'.slot = s.position.successor.map (·, s.now) := by
  obtain ⟨hrunning, halarm⟩ := hpunctual
  cases hslot : s.slot with
  | none => cases (h.alarm hslot).symm.trans halarm
  | some slot =>
    obtain ⟨_, hsaved, -⟩ := h.keeper
    obtain ⟨hcrt, -⟩ := h.playing hrunning slot.1 slot.2 hslot
    have hvalid : s.position.Valid s.position.crt_ := hcrt.symm ▸ (h.slot slot.1 slot.2 hslot).1
    obtain ⟨hne, hnext⟩ := goToNext_successor hvalid h.queue.1
    obtain ⟨s', r, hcall, hinv, hslot'⟩ := inv_goToNext (s := { s with alarm := none }) (w := w) h.policy
      h.positive hsaved h.crt h.queue.2 (h.last hrunning) rfl fun hempty => absurd hempty hne
    exact ⟨s', by rw [step, call, hcall]; rfl, hinv, by rw [hslot' hne, ← hnext]⟩

/-- What a policy is loaded to. -/
theorem load_eq {saved : SavedState} (h : s.local_state_keeper_ = some saved) : s.load = { s with
    position := { s.position.reset with
      next_to_play_ := saved.next_to_play.getD (-1), next_next_to_play_ := saved.next_next_to_play.getD (-1) }
    last_switch_time_ := saved.last_switch_time.getD (-1), alarm := none, running := true
    local_state_keeper_ := some ⟨some (-1), some (saved.next_to_play.getD (-1)),
      some (saved.last_switch_time.getD (-1))⟩ } := by
  simp only [load, loadState, h, saveState]
  rfl

/-- A policy that is restarted while what is saved is the time at which its item was started goes on with that item until
its time is over. -/
theorem Inv.restart (h : s.Inv) (hpunctual : s.Punctual (.restart w)) :
    ∃ s', s.step (.restart w) = some s' ∧ s'.Inv ∧ (s.slot.isSome → s'.slot = s.slot) := by
  obtain ⟨saved, hsaved, hnn, hnext, hlast⟩ := h.keeper
  have hload := load_eq hsaved
  rw [step, call, TimedPlaylistPolicy.restart]
  cases hslot : s.slot with
  | none =>
    obtain ⟨s', r, hcall, hinv, -⟩ := inv_goToNext (s := s.load) (w := w) (by rw [hload]; exact h.policy)
      (by rw [hload]; exact h.positive) (by rw [hload]) (Int.le_of_eq (load_crt s).symm) (by rw [hload]; exact hnn)
      (by rw [hload]; exact hlast hslot) (by rw [hload]) fun hempty => by
      have hvalid := not_valid (goToNext_isEmpty hempty)
      have hnone : s.load.slot = none := by rw [hload, ← hslot]
      exact ⟨by rw [hload]; exact h.policy, by rw [hload]; exact h.positive,
        ⟨⟨some (-1), some (saved.next_to_play.getD (-1)), some (saved.last_switch_time.getD (-1))⟩, by rw [hload],
          hvalid _, by simp [hnone], fun _ => hlast hslot⟩, Int.le_of_eq (load_crt s).symm, ⟨hvalid _, hvalid _⟩,
        by simp [hnone], fun _ => by rw [hload]; exact hlast hslot, fun _ => by rw [hload], by simp [hnone]⟩
    exact ⟨_, by rw [hcall]; rfl, hinv, by rintro ⟨⟩⟩
  | some slot =>
    obtain ⟨_, htime⟩ := hpunctual.2 slot hslot
    rw [hsaved, Option.bind_some] at htime
    obtain ⟨hvalid, hle⟩ := h.slot slot.1 slot.2 hslot
    have hqueued : s.load.position.next_to_play_ = slot.1 := by rw [hload, hnext slot.1 slot.2 hslot]; rfl
    have hgo := goToNext_queued (p := s.load.position) (by rw [hqueued, hload]; exact hvalid)
      (by rw [hload]; exact hnn)
    rw [hqueued] at hgo
    obtain ⟨item, hitem, hmem⟩ := exists_current
      (p := { s.load.position with crt_ := slot.1, next_to_play_ := -1 }) (by rw [hload]; exact hvalid)
    have hduration := h.positive item (by rw [hload] at hmem; exact hmem)
    have hcall : s.load.goToNext w = some ({ s with
        position := { s.position with
          crt_ := slot.1, next_to_play_ := -1, next_next_to_play_ := saved.next_next_to_play.getD (-1) }
        last_switch_time_ := 0, alarm := some (max (slot.2 + item.1) s.now), running := true
        local_state_keeper_ := some ⟨some slot.1, some (-1), some s.now⟩
        slot := some (slot.1, s.now), resumed := s.now }, w) := by
      rw [goToNext, move, hgo]
      refine (playCurrent_eq hitem).trans ?_
      have hdelay : s.now + (if 0 < slot.2 ∧ slot.2 < s.now then max 0 (item.1 - (s.now - slot.2)) else item.1) =
          max (slot.2 + item.1) s.now := by split_ifs <;> omega
      simp only [hload, delay, htime, Option.getD_some, hdelay]
      rfl
    rw [hcall]
    refine ⟨_, rfl, ⟨h.policy, h.positive, ⟨_, rfl, ?_, ?_, by rintro ⟨⟩⟩, ?_, ?_, ?_, fun _ => Int.le_refl _,
      by rintro ⟨⟩, ?_⟩,
      fun _ => rfl⟩
    · exact not_valid_neg
    · rintro i t heq
      cases heq
      rfl
    · exact Int.le_trans (by decide) hvalid.1
    · exact ⟨not_valid_neg, hnn⟩
    · rintro i t heq
      cases heq
      exact ⟨hvalid, hle⟩
    · rintro - i t heq
      cases heq
      rw [hload] at hitem
      exact ⟨rfl, item, hitem, rfl, hle, Int.le_refl _, Int.le_max_right _ _⟩

/-- An item that is replayed at the time at which it was started. -/
theorem Inv.notifyEos (h : s.Inv) (hpunctual : s.Punctual (.notifyEos w)) :
    ∃ s', s.step (.notifyEos w) = some s' ∧ s'.Inv ∧ s'.slot = s.slot := by
  rw [step, call, TimedPlaylistPolicy.notifyEos]
  cases hpolicy : s.policy_ with
  | next => exact absurd hpolicy h.policy
  | wait => exact ⟨s, rfl, h, rfl⟩
  | replay =>
    cases hslot : s.slot with
    | none =>
      have := hpunctual.2 hpolicy (0, s.now - 1) (by rw [hslot]; rfl)
      omega
    | some slot =>
      have htime := hpunctual.2 hpolicy slot (by rw [hslot]; rfl)
      obtain ⟨_, hsaved, -⟩ := h.keeper
      obtain ⟨hcrt, item, hitem, -, hresumed, hnow, -⟩ := h.playing hpunctual.1 slot.1 slot.2 hslot
      obtain ⟨hvalid, _⟩ := h.slot slot.1 slot.2 hslot
      have hduration := h.positive item (by
        obtain ⟨_, hitem', hmem⟩ := exists_current (p := s.position) (hcrt ▸ hvalid)
        cases hitem.symm.trans hitem'
        exact hmem)
      rw [playCurrent_eq hitem, delay_eq (h.last hpunctual.1), hsaved]
      refine ⟨_, rfl, ⟨h.policy, h.positive, ⟨_, rfl, h.queue.1, ?_, ?_⟩, h.crt, h.queue, h.slot, fun _ => Int.le_refl _,
        ?_, ?_⟩, hslot⟩
      · rintro i t heq
        cases hslot.symm.trans heq
        exact congrArg some hcrt
      · simp [hslot]
      · simp [hslot]
      · rintro - i t heq
        cases hslot.symm.trans heq
        refine ⟨hcrt, item, hitem, ?_, hresumed, hnow, ?_⟩
        · exact congrArg some (by dsimp only; omega)
        · dsimp only; omega

theorem Inv.step (h : s.Inv) {c : Call} (hpunctual : s.Punctual c) : ∃ s', s.step c = some s' ∧ s'.Inv := by
  cases c with
  | fire switched =>
    obtain ⟨s', hstep, hinv, -⟩ := h.fire hpunctual
    exact ⟨s', hstep, hinv⟩
  | restart switched =>
    obtain ⟨s', hstep, hinv, -⟩ := h.restart hpunctual
    exact ⟨s', hstep, hinv⟩
  | notifyEos switched =>
    obtain ⟨s', hstep, hinv, -⟩ := h.notifyEos hpunctual
    exact ⟨s', hstep, hinv⟩
  | time now =>
    refine ⟨_, rfl, ⟨h.policy, h.positive, h.keeper, h.crt, h.queue, ?_, h.last, h.alarm, ?_⟩⟩
    · intro i t hslot
      exact ⟨(h.slot i t hslot).1, Int.le_trans (h.slot i t hslot).2 hpunctual.1⟩
    · intro hrunning i t hslot
      obtain ⟨hcrt, item, hitem, halarm, hresumed, hnow, -⟩ := h.playing hrunning i t hslot
      exact ⟨hcrt, item, hitem, halarm, hresumed, Int.le_trans hnow hpunctual.1, hpunctual.2 _ halarm⟩
  | stop => exact ⟨_, rfl, ⟨h.policy, h.positive, h.keeper, h.crt, h.queue, h.slot, nofun, fun _ => rfl, nofun⟩⟩
  | goToNext _ | goToPrev _ | addToPlay _ | reset => exact hpunctual.elim

theorem Inv.onSchedule (h : s.Inv) : s.OnSchedule where
  playing hrunning i t hslot := by
    obtain ⟨hcrt, item, hitem, halarm, -, -, hdue⟩ := h.playing hrunning i t hslot
    exact ⟨hcrt, item, hitem, halarm, hdue⟩
  replaced hrunning _ halarm switched := by
    obtain ⟨s', hstep, -, hslot⟩ := h.fire (w := switched) ⟨hrunning, halarm⟩
    exact ⟨s', hstep, hslot⟩
  kept c s' hpunctual hne hstep hsome := by
    cases c with
    | fire switched => exact absurd rfl (hne switched)
    | restart switched =>
      obtain ⟨s₁, hstep₁, -, hslot⟩ := h.restart hpunctual
      cases hstep.symm.trans hstep₁
      exact hslot hsome
    | notifyEos switched =>
      obtain ⟨s₁, hstep₁, -, hslot⟩ := h.notifyEos hpunctual
      cases hstep.symm.trans hstep₁
      exact hslot
    | time now | stop =>
      cases hstep
      rfl
    | goToNext _ | goToPrev _ | addToPlay _ | reset => exact hpunctual.elim

theorem inv_fresh {playlist : List (Int × String)} {loop_playlist : Bool} {policy : EmptyPolicy} {now : Int}
    (hpositive : ∀ item ∈ playlist, 0 < item.1) (hpolicy : policy ≠ .next) :
    (fresh playlist loop_playlist policy now).Inv where
  policy := hpolicy
  positive := hpositive
  keeper := ⟨{}, rfl, not_valid_neg, nofun, fun _ => by decide⟩
  crt := Int.le_refl _
  queue := ⟨not_valid_neg, not_valid_neg⟩
  slot := nofun
  last := nofun
  alarm _ := rfl
  playing := nofun

/-- In every punctual run, a timed playlist of positive durations keeps its schedule. -/
theorem run_on_schedule {playlist : List (Int × String)} {loop_playlist : Bool} {policy : EmptyPolicy} {now : Int}
    {calls : List Call} (hpositive : ∀ item ∈ playlist, 0 < item.1) (hpolicy : policy ≠ .next)
    (hpunctual : Along TimedPlaylistPolicy.step Punctual (fresh playlist loop_playlist policy now) calls) :
    ∃ t, run TimedPlaylistPolicy.step (fresh playlist loop_playlist policy now) calls = some t ∧ t.OnSchedule := by
  obtain ⟨t, hrun, hinv⟩ := run_along (fun _ _ (h : Inv _) hc => h.step hc) (inv_fresh hpositive hpolicy) hpunctual
  exact ⟨t, hrun, hinv.onSchedule⟩

/-- Two items, and a restart within the time of the second one. -/
theorem run_on_schedule_restart : ∃ t, run TimedPlaylistPolicy.step (fresh [(10, "a"), (20, "b")] true .replay 100)
    [.restart true, .notifyEos true, .time 110, .fire true, .time 113, .stop, .time 125, .restart true, .time 130] =
      some t ∧ t.OnSchedule :=
  run_on_schedule (by decide) (by decide) (by decide)

/-- An item that ends before its time is over is replayed, for its whole duration. -/
theorem replayed_late : ∃ t, run TimedPlaylistPolicy.step (fresh [(10, "a"), (20, "b")] true .replay 100)
    [.restart true, .time 105, .notifyEos true] = some t ∧ ¬ t.OnSchedule := by
  refine ⟨_, rfl, fun h => ?_⟩
  obtain ⟨-, _, hitem, halarm, -⟩ := h.playing rfl 0 100 rfl
  cases hitem
  exact absurd halarm (by decide)

end TimedPlaylistPolicy

end Whispercast.Stream
