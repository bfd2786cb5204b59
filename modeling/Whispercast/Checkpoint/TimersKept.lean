import Whispercast.Checkpoint.Timers

/-!
# Timers of a prefix

A prefix has one timeout key at most, and what its users have set stays until its time, as long as a user that sets a
timeout knows the timeout key that is there. `DeleteAllValues` deletes the value `__t__` and leaves the timeout key, so
that a user that is created behind it does not.
-/

namespace Whispercast.Checkpoint

open Io Library List Option StateKeepUser StateKeeper
open Http (ascii cStr)
open StateKeeper

/-! ## Users that know the timer -/

/-- The timeout key that is there when a user sets a timeout is its own one, or the new one, and the keys that the user
writes then can be read by `ExpireTimeoutedKeys`. Where the update is left out, the timeout key is not behind by more than
the threshold. -/
def StateKeepUser.Knows (k : StateKeeper) (u : StateKeepUser) (now : Int) : Prop :=
  if now + u.timeout_ms_ - u.crt_timeout_ < kMinUpdateTimeoutThresholdMs then
    now + u.timeout_ms_ - kMinUpdateTimeoutThresholdMs ≤ k.timer + 1
  else
    (k.timer = 0 ∨ k.timer = u.crt_timeout_ ∨ k.timer = now + u.timeout_ms_) ∧ cStr u.prefix_ ≠ [] ∧
      ¬ InIndex (u.prefix_ ++ kStateKeeperTimeoutKey)

instance (k : StateKeeper) (u : StateKeepUser) (now : Int) : Decidable (u.Knows k now) :=
  by unfold StateKeepUser.Knows; infer_instance

/-- The condition on an event. Users keep off the timeout keys and the value `__t__`, and a user that sets a timeout
knows the timeout key. What a `DeletePrefix` finds between its bounds starts with the prefix. -/
def Users.Known (s : Users) : UserEvent → Prop
  | .setValue i key _ times => ∀ u ∈ s.users[i]?,
      ¬ InIndex (u.prefix_ ++ key) ∧ key ≠ kStateKeeperTimeoutKey ∧ u.Knows s.keeper (times.headD 0)
  | .deleteValue i key => ∀ u ∈ s.users[i]?, ¬ InIndex (u.prefix_ ++ key)
  | .deletePrefix i start => start ≠ [] → ∀ u ∈ s.users[i]?, ∀ e ∈ s.keeper.data_.between (u.prefix_ ++ start),
      u.prefix_ ++ start <+: e.1 ∧ ¬ InIndex e.1
  | .commitTransaction i times => ∀ u ∈ s.users[i]?, u.Knows s.keeper (times.headD 0)
  | _ => True

instance (s : Users) (e : UserEvent) : Decidable (s.Known e) := by
  cases e <;> unfold Users.Known <;> infer_instance

/-- Timeouts are positive `int`s, and the clock stays below the greatest `int64` by one of them. -/
def UserEvent.Proper : UserEvent → Prop
  | .newUser timeout_ms => 0 < timeout_ms ∧ timeout_ms < 2 ^ 31
  | .setValue _ _ _ times => ∀ now ∈ times, 0 ≤ now ∧ now < 2 ^ 63 - 2 ^ 31
  | .commitTransaction _ times => ∀ now ∈ times, 0 ≤ now ∧ now < 2 ^ 63 - 2 ^ 31
  | _ => True

instance (e : UserEvent) : Decidable e.Proper := by
  cases e <;> unfold UserEvent.Proper <;> infer_instance

/-! ## The invariant -/

/-- The values that are owed are in the map, and there is no timeout key, or one that is not due before them. -/
structure Holds (user : Bytes) (m : StateMap) (owed : List Owed) : Prop where
  sorted : m.Sorted
  timer : ∃ t, HasTimer user m t ∧ ∀ o ∈ owed, o.due ≤ t + 1
  present : ∀ o ∈ owed, m.lookup (user ++ o.key) = some o.value ∧ ¬ InIndex (user ++ o.key) ∧
    o.key ≠ kStateKeeperTimeoutKey

/-- A user of the prefix, with a positive timeout. -/
structure StateKeepUser.Own (user : Bytes) (u : StateKeepUser) : Prop where
  prefix_eq : u.prefix_ = user
  pos : 0 < u.timeout_ms_
  fits : u.timeout_ms_ < 2 ^ 31
  crt : u.crt_timeout_ < 2 ^ 63

structure Users.Inv (user : Bytes) (s : Users) (p : Promise) : Prop where
  timeouts : s.users.map StateKeepUser.timeout_ms_ = p.timeouts
  own : ∀ u ∈ s.users, u.Own user
  holds : Holds user s.keeper.data_ p.owed

section Steps

variable {user : Bytes} {k k' : StateKeeper} {u u' : StateKeepUser} {m m' : StateMap} {t now : Int} {times : List Int}
  {owed : List Owed} {key value start : Bytes}

theorem HasTimer.nonneg (h : HasTimer user m t) : 0 ≤ t := by
  by_cases ht : t = 0
  · exact ht.ge
  · exact (h.there ht).1.1.le

/-- Timeout keys are only taken away. -/
theorem HasTimer.remove (h : HasTimer user m t)
    (hless : ∀ key value, InIndex key → m'.lookup key = some value → m.lookup key = some value) :
    ∃ t', HasTimer user m' t' := by
  by_cases hthere : m'.lookup (timeoutKey user t) = some user
  · exact ⟨t, fun key value hindex hval => h.only key value hindex (hless key value hindex hval),
      fun ht => ⟨(h.there ht).1, (h.there ht).2.1, hthere⟩⟩
  · refine ⟨0, ?_, fun hne => absurd rfl hne⟩
    intro key value hindex hval
    obtain ⟨-, rfl, rfl⟩ := h.only key value hindex (hless key value hindex hval)
    exact absurd hval hthere

/-- `UpdateTimeout` of a user that knows the timeout key. -/
theorem HasTimer.update (h : HasTimer user k.data_ t) (hsorted : k.data_.Sorted) (hu : u.Own user)
    (hknows : u.Knows k (times.headD 0)) (htimes : ∀ now ∈ times, 0 ≤ now ∧ now < 2 ^ 63 - 2 ^ 31)
    (hupdate : StateKeepUser.updateTimeout times k u = some (k', u')) :
    ∃ t', HasTimer user k'.data_ t' ∧ t ≤ t' ∧
      times.headD 0 + u.timeout_ms_ - kMinUpdateTimeoutThresholdMs ≤ t' + 1 ∧ k'.data_.Sorted ∧ u'.Own user ∧
      u'.timeout_ms_ = u.timeout_ms_ ∧
      ∀ key, key ≠ user ++ kStateKeeperTimeoutKey → ¬ InIndex key → k'.data_.lookup key = k.data_.lookup key := by
  obtain ⟨rfl, hpos, hfits, hcrt⟩ := hu
  rw [Knows, h.timer hsorted] at hknows
  have hrange : ∀ now ∈ times, 0 ≤ now ∧ now + u.timeout_ms_ < 2 ^ 63 := by
    intro now hnow
    obtain ⟨hle, _⟩ := htimes now hnow
    exact ⟨hle, by omega⟩
  cases times with
  | nil =>
    rw [updateTimeout, if_neg (by omega)] at hupdate
    cases hupdate
  | cons now rest =>
    rw [headD_cons] at hknows ⊢
    by_cases hskip : now + u.timeout_ms_ - u.crt_timeout_ < kMinUpdateTimeoutThresholdMs
    · -- The update is left out.
      rw [if_pos hskip] at hknows
      rw [updateTimeout, if_neg (by omega)] at hupdate
      rw [if_pos hskip] at hupdate
      cases hupdate
      exact ⟨t, h, le_rfl, hknows, hsorted, ⟨rfl, hpos, hfits, hcrt⟩, rfl, fun _ _ _ => rfl⟩
    · rw [if_neg hskip] at hknows
      obtain ⟨hold, huser, hvalue⟩ := hknows
      obtain ⟨_, _, heq, hcase⟩ := updateTimeout_spec hpos hcrt hvalue hsorted hrange hupdate
      cases heq
      rcases hcase with ⟨hleft, -⟩ | ⟨last, hgap, hle, hlast, rfl, hm⟩
      · exact absurd hleft hskip
      · have hnonneg := h.nonneg
        have hnow := (htimes now mem_cons_self).1
        dsimp only [kMinUpdateTimeoutThresholdMs] at hgap
        refine ⟨last, ⟨?_, ?_⟩, by omega, by dsimp only [kMinUpdateTimeoutThresholdMs]; omega, hm.sorted,
          ⟨rfl, hpos, hfits, hlast.2⟩, rfl, hm.outside⟩
        · intro key value hindex hval
          have hlastne : last ≠ 0 := by have hlastpos := hlast.1; omega
          rcases hm.inside key value hindex hval with ⟨hkey, hvalue⟩ | ⟨hwas, hfirst, hcrtne⟩
          · exact ⟨hlastne, hkey, hvalue⟩
          · -- The timeout key that was there is the one that is deleted, or the new one.
            exfalso
            obtain ⟨hne, hkey, -⟩ := h.only key value hindex hwas
            rcases hold with hzero | hown | hfresh
            · exact hne hzero
            · rw [hown] at hkey hne hnonneg
              exact hcrtne (by omega) hkey
            · rw [hfresh] at hkey
              exact hfirst hkey
        · exact fun _ => ⟨hlast, huser, hm.there⟩

/-- A value is set. -/
theorem Holds.setValue (h : Holds user k.data_ owed) (hkey : ¬ InIndex (user ++ key)) (hname : key ≠ kStateKeeperTimeoutKey)
    (hu : u.Own user) (hknows : u.Knows k (times.headD 0)) (htimes : ∀ now ∈ times, 0 ≤ now ∧ now < 2 ^ 63 - 2 ^ 31)
    (hset : StateKeepUser.setValue times key value k u = some (k', u')) :
    u'.Own user ∧ u'.timeout_ms_ = u.timeout_ms_ ∧
      Holds user k'.data_ (⟨key, value, times.headD 0 + u.timeout_ms_ - kMinUpdateTimeoutThresholdMs⟩ ::
        owed.filter fun o => o.key ≠ key) := by
  obtain ⟨hsorted, ⟨t, htimer, hdue⟩, hpresent⟩ := h
  have hpos := hu.pos
  have huser := hu.prefix_eq
  rw [StateKeepUser.setValue, if_neg (by omega)] at hset
  obtain ⟨k₁, hvalue, hset⟩ := bind_eq_some_iff.1 hset
  rw [if_neg (by omega)] at hset
  rw [huser] at hvalue
  have hfound := lookup_setValue hvalue
  have hsorted₁ := sorted_setValue hvalue hsorted
  have htimer₁ : HasTimer user k₁.data_ t := by
    refine htimer.congr fun key' hindex => ?_
    have hne : key' ≠ user ++ key := fun heq => hkey (heq ▸ hindex)
    rw [hfound, if_neg hne]
  have hknows₁ : u.Knows k₁ (times.headD 0) := by
    rw [Knows, htimer₁.timer hsorted₁]
    rw [Knows, htimer.timer hsorted] at hknows
    exact hknows
  obtain ⟨t', htimer', _, hnew, hsorted', hown', htimeout', hsame⟩ := htimer₁.update hsorted₁ hu hknows₁ htimes hset
  have hne : ∀ name : Bytes, name ≠ kStateKeeperTimeoutKey → user ++ name ≠ user ++ kStateKeeperTimeoutKey :=
    fun name hname heq => hname (append_cancel_left heq)
  refine ⟨hown', htimeout', hsorted', ⟨t', htimer', ?_⟩, ?_⟩
  · rw [List.forall_mem_cons]
    refine ⟨hnew, fun o ho => ?_⟩
    exact (hdue o (mem_filter.1 ho).1).trans (by omega)
  · rw [List.forall_mem_cons]
    refine ⟨⟨?_, hkey, hname⟩, fun o ho => ?_⟩
    · rw [hsame _ (hne key hname) hkey, hfound, if_pos rfl]
    · obtain ⟨hin, hother⟩ := mem_filter.1 ho
      obtain ⟨hval, hindex, honame⟩ := hpresent o hin
      refine ⟨?_, hindex, honame⟩
      rw [hsame _ (hne o.key honame) hindex, hfound,
        if_neg (fun heq => of_decide_eq_true hother (append_cancel_left heq)), hval]

/-- A value is deleted. -/
theorem Holds.deleteValue (h : Holds user k.data_ owed) (hkey : ¬ InIndex (user ++ key)) (hu : u.Own user)
    (hdelete : StateKeepUser.deleteValue key k u = some (k', u')) :
    u' = u ∧ Holds user k'.data_ (owed.filter fun o => o.key ≠ key) := by
  obtain ⟨hsorted, ⟨t, htimer, hdue⟩, hpresent⟩ := h
  obtain ⟨_, hvalue, hpair⟩ := map_eq_some_iff.1 hdelete
  cases hpair
  rw [hu.prefix_eq] at hvalue
  have hfound := lookup_deleteValue hvalue
  refine ⟨rfl, sorted_deleteValue hvalue hsorted, ⟨t, htimer.congr fun key' hindex => ?_, ?_⟩, ?_⟩
  · have hne : key' ≠ user ++ key := fun heq => hkey (heq ▸ hindex)
    rw [hfound, if_neg hne]
  · intro o ho
    exact hdue o (mem_filter.1 ho).1
  · intro o ho
    obtain ⟨hin, hother⟩ := mem_filter.1 ho
    obtain ⟨hval, hrest⟩ := hpresent o hin
    refine ⟨?_, hrest⟩
    rw [hfound, if_neg (fun heq => of_decide_eq_true hother (append_cancel_left heq)), hval]

/-- Nothing is owed any more when values are only taken away. -/
theorem Holds.remove (h : Holds user m owed) (hsorted : m'.Sorted)
    (hless : ∀ key value, m'.lookup key = some value → m.lookup key = some value) : Holds user m' [] := by
  obtain ⟨-, ⟨t, htimer, -⟩, -⟩ := h
  obtain ⟨t', htimer'⟩ := htimer.remove fun key value _ hval => hless key value hval
  exact ⟨hsorted, ⟨t', htimer', nofun⟩, nofun⟩

theorem StateKeeper.lookup_of_deletePrefix (h : k.deletePrefix start = some k') (hsorted : k.data_.Sorted)
    (hval : k'.data_.lookup key = some value) : k.data_.lookup key = some value := by
  rw [lookup_deletePrefix h hsorted] at hval
  split_ifs at hval
  exact hval

theorem StateKeeper.lookup_of_deleteValue {key' : Bytes} (h : k.deleteValue key' = some k')
    (hval : k'.data_.lookup key = some value) : k.data_.lookup key = some value := by
  rw [lookup_deleteValue h] at hval
  split_ifs at hval
  exact hval

/-- `CleanTimeout` takes a timeout key away. -/
theorem StateKeepUser.cleanTimeout_spec (hu : u.Own user) (hsorted : k.data_.Sorted)
    (h : cleanTimeout k u = some (k', u')) :
    u'.Own user ∧ u'.timeout_ms_ = u.timeout_ms_ ∧ k'.data_.Sorted ∧
      ∀ key value, k'.data_.lookup key = some value → k.data_.lookup key = some value := by
  rw [cleanTimeout] at h
  split_ifs at h with hcrt
  · cases h
    exact ⟨hu, rfl, hsorted, fun _ _ hval => hval⟩
  · obtain ⟨_, hdelete, hpair⟩ := map_eq_some_iff.1 h
    cases hpair
    exact ⟨⟨hu.prefix_eq, hu.pos, hu.fits, by show (0 : Int) < 2 ^ 63; decide⟩, rfl, sorted_deleteValue hdelete hsorted,
      fun key value hval => lookup_of_deleteValue hdelete hval⟩

/-- Values with a prefix are deleted. -/
theorem Holds.deletePrefix (h : Holds user k.data_ owed) (hu : u.Own user)
    (hbetween : start ≠ [] → ∀ e ∈ k.data_.between (user ++ start), user ++ start <+: e.1 ∧ ¬ InIndex e.1)
    (hdelete : StateKeepUser.deletePrefix start k u = some (k', u')) :
    u'.Own user ∧ u'.timeout_ms_ = u.timeout_ms_ ∧
      Holds user k'.data_ (owed.filter fun o => ¬ start <+: o.key) := by
  obtain ⟨⟨_, _⟩, hclean, hdelete⟩ := bind_eq_some_iff.1 hdelete
  obtain ⟨_, hprefix, hpair⟩ := map_eq_some_iff.1 hdelete
  cases hpair
  by_cases hstart : start = []
  · -- All values are deleted, and so is the timeout key that the user knows.
    rw [if_pos hstart] at hclean
    obtain ⟨hown, htimeout, hsorted₁, hless⟩ := cleanTimeout_spec hu h.sorted hclean
    have hnone : (owed.filter fun o => ¬ start <+: o.key) = [] := by
      rw [filter_eq_nil_iff, hstart]
      simp
    rw [hnone]
    exact ⟨hown, htimeout, h.remove (sorted_deletePrefix hprefix hsorted₁) fun key value hval =>
      hless key value (lookup_of_deletePrefix hprefix hsorted₁ hval)⟩
  · rw [if_neg hstart] at hclean
    cases hclean
    rw [hu.prefix_eq] at hprefix
    obtain ⟨hsorted, ⟨t, htimer, hdue⟩, hpresent⟩ := h
    have hfound := lookup_deletePrefix hprefix hsorted
    -- What is deleted lies between the bounds.
    have hmem : ∀ key value, k.data_.lookup key = some value → ¬ (key < user ++ start ∨ StateMap.Above (user ++ start) key) →
        (key, value) ∈ k.data_.between (user ++ start) := by
      intro key value hval hin
      rw [StateMap.between_eq_filter hsorted, mem_filter]
      exact ⟨(mem_iff_lookup hsorted (key, value)).2 hval, decide_eq_true (not_or.1 hin)⟩
    refine ⟨hu, rfl, sorted_deletePrefix hprefix hsorted, ⟨t, htimer.congr fun key hindex => ?_, ?_⟩, ?_⟩
    · rw [hfound]
      split_ifs with hkeep
      · rfl
      · cases hval : k.data_.lookup key with
        | none => rfl
        | some value => exact absurd hindex (hbetween hstart _ (hmem key value hval hkeep)).2
    · intro o ho
      exact hdue o (mem_filter.1 ho).1
    · intro o ho
      obtain ⟨hin, hother⟩ := mem_filter.1 ho
      obtain ⟨hval, hrest⟩ := hpresent o hin
      refine ⟨?_, hrest⟩
      rw [hfound]
      split_ifs with hkeep
      · exact hval
      · have hstarts := (hbetween hstart _ (hmem _ _ hval hkeep)).1
        rw [prefix_append_right_inj] at hstarts
        exact absurd hstarts (of_decide_eq_true hother)

theorem Holds.deleteAllValues (h : Holds user k.data_ owed)
    (hdelete : StateKeepUser.deleteAllValues k u = some (k', u')) : u' = u ∧ Holds user k'.data_ [] := by
  obtain ⟨_, hprefix, hpair⟩ := map_eq_some_iff.1 hdelete
  cases hpair
  exact ⟨rfl, h.remove (sorted_deletePrefix hprefix h.sorted) fun key value hval =>
    lookup_of_deletePrefix hprefix h.sorted hval⟩

theorem StateKeeper.beginTransaction_data (h : k.beginTransaction = some k') : k'.data_ = k.data_ := by
  rw [beginTransaction] at h
  split_ifs at h
  cases h
  rfl

theorem StateKeeper.commitTransaction_data (h : k.commitTransaction = some k') : k'.data_ = k.data_ := by
  rw [commitTransaction] at h
  split_ifs at h
  cases h
  rfl

/-- `CommitTransaction` sets the timeout. -/
theorem Holds.commitTransaction (h : Holds user k.data_ owed) (hu : u.Own user) (hknows : u.Knows k (times.headD 0))
    (htimes : ∀ now ∈ times, 0 ≤ now ∧ now < 2 ^ 63 - 2 ^ 31)
    (hcommit : StateKeepUser.commitTransaction times k u = some (k', u')) :
    u'.Own user ∧ u'.timeout_ms_ = u.timeout_ms_ ∧ Holds user k'.data_ owed := by
  obtain ⟨hsorted, ⟨t, htimer, hdue⟩, hpresent⟩ := h
  obtain ⟨⟨_, _⟩, hupdate, hcommit⟩ := bind_eq_some_iff.1 hcommit
  obtain ⟨_, hkeeper, hpair⟩ := map_eq_some_iff.1 hcommit
  cases hpair
  obtain ⟨t', htimer', _, -, hsorted', hown', htimeout', hsame⟩ := htimer.update hsorted hu hknows htimes hupdate
  rw [commitTransaction_data hkeeper]
  refine ⟨hown', htimeout', hsorted', ⟨t', htimer', fun o ho => (hdue o ho).trans (by omega)⟩, ?_⟩
  intro o ho
  obtain ⟨hval, hindex, hname⟩ := hpresent o ho
  refine ⟨?_, hindex, hname⟩
  rw [hsame _ (fun heq => hname (append_cancel_left heq)) hindex, hval]

/-- `ExpireTimeoutedKeys` deletes what is not owed any more, or nothing. -/
theorem Holds.expireTimeoutedKeys (h : Holds user k.data_ owed) (hexpire : k.expireTimeoutedKeys now = some k') :
    Holds user k'.data_ (owed.filter fun o => now < o.due) := by
  have hsorted := h.sorted
  obtain ⟨t, htimer, hdue⟩ := h.timer
  rw [StateKeeper.expireTimeoutedKeys, htimer.between hsorted] at hexpire
  obtain ⟨k₁, hbegin, hexpire⟩ := bind_eq_some_iff.1 hexpire
  obtain ⟨_, hdelete, hcommit⟩ := bind_eq_some_iff.1 hexpire
  have hdata := beginTransaction_data hbegin
  rw [commitTransaction_data hcommit]
  by_cases hgone : t ≠ 0 ∧ t < now
  · obtain ⟨hne, hlt⟩ := hgone
    obtain ⟨htime, huser, -⟩ := htimer.there hne
    have hentries : StateKeeper.expired now (if t = 0 then [] else [(timeoutKey user t, user)]) =
        [(timeoutKey user t, user)] := by
      rw [if_neg hne, StateKeeper.expired, expires_timeoutKey htime huser, decide_eq_true hlt]
      rfl
    rw [hentries, StateKeeper.deleteExpired] at hdelete
    obtain ⟨_, hprefix, hdelete⟩ := bind_eq_some_iff.1 hdelete
    obtain ⟨_, hvalue, hdelete⟩ := bind_eq_some_iff.1 hdelete
    cases hdelete
    have hsorted₁ : k₁.data_.Sorted := hdata ▸ hsorted
    have hsorted₃ := sorted_deletePrefix hprefix hsorted₁
    have hnone : (owed.filter fun o => decide (now < o.due)) = [] := by
      rw [filter_eq_nil_iff]
      intro o ho hlater
      have hfirst := hdue o ho
      have hsecond := of_decide_eq_true hlater
      omega
    rw [hnone]
    refine h.remove (sorted_deleteValue hvalue hsorted₃) fun key value hval => ?_
    rw [← hdata]
    exact lookup_of_deletePrefix hprefix hsorted₁ (lookup_of_deleteValue hvalue hval)
  · -- The timeout key is not due, or there is none.
    have hentries : StateKeeper.expired now (if t = 0 then [] else [(timeoutKey user t, user)]) = [] := by
      by_cases hne : t = 0
      · rw [if_pos hne]
        rfl
      · obtain ⟨htime, huser, -⟩ := htimer.there hne
        have hnot : ¬ t < now := fun hlt => hgone ⟨hne, hlt⟩
        rw [if_neg hne, StateKeeper.expired, expires_timeoutKey htime huser, decide_eq_false hnot]
        rfl
    rw [hentries] at hdelete
    cases hdelete
    rw [hdata]
    exact ⟨hsorted, ⟨t, htimer, fun o ho => hdue o (mem_filter.1 ho).1⟩, fun o ho =>
      h.present o (mem_filter.1 ho).1⟩

/-- A new user takes over the time in the value `__t__`. -/
theorem StateKeepUser.own_new {timeout_ms : Int} (hpos : 0 < timeout_ms) (hfits : timeout_ms < 2 ^ 31)
    (h : new k user timeout_ms = some u) : u.Own user ∧ u.timeout_ms_ = timeout_ms := by
  rw [new] at h
  split_ifs at h
  cases h
  refine ⟨⟨rfl, hpos, hfits, ?_⟩, rfl⟩
  dsimp only
  cases k.data_.lookup (user ++ kStateKeeperTimeoutKey) with
  | none => decide
  | some str_crt_timeout =>
    dsimp only
    rw [Numeral.strtol, Numeral.longMax, Numeral.longMin]
    split_ifs <;> dsimp only <;> omega

end Steps

/-! ## Runs -/

namespace Users

variable {user : Bytes} {s s' : Users} {p : Promise} {e : UserEvent} {es : List UserEvent} {i : Nat}
  {f : StateKeeper → StateKeepUser → Option (StateKeeper × StateKeepUser)}

theorem call_eq_some (h : s.call i f = some s') :
    ∃ u k' u', s.users[i]? = some u ∧ f s.keeper u = some (k', u') ∧ s' = ⟨k', s.users.set i u'⟩ := by
  obtain ⟨u, hu, h⟩ := bind_eq_some_iff.1 h
  obtain ⟨⟨k', u'⟩, hf, rfl⟩ := map_eq_some_iff.1 h
  exact ⟨u, k', u', hu, hf, rfl⟩

/-- A user whose timeout stays has made a call. -/
theorem Inv.set (h : s.Inv user p) {u u' : StateKeepUser} {k' : StateKeeper} {owed : List Owed} (hu : s.users[i]? = some u)
    (hown : u'.Own user) (htimeout : u'.timeout_ms_ = u.timeout_ms_) (hholds : Holds user k'.data_ owed) :
    Inv user ⟨k', s.users.set i u'⟩ { p with owed := owed } := by
  refine ⟨?_, ?_, hholds⟩
  · rw [← h.timeouts]
    refine ext_getElem? fun j => ?_
    simp only [getElem?_map, getElem?_set]
    split_ifs with hj hlt
    · rw [← hj, hu, map_some, map_some, htimeout]
    · rw [← hj, getElem?_eq_none (Nat.le_of_not_lt hlt)]
    · rfl
  · intro v hv
    rcases mem_or_eq_of_mem_set hv with hv | rfl
    · exact h.own v hv
    · exact hown

/-- What an event keeps. -/
theorem Inv.step (h : s.Inv user p) (hknown : s.Known e) (hproper : e.Proper) (hstep : s.step user e = some s') :
    s'.Inv user (p.step e) := by
  have hown : ∀ {i : Nat} {u : StateKeepUser}, s.users[i]? = some u → u.Own user := fun hu =>
    h.own _ (mem_of_getElem? hu)
  cases e with
  | newUser timeout_ms =>
    obtain ⟨u, hnew, rfl⟩ := map_eq_some_iff.1 hstep
    obtain ⟨hu, htimeout⟩ := own_new hproper.1 hproper.2 hnew
    refine ⟨?_, ?_, h.holds⟩
    · rw [map_append, h.timeouts, map_singleton, htimeout]
      rfl
    · exact forall_mem_append.2 ⟨h.own, by simpa using hu⟩
  | setValue i key value times =>
    obtain ⟨u, k', u', hu, hset, rfl⟩ := call_eq_some hstep
    obtain ⟨hindex, hname, hknows⟩ := hknown u hu
    rw [(hown hu).prefix_eq] at hindex
    obtain ⟨hown', htimeout, hholds⟩ := h.holds.setValue hindex hname (hown hu) hknows hproper hset
    have htime : u.timeout_ms_ = p.timeouts.getD i 0 := by
      rw [← h.timeouts, getD_eq_getElem?_getD, getElem?_map, hu]
      rfl
    rw [htime] at hholds
    exact h.set hu hown' htimeout hholds
  | deleteValue i key =>
    obtain ⟨u, k', u', hu, hdelete, rfl⟩ := call_eq_some hstep
    have hindex := hknown u hu
    rw [(hown hu).prefix_eq] at hindex
    obtain ⟨rfl, hholds⟩ := h.holds.deleteValue hindex (hown hu) hdelete
    exact h.set hu (hown hu) rfl hholds
  | deletePrefix i start =>
    obtain ⟨u, k', u', hu, hdelete, rfl⟩ := call_eq_some hstep
    obtain ⟨hown', htimeout, hholds⟩ := h.holds.deletePrefix (hown hu)
      (fun hstart => (hown hu).prefix_eq ▸ hknown hstart u hu) hdelete
    exact h.set hu hown' htimeout hholds
  | deleteAllValues i =>
    obtain ⟨u, k', u', hu, hdelete, rfl⟩ := call_eq_some hstep
    obtain ⟨rfl, hholds⟩ := h.holds.deleteAllValues hdelete
    exact h.set hu (hown hu) rfl hholds
  | beginTransaction i =>
    obtain ⟨u, k', u', hu, hbegin, rfl⟩ := call_eq_some hstep
    obtain ⟨_, hkeeper, hpair⟩ := map_eq_some_iff.1 hbegin
    cases hpair
    refine h.set hu (hown hu) rfl ?_
    rw [beginTransaction_data hkeeper]
    exact h.holds
  | commitTransaction i times =>
    obtain ⟨u, k', u', hu, hcommit, rfl⟩ := call_eq_some hstep
    obtain ⟨hown', htimeout, hholds⟩ := h.holds.commitTransaction (hown hu) (hknown u hu) hproper hcommit
    exact h.set hu hown' htimeout hholds
  | expireTimeoutedKeys now =>
    obtain ⟨k', hexpire, rfl⟩ := map_eq_some_iff.1 hstep
    exact ⟨h.timeouts, h.own, h.holds.expireTimeoutedKeys hexpire⟩

/-- What a run keeps. -/
theorem Inv.run (h : s.Inv user p) (hknown : Along (Users.step user) Known s es) (hproper : ∀ e ∈ es, e.Proper)
    (hrun : Library.run (Users.step user) s es = some s') : s'.Inv user (es.foldl Promise.step p) := by
  induction es generalizing s p with
  | nil =>
    cases hrun
    exact h
  | cons e es ih =>
    obtain ⟨s₁, hstep, hrun⟩ := run_cons_eq_some.1 hrun
    exact ih (h.step hknown.1 (hproper e mem_cons_self) hstep) (hknown.2 s₁ hstep)
      (fun e he => hproper e (mem_cons_of_mem _ he)) hrun

/-- A new keeper. -/
theorem Inv.init (user : Bytes) (checkpoints_to_keep : Int) :
    Inv user ⟨{ checkpoints_to_keep_ := checkpoints_to_keep }, []⟩ {} := by
  refine ⟨rfl, nofun, Pairwise.nil, ⟨0, ⟨?_, fun hne => absurd rfl hne⟩, nofun⟩, nofun⟩
  intro key value _ hval
  cases hval

/-- In every run in which each user that sets a timeout knows the timeout key of the prefix, all values that are owed are
there in every state, and there is one timeout key at most. -/
theorem run_kept (checkpoints_to_keep : Int) (hproper : ∀ e ∈ es, e.Proper)
    (hknown : Along (Users.step user) Known ⟨{ checkpoints_to_keep_ := checkpoints_to_keep }, []⟩ es)
    (hrun : Library.run (Users.step user) ⟨{ checkpoints_to_keep_ := checkpoints_to_keep }, []⟩ es = some s') :
    (∀ o ∈ (Promise.ofEvents es).owed, s'.keeper.data_.lookup (user ++ o.key) = some o.value) ∧
      ∀ t t', (s'.keeper.data_.lookup (timeoutKey user t)).isSome → (s'.keeper.data_.lookup (timeoutKey user t')).isSome →
        timeoutKey user t = timeoutKey user t' := by
  have hinv := (Inv.init user checkpoints_to_keep).run hknown hproper hrun
  refine ⟨fun o ho => (hinv.holds.present o ho).1, ?_⟩
  obtain ⟨_, htimer, -⟩ := hinv.holds.timer
  intro t t' ht ht'
  obtain ⟨_, hval⟩ := isSome_iff_exists.1 ht
  obtain ⟨_, hval'⟩ := isSome_iff_exists.1 ht'
  rw [(htimer.only _ _ (inIndex_timeoutKey user t) hval).2.1, (htimer.only _ _ (inIndex_timeoutKey user t') hval').2.1]

/-- A user with a timeout of five seconds, and an `ExpireTimeoutedKeys` three seconds behind its value. -/
theorem run_kept_value : ∃ s', Library.run (Users.step [112]) ⟨{ checkpoints_to_keep_ := 2 }, []⟩
        [.newUser 5000, .setValue 0 [107] [1] [1000, 1000], .expireTimeoutedKeys 4000] = some s' ∧
      (∀ o ∈ [(⟨[107], [1], 5000⟩ : Owed)], s'.keeper.data_.lookup ([112] ++ o.key) = some o.value) ∧
      ∀ t t', (s'.keeper.data_.lookup (timeoutKey [112] t)).isSome →
        (s'.keeper.data_.lookup (timeoutKey [112] t')).isSome → timeoutKey [112] t = timeoutKey [112] t' := by
  obtain ⟨s', hrun⟩ := isSome_iff_exists.1 (show (Library.run (Users.step [112])
    ⟨{ checkpoints_to_keep_ := 2 }, []⟩ [.newUser 5000, .setValue 0 [107] [1] [1000, 1000],
      .expireTimeoutedKeys 4000]).isSome = true by decide +kernel)
  exact ⟨s', hrun, run_kept 2 (by decide) (by decide +kernel) hrun⟩

/-- `DeleteAllValues` leaves the timeout key of 6000. A user that is created behind it sets a value at 5000 and adds the
timeout key of 10000; at 6001 the old one deletes the value, which was to stay until 9000. -/
def deletedAll : List UserEvent :=
  [.newUser 5000, .setValue 0 [107] [1] [1000, 1000], .deleteAllValues 0, .newUser 5000,
    .setValue 1 [107] [2] [5000, 5000]]

theorem run_wiped :
    (Library.run (Users.step [112]) ⟨{ checkpoints_to_keep_ := 2 }, []⟩ deletedAll).map (fun s =>
        (s.keeper.data_.lookup (timeoutKey [112] 6000), s.keeper.data_.lookup (timeoutKey [112] 10000))) =
      some (some [112], some [112]) ∧
    (Library.run (Users.step [112]) ⟨{ checkpoints_to_keep_ := 2 }, []⟩ (deletedAll ++ [.expireTimeoutedKeys 6001])).map
        (fun s => s.keeper.data_.lookup [112, 107]) = some none ∧
    (Promise.ofEvents (deletedAll ++ [.expireTimeoutedKeys 6001])).owed = [⟨[107], [2], 9000⟩] := by
  decide +kernel

end Users

end Whispercast.Checkpoint
