import Whispercast.Checkpoint.StateKeepUser

/-!
# Timeout keys

The time in a timeout key is read as it was written. What the calls of a keeper find, and what `UpdateTimeout` does to the
timeout keys of a prefix.
-/

namespace Whispercast.Checkpoint

open Io Library List StateKeeper
open Http (ascii intToString cStr)
open AssocList Numeral

/-! ## Timeout keys -/

/-- A key that `ExpireTimeoutedKeys` finds between its bounds. -/
def InIndex (key : Bytes) : Prop :=
  ¬ key < kStateKeeperTimeoutKey ++ ascii "/" ∧ ¬ StateMap.Above (kStateKeeperTimeoutKey ++ ascii "/") key

instance (key : Bytes) : Decidable (InIndex key) := inferInstanceAs (Decidable (_ ∧ _))

/-- A time in the range of the clock. -/
def IsTime (t : Int) : Prop := 0 < t ∧ t < 2 ^ 63

section Keys

variable {user : Bytes} {t t' now : Int}

theorem inIndex_timeoutKey (user : Bytes) (t : Int) : InIndex (timeoutKey user t) := by
  refine (StateMap.between_key_iff _ _).2 (Or.inl ⟨printTime t ++ 47 :: cStr user, ?_⟩)
  rw [timeoutKey, append_assoc]
  rfl

theorem printTime_eq (ht : IsTime t) : printTime t = 48 :: Numeral.padded 10 24 t.toNat := by
  obtain ⟨_, _⟩ := ht
  have hsmall : t.natAbs < 10 ^ 24 := by omega
  have hnat : t.natAbs = t.toNat := by omega
  rw [printTime, if_neg (by omega), padded_succ (by decide) (by decide) hsmall, hnat]

theorem length_timeoutKey (ht : IsTime t) : (timeoutKey user t).length = 32 + (cStr user).length := by
  have hsmall : t.toNat < 10 ^ 24 := by
    have hlt := ht.2
    omega
  rw [timeoutKey, printTime_eq ht]
  simp only [length_append, length_cons, length_padded (by decide : 1 < 10) (by decide : 0 < 24) hsmall]
  show 5 + _ = _
  omega

/-- The time in a timeout key is read as it was written, without its first digit. -/
theorem strtol_timeoutKey (ht : IsTime t) :
    Numeral.strtol 10 (((timeoutKey user t).drop (StateKeeper.sizeofTimeoutKey + 1)).take StateKeeper.kNumTimeoutPosition) =
      (t, false) := by
  have hsmall : t.toNat < 10 ^ 24 := by
    have hlt := ht.2
    omega
  have hlen := length_padded (by decide : 1 < 10) (by decide : 0 < 24) hsmall
  have hcut : ((timeoutKey user t).drop (sizeofTimeoutKey + 1)).take kNumTimeoutPosition =
      padded 10 24 t.toNat ++ [47] := by
    have hkey : timeoutKey user t =
        (kStateKeeperTimeoutKey ++ [47, 48]) ++ (padded 10 24 t.toNat ++ 47 :: cStr user) := by
      rw [timeoutKey, printTime_eq ht, append_assoc]
      rfl
    rw [hkey, drop_left' (by rfl), take_append, hlen, take_of_length_le (by rw [hlen]; decide)]
    rfl
  rw [hcut, strtol_digits (by decide) _ (fun c hc => isDigit_of_mem_padded (by decide) (by decide) hc)
    padded_ne_nil (by rintro c ⟨⟩; decide) (fun hbase => absurd hbase (by decide)),
    value_padded (by decide) (by decide)]
  have hpos := ht.1
  have hlt := ht.2
  have hvalue : ((t.toNat : Nat) : Int) = t := by omega
  rw [hvalue, if_neg (by rw [longMax]; omega)]

theorem timeoutKey_inj (ht : IsTime t) (ht' : IsTime t') (h : timeoutKey user t = timeoutKey user t') : t = t' := by
  have hread := @strtol_timeoutKey user t ht
  rw [h, strtol_timeoutKey ht'] at hread
  exact (congrArg Prod.fst hread).symm

theorem expires_timeoutKey (ht : IsTime t) (huser : cStr user ≠ []) (now : Int) (delete_key : Bool) :
    StateKeeper.expires now delete_key (timeoutKey user t) = decide (t < now) := by
  have hlong : sizeofTimeoutKey + kNumTimeoutPosition + 1 < (timeoutKey user t).length := by
    have hlen := length_pos_iff.2 huser
    rw [length_timeoutKey ht]
    show 6 + 25 + 1 < _
    omega
  rw [expires, if_pos hlong, strtol_timeoutKey ht]
  simp

end Keys

/-! ## What the calls of a keeper find -/

section Keeper

variable {k k' : StateKeeper} {m : StateMap} {key value start : Bytes}

theorem StateMap.lookup_clearPrefix (h : m.Sorted) (start key : Bytes) : (m.clearPrefix start).lookup key =
      if key < start ∨ StateMap.Above start key then m.lookup key else none := by
  rw [clearPrefix_eq_filter h, lookup_filter_keys fun key => decide (key < start ∨ Above start key)]
  simp only [decide_eq_true_eq]

theorem StateKeeper.lookup_setValue (h : k.setValue key value = some k') (key' : Bytes) :
    k'.data_.lookup key' = if key' = key then some value else k.data_.lookup key' := by
  rw [setValue] at h
  split_ifs at h with hsame
  · cases h
    by_cases hkey : key' = key
    · rw [hkey, if_pos rfl, hsame]
    · rw [if_neg hkey]
  · rw [queueOp_data h]
    exact lookup_setSorted key key' value k.data_

theorem StateKeeper.sorted_setValue (h : k.setValue key value = some k') (hsorted : k.data_.Sorted) :
    k'.data_.Sorted := by
  rw [setValue] at h
  split_ifs at h with hsame
  · cases h
    exact hsorted
  · rw [queueOp_data h]
    exact hsorted.set key value

theorem StateKeeper.lookup_deleteValue (h : k.deleteValue key = some k') (key' : Bytes) :
    k'.data_.lookup key' = if key' = key then none else k.data_.lookup key' := by
  rw [deleteValue] at h
  split_ifs at h with hnone
  · cases h
    by_cases hkey : key' = key
    · rw [hkey, if_pos rfl, Option.isNone_iff_eq_none.1 hnone]
    · rw [if_neg hkey]
  · rw [queueOp_data h]
    exact lookup_filter_ne key key' k.data_

theorem StateKeeper.sorted_deleteValue (h : k.deleteValue key = some k') (hsorted : k.data_.Sorted) :
    k'.data_.Sorted := by
  rw [deleteValue] at h
  split_ifs at h with hnone
  · cases h
    exact hsorted
  · rw [queueOp_data h]
    exact hsorted.erase key

theorem StateKeeper.lookup_deletePrefix (h : k.deletePrefix start = some k') (hsorted : k.data_.Sorted) (key' : Bytes) :
    k'.data_.lookup key' =
      if key' < start ∨ StateMap.Above start key' then k.data_.lookup key' else none := by
  rw [deletePrefix_data h]
  exact StateMap.lookup_clearPrefix hsorted start key'

theorem StateKeeper.sorted_deletePrefix (h : k.deletePrefix start = some k') (hsorted : k.data_.Sorted) :
    k'.data_.Sorted := by
  rw [deletePrefix_data h]
  exact hsorted.clearPrefix start

end Keeper

/-! ## The timer of a prefix -/

/-- The timeout keys of a map are the one of a prefix with this time, or there is none and the time is 0. -/
structure HasTimer (user : Bytes) (m : StateMap) (t : Int) : Prop where
  only : ∀ key value, InIndex key → m.lookup key = some value → t ≠ 0 ∧ key = timeoutKey user t ∧ value = user
  there : t ≠ 0 → IsTime t ∧ cStr user ≠ [] ∧ m.lookup (timeoutKey user t) = some user

section Timer

variable {user : Bytes} {m m' : StateMap} {t now : Int} {k : StateKeeper}

theorem mem_iff_lookup (h : m.Sorted) (e : Bytes × Bytes) : e ∈ m ↔ m.lookup e.1 = some e.2 := by
  constructor
  · intro he
    exact lookup_of_mem (nodup_of_sorted h) he
  · intro he
    obtain ⟨-, -, rfl, -⟩ := lookup_eq_some_iff.1 he
    exact mem_append_right _ mem_cons_self

/-- What `ExpireTimeoutedKeys` goes through. -/
theorem HasTimer.between (h : HasTimer user m t) (hsorted : m.Sorted) :
    m.between (kStateKeeperTimeoutKey ++ ascii "/") = if t = 0 then [] else [(timeoutKey user t, user)] := by
  rw [StateMap.between_eq_filter hsorted]
  have hmem : ∀ e ∈ m, InIndex e.1 → t ≠ 0 ∧ e = (timeoutKey user t, user) := by
    intro e he hindex
    obtain ⟨hne, hkey, hvalue⟩ := h.only e.1 e.2 hindex ((mem_iff_lookup hsorted e).1 he)
    exact ⟨hne, Prod.ext hkey hvalue⟩
  by_cases ht : t = 0
  · rw [if_pos ht, filter_eq_nil_iff]
    intro e he hindex
    exact (hmem e he (of_decide_eq_true hindex)).1 ht
  · -- No entry is there twice.
    have hall : ∀ e ∈ m.filter (fun e => decide (InIndex e.1)), e = (timeoutKey user t, user) := by
      intro e he
      obtain ⟨hin, hindex⟩ := mem_filter.1 he
      exact (hmem e hin (of_decide_eq_true hindex)).2
    have hnodup : (m.filter fun e => decide (InIndex e.1)).Nodup :=
      (Nodup.of_map _ (nodup_of_sorted hsorted)).filter _
    have hthere : (timeoutKey user t, user) ∈ m.filter fun e => decide (InIndex e.1) := by
      rw [mem_filter]
      exact ⟨(mem_iff_lookup hsorted _).2 (h.there ht).2.2, decide_eq_true (inIndex_timeoutKey user t)⟩
    have hrep := eq_replicate_of_mem hall
    rw [hrep, nodup_replicate] at hnodup
    have hpos := length_pos_of_mem hthere
    have hone : (m.filter fun e => decide (InIndex e.1)).length = 1 := by omega
    rw [hone] at hrep
    rw [if_neg ht]
    exact hrep

theorem HasTimer.congr (h : HasTimer user m t) (hsame : ∀ key, InIndex key → m'.lookup key = m.lookup key) :
    HasTimer user m' t := by
  refine ⟨fun key value hindex hvalue => h.only key value hindex (by rw [← hsame key hindex]; exact hvalue), ?_⟩
  intro ht
  rw [hsame _ (inIndex_timeoutKey user t)]
  exact h.there ht

/-- The time of the first timeout key, as `ExpireTimeoutedKeys` reads it, and 0 without one. -/
def StateKeeper.timer (k : StateKeeper) : Int :=
  match k.data_.between (kStateKeeperTimeoutKey ++ ascii "/") with
  | [] => 0
  | e :: _ => (Numeral.strtol 10 ((e.1.drop (sizeofTimeoutKey + 1)).take kNumTimeoutPosition)).1

theorem HasTimer.timer (h : HasTimer user k.data_ t) (hsorted : k.data_.Sorted) : k.timer = t := by
  rw [StateKeeper.timer, h.between hsorted]
  by_cases ht : t = 0
  · rw [if_pos ht]
    exact ht.symm
  · rw [if_neg ht]
    dsimp only
    rw [strtol_timeoutKey (h.there ht).1]

end Timer

/-! ## Updates of a timer -/

section Update

variable {k k' : StateKeeper} {u u' : StateKeepUser} {times : List Int} {m : StateMap} {t : Int}

/-- What an update that is not left out does to the map: the timeout key of the new time is there, the one of the old
time and those between are not. -/
structure Moved (u : StateKeepUser) (m m' : StateMap) (first last : Int) : Prop where
  sorted : m'.Sorted
  there : m'.lookup (timeoutKey u.prefix_ last) = some u.prefix_
  outside : ∀ key, key ≠ u.prefix_ ++ kStateKeeperTimeoutKey → ¬ InIndex key → m'.lookup key = m.lookup key
  inside : ∀ key value, InIndex key → m'.lookup key = some value →
    key = timeoutKey u.prefix_ last ∧ value = u.prefix_ ∨
      m.lookup key = some value ∧ key ≠ timeoutKey u.prefix_ first ∧
        (0 < u.crt_timeout_ → key ≠ timeoutKey u.prefix_ u.crt_timeout_)

/-- `UpdateTimeout` leaves everything as it is, or moves the timeout key to the new time. -/
theorem StateKeepUser.updateTimeout_spec (hpos : 0 < u.timeout_ms_) (hcrt : u.crt_timeout_ < 2 ^ 63)
    (hvalue : ¬ InIndex (u.prefix_ ++ kStateKeeperTimeoutKey)) (hsorted : k.data_.Sorted)
    (htimes : ∀ now ∈ times, 0 ≤ now ∧ now + u.timeout_ms_ < 2 ^ 63)
    (h : updateTimeout times k u = some (k', u')) :
    ∃ now rest, times = now :: rest ∧
      (now + u.timeout_ms_ - u.crt_timeout_ < kMinUpdateTimeoutThresholdMs ∧ k' = k ∧ u' = u ∨
        ∃ last, kMinUpdateTimeoutThresholdMs ≤ now + u.timeout_ms_ - u.crt_timeout_ ∧ now + u.timeout_ms_ ≤ last ∧
          IsTime last ∧ u' = { u with crt_timeout_ := last } ∧
          Moved u k.data_ k'.data_ (now + u.timeout_ms_) last) := by
  induction times generalizing k k' u u' with
  | nil =>
    rw [updateTimeout, if_neg (by omega)] at h
    cases h
  | cons now rest ih =>
    rw [updateTimeout, if_neg (by omega)] at h
    dsimp only at h
    refine ⟨now, rest, rfl, ?_⟩
    by_cases hskip : now + u.timeout_ms_ - u.crt_timeout_ < kMinUpdateTimeoutThresholdMs
    · rw [if_pos hskip] at h
      cases h
      exact Or.inl ⟨hskip, rfl, rfl⟩
    · rw [if_neg hskip] at h
      obtain ⟨_, hkey, h⟩ := Option.bind_eq_some_iff.1 h
      obtain ⟨k₂, hset, h⟩ := Option.bind_eq_some_iff.1 h
      obtain ⟨⟨k₃, u₃⟩, hagain, h⟩ := Option.bind_eq_some_iff.1 h
      obtain ⟨_, hfits⟩ := htimes now mem_cons_self
      have htime : IsTime (now + u.timeout_ms_) := ⟨by omega, hfits⟩
      have hsorted₂ := sorted_setValue hset (sorted_setValue hkey hsorted)
      -- What is in the map before `SetValue` comes back to `UpdateTimeout`.
      have hfound : ∀ key, key ≠ u.prefix_ ++ kStateKeeperTimeoutKey → k₂.data_.lookup key =
          if key = timeoutKey u.prefix_ (now + u.timeout_ms_) then some u.prefix_ else k.data_.lookup key := by
        intro key hne
        rw [lookup_setValue hset, if_neg hne, lookup_setValue hkey]
      have hthere : k₂.data_.lookup (timeoutKey u.prefix_ (now + u.timeout_ms_)) = some u.prefix_ := by
        rw [hfound _ (fun heq => hvalue (heq ▸ inIndex_timeoutKey _ _)), if_pos rfl]
      have hmoved : ∃ last, now + u.timeout_ms_ ≤ last ∧ IsTime last ∧ u₃ = { u with crt_timeout_ := last } ∧
          k₃.data_.Sorted ∧ k₃.data_.lookup (timeoutKey u.prefix_ last) = some u.prefix_ ∧
          (∀ key, key ≠ u.prefix_ ++ kStateKeeperTimeoutKey → ¬ InIndex key →
            k₃.data_.lookup key = k.data_.lookup key) ∧
          (∀ key value, InIndex key → k₃.data_.lookup key = some value →
            key = timeoutKey u.prefix_ last ∧ value = u.prefix_ ∨
              k.data_.lookup key = some value ∧ key ≠ timeoutKey u.prefix_ (now + u.timeout_ms_)) := by
        obtain ⟨_, _, -, hcase⟩ := ih (u := { u with crt_timeout_ := now + u.timeout_ms_ }) hpos hfits hvalue
          hsorted₂ (fun now hmem => htimes now (mem_cons_of_mem _ hmem)) hagain
        have hne : ∀ key, InIndex key → key ≠ u.prefix_ ++ kStateKeeperTimeoutKey := fun key hindex heq =>
          hvalue (heq ▸ hindex)
        have hother : ∀ key, ¬ InIndex key → key ≠ timeoutKey u.prefix_ (now + u.timeout_ms_) := fun key hindex heq =>
          hindex (heq ▸ inIndex_timeoutKey _ _)
        rcases hcase with ⟨-, rfl, rfl⟩ | ⟨last, hgap, hle, hlast, rfl, hm⟩
        · refine ⟨now + u.timeout_ms_, le_rfl, htime, rfl, hsorted₂, hthere, ?_, ?_⟩
          · intro key hkeyne hindex
            rw [hfound key hkeyne, if_neg (hother key hindex)]
          · intro key value hindex hval
            rw [hfound key (hne key hindex)] at hval
            split_ifs at hval with hkeyeq
            · exact Or.inl ⟨hkeyeq, (Option.some.inj hval).symm⟩
            · exact Or.inr ⟨hval, hkeyeq⟩
        · dsimp only [kMinUpdateTimeoutThresholdMs] at hgap hle
          refine ⟨last, by omega, hlast, rfl, hm.sorted, hm.there, ?_, ?_⟩
          · intro key hkeyne hindex
            rw [hm.outside key hkeyne hindex, hfound key hkeyne, if_neg (hother key hindex)]
          · intro key value hindex hval
            rcases hm.inside key value hindex hval with hnew | ⟨hold, -, hcrtne⟩
            · exact Or.inl hnew
            · have hkeyne := hcrtne htime.1
              rw [hfound key (hne key hindex), if_neg hkeyne] at hold
              exact Or.inr ⟨hold, hkeyne⟩
      obtain ⟨last, hle, hlast, rfl, hsorted₃, hthere₃, houtside, hinside⟩ := hmoved
      dsimp only [kMinUpdateTimeoutThresholdMs] at hskip
      refine Or.inr ⟨last, not_lt.1 hskip, hle, hlast, ?_⟩
      by_cases hold : 0 < u.crt_timeout_
      · -- Only now the old key is deleted; it is not the new one.
        rw [if_pos hold] at h
        obtain ⟨_, hdelete, h⟩ := Option.map_eq_some_iff.1 h
        cases h
        have hdeleted := lookup_deleteValue hdelete
        have hnew : timeoutKey u.prefix_ last ≠ timeoutKey u.prefix_ u.crt_timeout_ := by
          intro heq
          have hsame := timeoutKey_inj hlast ⟨hold, hcrt⟩ heq
          omega
        refine ⟨rfl, sorted_deleteValue hdelete hsorted₃, ?_, ?_, ?_⟩
        · rw [hdeleted, if_neg hnew, hthere₃]
        · intro key hkeyne hindex
          have hkeep : key ≠ timeoutKey u.prefix_ u.crt_timeout_ := fun heq => hindex (heq ▸ inIndex_timeoutKey _ _)
          rw [hdeleted, if_neg hkeep, houtside key hkeyne hindex]
        · intro key value hindex hval
          rw [hdeleted] at hval
          split_ifs at hval with hkeyeq
          rcases hinside key value hindex hval with hlastkey | ⟨hwas, hfirst⟩
          · exact Or.inl hlastkey
          · exact Or.inr ⟨hwas, hfirst, fun _ => hkeyeq⟩
      · rw [if_neg hold] at h
        cases h
        refine ⟨rfl, hsorted₃, hthere₃, houtside, ?_⟩
        intro key value hindex hval
        rcases hinside key value hindex hval with hlastkey | ⟨hwas, hfirst⟩
        · exact Or.inl hlastkey
        · exact Or.inr ⟨hwas, hfirst, fun hpos => absurd hpos hold⟩

end Update

end Whispercast.Checkpoint
