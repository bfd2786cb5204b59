import Mathlib.Logic.Function.Basic
import Whispercast.Library.Run

/-!
# The poll table

The poll variant of `SelectorBase` (`whisperlib/net/base/selector_base.cc`). `fds_` holds the first `fds_size_` entries;
user data are numbers, with 0 for `NULL`. `none` is a failed `CHECK`, or an access outside the table.
-/

namespace Whispercast.Net

open Library Function List

/-- The desires of a selector. -/
structure Desires where
  wantRead : Bool := false
  wantWrite : Bool := false
  wantError : Bool := false

/-- The flags of `poll`. -/
structure PollEvents where
  pollin : Bool := false
  pollpri : Bool := false
  pollout : Bool := false
  pollerr : Bool := false
  pollhup : Bool := false
  pollnval : Bool := false
  pollrdhup : Bool := false
  deriving DecidableEq

structure PollFd where
  fd : Int
  events : PollEvents

structure SelectorEventData where
  data_ : Nat
  desires_ : Desires
  internal_event_ : PollEvents

/-- How a call of `poll` ends. -/
inductive Polled where
  | failed
  | interrupted
  | ready (revents : Int → PollEvents)

/-- `SelectorBase`; `live` remembers the descriptors that are registered, with the user data of their `Add` and the
desires of their latest `Add` or `Update`. -/
structure SelectorBase where
  fds_ : List PollFd := []
  fd_data_ : Int → Option (Nat × Nat) := fun _ => none
  indices_to_compact_ : List Nat := []
  live : Int → Option (Nat × Desires) := fun _ => none

namespace SelectorBase

def INVALID_FD_VALUE : Int := -1

def kMaxFds : Nat := 4096

def desiresToPollEvents (desires : Desires) : PollEvents where
  pollin := desires.wantRead
  pollrdhup := desires.wantRead
  pollout := desires.wantWrite
  pollerr := desires.wantError
  pollhup := desires.wantError

variable (s : SelectorBase)

def add (fd : Int) (user_data : Nat) (desires : Desires) : SelectorBase × Bool :=
  if fd = INVALID_FD_VALUE then (s, true)
  else if kMaxFds ≤ s.fds_.length then (s, false)
  else
    -- `insert` leaves an entry that is there
    ({ s with
        fds_ := s.fds_ ++ [⟨fd, desiresToPollEvents desires⟩]
        fd_data_ := Function.update s.fd_data_ fd (some ((s.fd_data_ fd).getD (s.fds_.length, user_data)))
        live := Function.update s.live fd (some (user_data, desires)) }, true)

def update (fd : Int) (_user_data : Nat) (desires : Desires) : SelectorBase × Bool :=
  if fd = INVALID_FD_VALUE then (s, true)
  else match s.fd_data_ fd with
    | none => (s, false)
    | some (index, _) =>
      ({ s with
          fds_ := s.fds_.modify index fun p => { p with events := desiresToPollEvents desires }
          live := Function.update s.live fd ((s.live fd).map fun l => (l.1, desires)) }, true)

def delete (fd : Int) : SelectorBase × Bool :=
  if fd = INVALID_FD_VALUE then (s, true)
  else match s.fd_data_ fd with
    | none => (s, false)
    | some (index, _) =>
      ({ s with
          indices_to_compact_ := s.indices_to_compact_ ++ [index]
          fds_ := s.fds_.modify index fun p => { p with fd := -1 }
          fd_data_ := Function.update s.fd_data_ fd none
          live := Function.update s.live fd none }, true)

/-- The body of the loop of `Compact`. -/
def fillHole (index : Nat) : Option SelectorBase := do
  let last ← s.fds_.getLast?
  let fds_size := s.fds_.length - 1
  if 0 < fds_size ∧ index ≠ fds_size then
    let (_, user_data) ← s.fd_data_ last.fd
    some { s with
      fd_data_ := Function.update s.fd_data_ last.fd (some (index, user_data))
      fds_ := (s.fds_.set index last).dropLast }
  else some { s with fds_ := s.fds_.dropLast }

def compact : Option SelectorBase := do
  let s ← s.indices_to_compact_.foldlM fillHole s
  some { s with indices_to_compact_ := [] }

/-- The desires of an event: `POLLOUT` is looked up in what was asked for. -/
def desire (events revents : PollEvents) : Desires where
  wantError := revents.pollerr || revents.pollhup || revents.pollrdhup
  wantRead := revents.pollin || revents.pollpri
  wantWrite := events.pollout

/-- The loop of `LoopStep`, with `num_events`. -/
def report (revents : Int → PollEvents) : Nat → List PollFd → Option (List SelectorEventData)
  | 0, _ => some []
  | _, [] => some []
  | num_events + 1, p :: fds =>
    if revents p.fd = {} then report revents (num_events + 1) fds
    else do
      let (_, user_data) ← s.fd_data_ p.fd
      let events ← report revents num_events fds
      some (⟨user_data, desire p.events (revents p.fd), revents p.fd⟩ :: events)

/-- `LoopStep`: `poll` returns the number of entries with some flag. -/
def loopStep (polled : Polled) : Option (SelectorBase × List SelectorEventData × Bool) := do
  let s ← s.compact
  match polled with
  | .failed => some (s, [], false)
  | .interrupted => some (s, [], true)
  | .ready revents =>
    let events ← s.report revents (s.fds_.countP fun p => revents p.fd ≠ {}) s.fds_
    some (s, events, true)

inductive Call where
  | add (fd : Int) (user_data : Nat) (desires : Desires)
  | update (fd : Int) (user_data : Nat) (desires : Desires)
  | delete (fd : Int)
  | loopStep (polled : Polled)

def step : Call → Option SelectorBase
  | .add fd user_data desires => some (s.add fd user_data desires).1
  | .update fd user_data desires => some (s.update fd user_data desires).1
  | .delete fd => some (s.delete fd).1
  | .loopStep polled => (s.loopStep polled).map Prod.fst

/-- The constructor. -/
def new (pipe_fd : Int) : SelectorBase := (add {} pipe_fd 0 { wantRead := true, wantError := true }).1

/-- Each hole lies inside the table when its turn comes, where the table is shorter by one for each hole before. -/
def Inside : Nat → List Nat → Prop
  | _, [] => True
  | size, index :: holes => index < size ∧ Inside (size - 1) holes

instance decidableInside : ∀ size holes, Decidable (Inside size holes)
  | _, [] => .isTrue trivial
  | size, _ :: holes =>
    have := decidableInside (size - 1) holes
    inferInstanceAs (Decidable (_ ∧ _))

/-- No descriptor is added twice; at a `LoopStep` the holes lie inside the shrinking table, and a descriptor that waits to
write gets `POLLOUT` when it gets any flag. -/
def Spared : Call → Prop
  | .add fd _ _ => (s.fd_data_ fd).isNone
  | .loopStep polled =>
    Inside s.fds_.length s.indices_to_compact_ ∧
      match polled with
      | .ready revents => ∀ p ∈ s.fds_, p.fd ≠ -1 → revents p.fd ≠ {} → p.events.pollout → (revents p.fd).pollout
      | _ => True
  | _ => True

instance decidableSpared : ∀ c, Decidable (s.Spared c)
  | .add .. => inferInstanceAs (Decidable (_ = true))
  | .update .. | .delete _ => .isTrue trivial
  | .loopStep (.ready _) => by unfold Spared; infer_instance
  | .loopStep .failed | .loopStep .interrupted => inferInstanceAs (Decidable (_ ∧ True))

/-- The table follows the registrations. -/
structure Follows : Prop where
  live : ∀ fd user_data desires, s.live fd = some (user_data, desires) →
    ∃ i, s.fd_data_ fd = some (i, user_data) ∧ s.fds_[i]? = some ⟨fd, desiresToPollEvents desires⟩
  entry : ∀ i p, s.fds_[i]? = some p → ∃ user_data desires,
    s.live p.fd = some (user_data, desires) ∧ s.fd_data_ p.fd = some (i, user_data)
  data : ∀ fd, (s.fd_data_ fd).isSome = (s.live fd).isSome
  size : s.fds_.length ≤ kMaxFds
  compacted : s.indices_to_compact_ = []

/-- An event carries the user data of a descriptor, and only desires that its flags have. -/
def Right (revents : Int → PollEvents) (e : SelectorEventData) : Prop :=
  ∃ fd desires, s.live fd = some (e.data_, desires) ∧ e.internal_event_ = revents fd ∧
    (e.desires_.wantRead → (revents fd).pollin ∨ (revents fd).pollpri) ∧
    (e.desires_.wantWrite → (revents fd).pollout) ∧
    (e.desires_.wantError → (revents fd).pollerr ∨ (revents fd).pollhup ∨ (revents fd).pollrdhup)

/-- The invariant, with the entries that are to be filled. -/
structure Inv (holes : List Nat) : Prop where
  data : ∀ fd i u, s.fd_data_ fd = some (i, u) →
    ∃ d, s.live fd = some (u, d) ∧ s.fds_[i]? = some ⟨fd, desiresToPollEvents d⟩
  live : ∀ fd, (s.live fd).isSome → (s.fd_data_ fd).isSome
  entry : ∀ i p, s.fds_[i]? = some p → i ∈ holes ∨ ∃ u, s.fd_data_ p.fd = some (i, u)
  hole : ∀ i ∈ holes, ∃ p, s.fds_[i]? = some p ∧ p.fd = -1
  nodup : holes.Nodup
  invalid : s.fd_data_ (-1) = none
  size : s.fds_.length ≤ kMaxFds

variable {s} {s' : SelectorBase} {holes : List Nat}

variable {fd : Int}

theorem Inv.fd_eq (h : s.Inv holes) {i u : Nat} {p : PollFd} (hdata : s.fd_data_ fd = some (i, u))
    (hp : s.fds_[i]? = some p) : p.fd = fd := by
  obtain ⟨d, -, hentry⟩ := h.data fd i u hdata
  cases hentry.symm.trans hp
  rfl

theorem Inv.not_hole (h : s.Inv holes) {i u : Nat} (hdata : s.fd_data_ fd = some (i, u)) : i ∉ holes := by
  intro hi
  obtain ⟨p, hp, hfd⟩ := h.hole i hi
  rw [← h.fd_eq hdata hp, hfd, h.invalid] at hdata
  cases hdata

/-- Without holes, the table follows the registrations. -/
theorem Inv.follows (h : s.Inv []) (hcompacted : s.indices_to_compact_ = []) : s.Follows where
  live fd u d hlive := by
    obtain ⟨⟨i, u'⟩, hdata⟩ := Option.isSome_iff_exists.1 (h.live fd (by rw [hlive]; rfl))
    obtain ⟨_, hlive', hentry⟩ := h.data fd i u' hdata
    cases hlive.symm.trans hlive'
    exact ⟨i, hdata, hentry⟩
  entry i p hp := by
    rcases h.entry i p hp with hmem | ⟨u, hdata⟩
    · cases hmem
    · obtain ⟨d, hlive, -⟩ := h.data _ _ _ hdata
      exact ⟨u, d, hlive, hdata⟩
  data fd := by
    cases hdata : s.fd_data_ fd with
    | none =>
      have := mt (h.live fd)
      simp_all
    | some x =>
      obtain ⟨d, hlive, -⟩ := h.data fd x.1 x.2 hdata
      rw [hlive]
      rfl
  size := h.size
  compacted := hcompacted

theorem Inv.add (h : s.Inv s.indices_to_compact_) {user_data : Nat} {desires : Desires}
    (hnew : (s.fd_data_ fd).isNone) :
    (s.add fd user_data desires).1.Inv (s.add fd user_data desires).1.indices_to_compact_ := by
  unfold SelectorBase.add
  split_ifs with hinvalid hfull
  · exact h
  · exact h
  · have hnone : s.fd_data_ fd = none := Option.isNone_iff_eq_none.1 hnew
    constructor <;> try dsimp only
    · intro fd' i u hdata
      by_cases heq : fd' = fd
      · subst heq
        simp only [Function.update_self, hnone, Option.getD_none, Option.some.injEq, Prod.mk.injEq] at hdata
        obtain ⟨rfl, rfl⟩ := hdata
        exact ⟨desires, by simp, by simp⟩
      · rw [update_of_ne heq] at hdata
        obtain ⟨d, hlive, hentry⟩ := h.data fd' i u hdata
        refine ⟨d, by rw [update_of_ne heq, hlive], ?_⟩
        rw [List.getElem?_append_left (List.getElem?_eq_some_iff.1 hentry).1, hentry]
    · intro fd' hlive
      by_cases heq : fd' = fd
      · simp [heq]
      · rw [update_of_ne heq] at hlive ⊢
        exact h.live fd' hlive
    · intro i p hp
      rcases Nat.lt_or_ge i s.fds_.length with hlt | hge
      · rw [List.getElem?_append_left hlt] at hp
        rcases h.entry i p hp with hmem | ⟨u, hdata⟩
        · exact .inl hmem
        · refine .inr ⟨u, ?_⟩
          rw [update_of_ne (by rintro heq; rw [heq, hnone] at hdata; cases hdata), hdata]
      · rw [List.getElem?_append_right hge, List.getElem?_singleton] at hp
        split_ifs at hp with hi
        cases hp
        have hlen : i = s.fds_.length := by omega
        exact .inr ⟨user_data, by simp [hnone, hlen]⟩
    · intro i hi
      obtain ⟨p, hp, hfd⟩ := h.hole i hi
      exact ⟨p, by rw [List.getElem?_append_left (List.getElem?_eq_some_iff.1 hp).1, hp], hfd⟩
    · exact h.nodup
    · rw [update_of_ne (fun heq : -1 = fd => hinvalid heq.symm), h.invalid]
    · simp only [List.length_append, List.length_singleton]
      omega

theorem Inv.update (h : s.Inv s.indices_to_compact_) {user_data : Nat} {desires : Desires} :
    (s.update fd user_data desires).1.Inv (s.update fd user_data desires).1.indices_to_compact_ := by
  unfold SelectorBase.update
  split_ifs with hinvalid
  · exact h
  cases hfd : s.fd_data_ fd with
  | none => exact h
  | some x =>
    obtain ⟨d, hlive, hentry⟩ := h.data fd x.1 x.2 hfd
    constructor <;> try dsimp only
    · intro fd' i u hdata
      obtain ⟨d', hlive', hentry'⟩ := h.data fd' i u hdata
      by_cases heq : fd' = fd
      · subst heq
        cases hfd.symm.trans hdata
        exact ⟨desires, by simp [hlive], by simp [hentry]⟩
      · have hne : x.1 ≠ i := by
          rintro rfl
          exact heq (h.fd_eq hdata hentry).symm
        exact ⟨d', by simp [heq, hlive'], by simp [hne, hentry']⟩
    · intro fd' hlive'
      by_cases heq : fd' = fd
      · simp [heq, hfd]
      · simp only [update_of_ne heq] at hlive'
        exact h.live fd' hlive'
    · intro i p hp
      rw [getElem?_modify] at hp
      obtain ⟨q, hq, rfl⟩ := Option.map_eq_some_iff.1 hp
      have := h.entry i q hq
      split_ifs <;> exact this
    · intro i hi
      obtain ⟨p, hp, hhole⟩ := h.hole i hi
      refine ⟨_, by rw [getElem?_modify, hp]; rfl, ?_⟩
      split_ifs <;> exact hhole
    · exact h.nodup
    · exact h.invalid
    · simpa using h.size

theorem Inv.delete (h : s.Inv s.indices_to_compact_) : (s.delete fd).1.Inv (s.delete fd).1.indices_to_compact_ := by
  unfold SelectorBase.delete
  split_ifs with hinvalid
  · exact h
  cases hfd : s.fd_data_ fd with
  | none => exact h
  | some x =>
    obtain ⟨d, -, hentry⟩ := h.data fd x.1 x.2 hfd
    constructor <;> try dsimp only
    · intro fd' i u hdata
      by_cases heq : fd' = fd
      · simp [heq] at hdata
      · rw [update_of_ne heq] at hdata
        obtain ⟨d', hlive', hentry'⟩ := h.data fd' i u hdata
        have hne : x.1 ≠ i := by
          rintro rfl
          exact heq (h.fd_eq hdata hentry).symm
        exact ⟨d', by simp [heq, hlive'], by simp [hne, hentry']⟩
    · intro fd' hlive'
      by_cases heq : fd' = fd
      · simp [heq] at hlive'
      · rw [update_of_ne heq] at hlive' ⊢
        exact h.live fd' hlive'
    · intro i p hp
      rw [getElem?_modify] at hp
      obtain ⟨q, hq, rfl⟩ := Option.map_eq_some_iff.1 hp
      by_cases hi : x.1 = i
      · exact .inl (by simp [hi])
      · rw [if_neg hi]
        rcases h.entry i q hq with hmem | ⟨u, hdata⟩
        · exact .inl (mem_append_left _ hmem)
        · refine .inr ⟨u, ?_⟩
          -- the entry of another descriptor
          have hne : q.fd ≠ fd := fun heq => hi (by rw [heq, hfd] at hdata; cases hdata; rfl)
          exact (update_of_ne hne _ _).trans hdata
    · intro i hi
      rw [getElem?_modify]
      by_cases heq : x.1 = i
      · exact ⟨⟨-1, desiresToPollEvents d⟩, by rw [← heq, hentry]; simp, rfl⟩
      · have hmem : i ∈ s.indices_to_compact_ := by simpa [Ne.symm heq] using hi
        obtain ⟨p, hp, hhole⟩ := h.hole i hmem
        exact ⟨p, by rw [hp]; simp [heq], hhole⟩
    · refine nodup_append.2 ⟨h.nodup, by simp, fun i hi j hj heq => ?_⟩
      exact h.not_hole hfd (mem_singleton.1 hj ▸ heq ▸ hi)
    · by_cases heq : fd = -1
      · exact absurd heq hinvalid
      · rw [update_of_ne (Ne.symm heq), h.invalid]
    · simpa using h.size

theorem Inside.lt {size : Nat} (h : Inside size holes) : ∀ i ∈ holes, i < size := by
  induction holes generalizing size with
  | nil => simp
  | cons index holes ih =>
    intro i hi
    rcases mem_cons.1 hi with rfl | hi
    · exact h.1
    · exact Nat.lt_of_lt_of_le (ih h.2 i hi) (Nat.sub_le _ _)

/-- What is left of the table when its last entry was the hole. -/
theorem Inv.dropLast {index : Nat} (h : s.Inv (index :: holes)) (hlast : index = s.fds_.length - 1) :
    { s with fds_ := s.fds_.dropLast }.Inv holes := by
  have hnodup := List.nodup_cons.1 h.nodup
  have hget : ∀ i p, s.fds_.dropLast[i]? = some p → i < s.fds_.length - 1 ∧ s.fds_[i]? = some p := by
    intro i p hp
    rw [List.getElem?_dropLast] at hp
    split_ifs at hp with hi
    exact ⟨hi, hp⟩
  have hback : ∀ i p, i ≠ index → s.fds_[i]? = some p → s.fds_.dropLast[i]? = some p := by
    intro i p hne hp
    have := (List.getElem?_eq_some_iff.1 hp).1
    rw [List.getElem?_dropLast, if_pos (by omega), hp]
  refine ⟨?_, h.live, ?_, ?_, hnodup.2, h.invalid, ?_⟩
  · intro fd i v hfd
    obtain ⟨d, hlive, hentry⟩ := h.data fd i v hfd
    exact ⟨d, hlive, hback i _ (fun hi => h.not_hole hfd (hi ▸ mem_cons_self)) hentry⟩
  · intro i p hp
    obtain ⟨hi, hp⟩ := hget i p hp
    refine (h.entry i p hp).imp_left fun hmem => (mem_cons.1 hmem).resolve_left ?_
    omega
  · intro i hi
    obtain ⟨p, hp, hfd⟩ := h.hole i (mem_cons_of_mem _ hi)
    exact ⟨p, hback i p (fun heq => hnodup.1 (heq ▸ hi)) hp, hfd⟩
  · rw [List.length_dropLast]
    exact Nat.le_trans (Nat.sub_le _ _) h.size

/-- The last entry, of a live descriptor, is moved into the hole. -/
theorem Inv.moveLast {index u : Nat} {last : PollFd} (h : s.Inv (index :: holes)) (hindex : index < s.fds_.length - 1)
    (hbehind : ∀ i ∈ holes, i < s.fds_.length - 1) (hlast : s.fds_[s.fds_.length - 1]? = some last)
    (hdata : s.fd_data_ last.fd = some (s.fds_.length - 1, u)) :
    { s with
      fd_data_ := Function.update s.fd_data_ last.fd (some (index, u))
      fds_ := (s.fds_.set index last).dropLast }.Inv holes := by
  have hnodup := List.nodup_cons.1 h.nodup
  obtain ⟨d, hlive, hentry⟩ := h.data _ _ _ hdata
  have hget : ∀ i, i < s.fds_.length - 1 → (s.fds_.set index last).dropLast[i]? =
      if index = i then some last else s.fds_[i]? := by
    intro i hi
    have hlt : index < s.fds_.length := by omega
    rw [List.getElem?_dropLast, List.length_set, if_pos hi, List.getElem?_set]
    simp [hlt]
  have hlen : (s.fds_.set index last).dropLast.length = s.fds_.length - 1 := by simp
  have hvalid : -1 ≠ last.fd := fun heq => by
    rw [← heq, h.invalid] at hdata
    cases hdata
  refine ⟨?_, ?_, ?_, ?_, hnodup.2, ?_, ?_⟩ <;> dsimp only
  · intro fd i v hfd
    by_cases heq : fd = last.fd
    · subst heq
      simp only [Function.update_self, Option.some.injEq, Prod.mk.injEq] at hfd
      obtain ⟨rfl, rfl⟩ := hfd
      exact ⟨d, hlive, by rw [hget _ hindex, if_pos rfl, ← hlast, hentry]⟩
    · rw [update_of_ne heq] at hfd
      obtain ⟨d', hlive', hentry'⟩ := h.data fd i v hfd
      have hlt := (List.getElem?_eq_some_iff.1 hentry').1
      have hi : i ≠ s.fds_.length - 1 := by
        rintro rfl
        exact heq (h.fd_eq hfd hlast).symm
      have hne : index ≠ i := fun hi => h.not_hole hfd (hi ▸ mem_cons_self)
      exact ⟨d', hlive', by rw [hget _ (by omega), if_neg hne, hentry']⟩
  · intro fd hfd
    by_cases heq : fd = last.fd
    · simp [heq]
    · rw [update_of_ne heq]
      exact h.live fd hfd
  · intro i p hp
    have hi : i < s.fds_.length - 1 := hlen ▸ (List.getElem?_eq_some_iff.1 hp).1
    rw [hget i hi] at hp
    split_ifs at hp with heq
    · cases hp
      exact .inr ⟨u, by simp [heq]⟩
    · rcases h.entry i p hp with hmem | ⟨v, hv⟩
      · exact .inl ((mem_cons.1 hmem).resolve_left (Ne.symm heq))
      · refine .inr ⟨v, ?_⟩
        rw [update_of_ne, hv]
        rintro hfd
        rw [hfd, hdata] at hv
        cases hv
        omega
  · intro i hi
    obtain ⟨p, hp, hfd⟩ := h.hole i (mem_cons_of_mem _ hi)
    exact ⟨p, by rw [hget i (hbehind i hi), if_neg (fun heq : index = i => hnodup.1 (heq ▸ hi)), hp], hfd⟩
  · rw [update_of_ne hvalid, h.invalid]
  · rw [hlen]
    exact Nat.le_trans (Nat.sub_le _ _) h.size

/-- A hole that lies inside the table, as those behind it do when it is one shorter, is filled. -/
theorem Inv.fillHole {index : Nat} (h : s.Inv (index :: holes)) (hinside : Inside s.fds_.length (index :: holes)) :
    ∃ s', s.fillHole index = some s' ∧ s'.Inv holes ∧ s'.fds_.length = s.fds_.length - 1 ∧ s'.live = s.live ∧
      ∀ p ∈ s'.fds_, p ∈ s.fds_ := by
  have hindex := hinside.1
  have hbehind : ∀ i ∈ holes, i < s.fds_.length - 1 := hinside.2.lt
  obtain ⟨last, hlast⟩ : ∃ last, s.fds_[s.fds_.length - 1]? = some last :=
    ⟨_, getElem?_eq_getElem (by omega)⟩
  unfold SelectorBase.fillHole
  rw [getLast?_eq_getElem?, hlast]
  simp only [Option.bind_eq_bind, Option.bind_some]
  split_ifs with hmove
  · -- the last entry is not one of the holes
    have hno : s.fds_.length - 1 ∉ index :: holes := by
      intro hmem
      rcases mem_cons.1 hmem with heq | hmem
      · exact hmove.2 heq.symm
      · exact absurd (hbehind _ hmem) (Nat.lt_irrefl _)
    obtain ⟨u, hdata⟩ := (h.entry _ _ hlast).resolve_left hno
    rw [hdata]
    refine ⟨_, rfl, h.moveLast (by omega) hbehind hlast hdata, by simp, rfl, fun p hp => ?_⟩
    rcases mem_or_eq_of_mem_set (dropLast_subset _ hp) with hmem | rfl
    · exact hmem
    · exact mem_of_getElem? hlast
  · -- it is the hole itself
    have heq : index = s.fds_.length - 1 := by
      by_contra hne
      exact hmove ⟨by omega, hne⟩
    exact ⟨_, rfl, h.dropLast heq, by simp, rfl, fun p hp => dropLast_subset _ hp⟩

theorem Inv.fillHoles (h : s.Inv holes) (hinside : Inside s.fds_.length holes) :
    ∃ s', holes.foldlM SelectorBase.fillHole s = some s' ∧ s'.Inv [] ∧ s'.live = s.live ∧ ∀ p ∈ s'.fds_, p ∈ s.fds_ := by
  induction holes generalizing s with
  | nil => exact ⟨s, rfl, h, rfl, fun _ hp => hp⟩
  | cons index holes ih =>
    obtain ⟨_, hfill, hinv, hlen, hlive, hmem⟩ := h.fillHole hinside
    obtain ⟨s', hrun, hinv', hlive', hmem'⟩ := ih hinv (hlen ▸ hinside.2)
    refine ⟨s', ?_, hinv', hlive'.trans hlive, fun p hp => hmem p (hmem' p hp)⟩
    rw [foldlM_cons, hfill]
    exact hrun

theorem Inv.compact (h : s.Inv s.indices_to_compact_) (hinside : Inside s.fds_.length s.indices_to_compact_) :
    ∃ s', s.compact = some s' ∧ s'.Inv [] ∧ s'.indices_to_compact_ = [] ∧ s'.live = s.live ∧
      ∀ p ∈ s'.fds_, p ∈ s.fds_ := by
  obtain ⟨s', hrun, hinv, hlive, hmem⟩ := h.fillHoles hinside
  refine ⟨{ s' with indices_to_compact_ := [] }, ?_, ⟨hinv.data, hinv.live, hinv.entry, hinv.hole, hinv.nodup,
    hinv.invalid, hinv.size⟩, rfl, hlive, hmem⟩
  rw [SelectorBase.compact, hrun]
  rfl

/-- Entries that are live are reported with their own data. -/
theorem report_right {revents : Int → PollEvents} {fds : List PollFd} (num_events : Nat)
    (hlive : ∀ p ∈ fds, ∃ i u d, s.fd_data_ p.fd = some (i, u) ∧ s.live p.fd = some (u, d))
    (hwrite : ∀ p ∈ fds, revents p.fd ≠ {} → p.events.pollout → (revents p.fd).pollout) :
    ∃ events, s.report revents num_events fds = some events ∧ ∀ e ∈ events, s.Right revents e := by
  induction fds generalizing num_events with
  | nil => cases num_events <;> exact ⟨[], rfl, by simp⟩
  | cons p fds ih =>
    cases num_events with
    | zero => exact ⟨[], rfl, by simp⟩
    | succ n =>
      have ih' := fun n => ih n (fun q hq => hlive q (mem_cons_of_mem _ hq))
        (fun q hq => hwrite q (mem_cons_of_mem _ hq))
      by_cases hzero : revents p.fd = {}
      · obtain ⟨events, hrun, hright⟩ := ih' (n + 1)
        exact ⟨events, by rw [report, if_pos hzero, hrun], hright⟩
      · obtain ⟨i, u, d, hdata, hp⟩ := hlive p mem_cons_self
        obtain ⟨events, hrun, hright⟩ := ih' n
        refine ⟨_, by rw [report, if_neg hzero, hdata, Option.bind_eq_bind, Option.bind_some, hrun]; rfl, ?_⟩
        intro e he
        rcases mem_cons.1 he with rfl | he
        · refine ⟨p.fd, d, hp, rfl, ?_, hwrite p mem_cons_self hzero, ?_⟩
          · simp [desire]
          · simp [desire, or_assoc]
        · exact hright e he

/-- Every spared `LoopStep` is made, and leaves a table that follows the registrations. -/
theorem Inv.loopStep (h : s.Inv s.indices_to_compact_) {polled : Polled} (hspared : s.Spared (.loopStep polled)) :
    ∃ s' events ok, s.loopStep polled = some (s', events, ok) ∧ s'.Inv s'.indices_to_compact_ ∧ s'.Follows ∧
      s'.live = s.live ∧ ∀ revents, polled = .ready revents → ∀ e ∈ events, s'.Right revents e := by
  obtain ⟨s', hcompact, hinv, hempty, hlive, hmem⟩ := h.compact hspared.1
  have hfollows := hinv.follows hempty
  have hinv' : s'.Inv s'.indices_to_compact_ := hempty.symm ▸ hinv
  cases polled with
  | failed => exact ⟨s', [], false, by rw [SelectorBase.loopStep, hcompact]; rfl, hinv', hfollows, hlive, by simp⟩
  | interrupted => exact ⟨s', [], true, by rw [SelectorBase.loopStep, hcompact]; rfl, hinv', hfollows, hlive, by simp⟩
  | ready revents =>
    have hentry : ∀ p ∈ s'.fds_, ∃ i u d, s'.fd_data_ p.fd = some (i, u) ∧ s'.live p.fd = some (u, d) := by
      intro p hp
      obtain ⟨i, hi⟩ := mem_iff_getElem?.1 hp
      obtain ⟨u, d, hl, hd⟩ := hfollows.entry i p hi
      exact ⟨i, u, d, hd, hl⟩
    obtain ⟨events, hrun, hright⟩ := report_right (s'.fds_.countP fun p => revents p.fd ≠ {}) hentry fun p hp => by
      obtain ⟨i, u, d, hd, -⟩ := hentry p hp
      refine hspared.2 p (hmem p hp) fun heq => ?_
      rw [heq, hinv.invalid] at hd
      cases hd
    refine ⟨s', events, true, ?_, hinv', hfollows, hlive, fun revents' heq => ?_⟩
    · rw [SelectorBase.loopStep, hcompact]
      simp only [Option.bind_eq_bind, Option.bind_some, hrun]
    · cases heq
      exact hright

theorem Inv.step (h : s.Inv s.indices_to_compact_) {c : Call} (hspared : s.Spared c) :
    ∃ s', s.step c = some s' ∧ s'.Inv s'.indices_to_compact_ := by
  cases c with
  | add fd user_data desires => exact ⟨_, rfl, h.add hspared⟩
  | update fd user_data desires => exact ⟨_, rfl, h.update⟩
  | delete fd => exact ⟨_, rfl, h.delete⟩
  | loopStep polled =>
    obtain ⟨s', _, _, hrun, hinv, -⟩ := h.loopStep hspared
    exact ⟨s', by rw [SelectorBase.step, hrun]; rfl, hinv⟩

theorem inv_new (pipe_fd : Int) : (new pipe_fd).Inv (new pipe_fd).indices_to_compact_ :=
  Inv.add ⟨by simp, by simp, by simp, by simp, nodup_nil, rfl, Nat.zero_le _⟩ rfl

/-- In a run whose calls are all spared no `CHECK` fails, and every spared `LoopStep` behind it leaves a table that follows
the registrations, and returns right events. -/
theorem run_follows {pipe_fd : Int} {calls : List Call} (hspared : Along step Spared (new pipe_fd) calls) :
    ∃ s, run step (new pipe_fd) calls = some s ∧ ∀ polled, s.Spared (.loopStep polled) →
      ∃ s' events ok, s.loopStep polled = some (s', events, ok) ∧ s'.Follows ∧ s'.live = s.live ∧
        ∀ revents, polled = .ready revents → ∀ e ∈ events, s'.Right revents e := by
  obtain ⟨s, hrun, hinv⟩ := run_along (fun _ _ (h : Inv _ _) hc => h.step hc) (inv_new pipe_fd) hspared
  refine ⟨s, hrun, fun polled hpolled => ?_⟩
  obtain ⟨s', events, ok, hstep, -, hrest⟩ := hinv.loopStep hpolled
  exact ⟨s', events, ok, hstep, hrest⟩

/-- The last of three entries is deleted, and then the one before it. -/
theorem run_follows_deleted : ∃ s, run step (new 0) [.add 5 1 { wantRead := true }, .add 6 2 { wantWrite := true },
    .delete 6, .delete 5] = some s ∧ ∀ polled, s.Spared (.loopStep polled) →
      ∃ s' events ok, s.loopStep polled = some (s', events, ok) ∧ s'.Follows ∧ s'.live = s.live ∧
        ∀ revents, polled = .ready revents → ∀ e ∈ events, s'.Right revents e :=
  run_follows (by decide)

/-- In the other order the last entry is a hole when the first one is filled. And a descriptor that waits to write, and
can be read, is reported as writable. -/
theorem trailing_hole_fails : run step (new 0) [.add 5 1 { wantRead := true }, .add 6 2 { wantWrite := true },
      .delete 5, .delete 6, .loopStep .interrupted] = none ∧
    ∃ s' e, loopStep (add (new 0) 5 1 { wantRead := true, wantWrite := true }).1
        (.ready fun fd => if fd = 5 then { pollin := true } else {}) = some (s', [e], true) ∧
      ¬ s'.Right (fun fd => if fd = 5 then { pollin := true } else {}) e := by
  refine ⟨rfl, _, _, rfl, ?_⟩
  rintro ⟨fd, d, -, hevent, -, hwrite, -⟩
  have hout := hwrite rfl
  rw [← hevent] at hout
  cases hout

end SelectorBase

end Whispercast.Net
