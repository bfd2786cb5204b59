import Whispercast.Library.Run

/-!
# Playlist policies

`PlaylistPolicy` and `TimedPlaylistPolicy` (`standard_library/policies/policy.h`, `policy.cc`), with their state keepers,
the clock and the alarm. What the two classes have in common is `Position`. `none` is an access outside the playlist.
Whether `SwitchCurrentMedia` succeeds is a parameter of a call. Saved numbers are what `strtol` reads.
-/

namespace Whispercast.Stream

open Library

variable {α : Type}

/-- The playlist and the indexes into it. -/
structure Position (α : Type) where
  playlist_ : List α
  loop_playlist_ : Bool
  crt_ : Int := -1
  next_to_play_ : Int := -1
  next_next_to_play_ : Int := -1

/-- How a step along the playlist ends. -/
inductive Outcome where
  | empty | refused | plays
  deriving DecidableEq

namespace Position

variable (p : Position α)

def size : Int := p.playlist_.length

def Valid (i : Int) : Prop := 0 ≤ i ∧ i < p.size

instance (i : Int) : Decidable (p.Valid i) := inferInstanceAs (Decidable (_ ∧ _))

/-- `playlist_[crt_]`. -/
def current : Option α := if 0 ≤ p.crt_ then p.playlist_[p.crt_.toNat]? else none

def goToNext : Position α × Outcome :=
  if p.playlist_.isEmpty then (p, .empty)
  else if p.Valid p.next_to_play_ then
    if p.Valid p.next_next_to_play_ then
      ({ p with crt_ := p.next_to_play_, next_to_play_ := p.next_next_to_play_, next_next_to_play_ := -1 }, .plays)
    else ({ p with crt_ := p.next_to_play_, next_to_play_ := -1 }, .plays)
  else if p.size ≤ p.crt_ + 1 then
    if p.loop_playlist_ then ({ p with crt_ := 0 }, .plays) else ({ p with crt_ := p.crt_ + 1 }, .refused)
  else ({ p with crt_ := p.crt_ + 1 }, .plays)

def goToPrev : Position α × Outcome :=
  if p.playlist_.isEmpty then (p, .empty)
  else if p.crt_ - 1 < 0 then
    if p.loop_playlist_ then ({ p with crt_ := p.size - 1 }, .plays) else ({ p with crt_ := p.crt_ - 1 }, .refused)
  else ({ p with crt_ := p.crt_ - 1 }, .plays)

def reset : Position α := { p with crt_ := -1, next_to_play_ := -1, next_next_to_play_ := -1 }

/-- A playlist that does not loop, and of which nothing else is to be played, has not been refused at its end. -/
def NextSpared : Prop := ¬ p.playlist_.isEmpty → ¬ p.Valid p.next_to_play_ → p.loop_playlist_ = false → p.crt_ < p.size

/-- The position is not behind the end; and a playlist that does not loop has not been refused at its start, nor is
something else to be played where it will be. -/
def PrevSpared : Prop :=
  ¬ p.playlist_.isEmpty → p.crt_ ≤ p.size ∧ (p.loop_playlist_ = false → 0 ≤ p.crt_ ∧ (p.crt_ = 0 → ¬ p.Valid p.next_to_play_))

instance : Decidable p.NextSpared := inferInstanceAs (Decidable (_ → _ → _ → _))

instance : Decidable p.PrevSpared := inferInstanceAs (Decidable (_ → _ ∧ (_ → _)))

variable {p}

theorem size_pos (h : ¬ p.playlist_.isEmpty) : 0 < p.size := by
  unfold size
  cases hp : p.playlist_ with
  | nil => simp [hp] at h
  | cons a l => simp only [List.length_cons]; omega

theorem exists_current (h : p.Valid p.crt_) : ∃ a, p.current = some a ∧ a ∈ p.playlist_ := by
  have hlt : p.crt_.toNat < p.playlist_.length := by
    have := h.1
    have : p.crt_ < p.playlist_.length := h.2
    omega
  exact ⟨_, by rw [current, if_pos h.1, List.getElem?_eq_getElem hlt], List.getElem_mem hlt⟩

@[simp] theorem goToNext_playlist : p.goToNext.1.playlist_ = p.playlist_ := by
  unfold goToNext
  split_ifs <;> rfl

/-- The position stays at -1 or behind it, and what is played is an item. -/
theorem goToNext_valid (h : -1 ≤ p.crt_) :
    -1 ≤ p.goToNext.1.crt_ ∧ (p.goToNext.2 = .plays → p.goToNext.1.Valid p.goToNext.1.crt_) := by
  unfold goToNext
  split_ifs with hempty hnext hnn hend hloop
  · exact ⟨h, nofun⟩
  · exact ⟨by have := hnext.1; dsimp only; omega, fun _ => hnext⟩
  · exact ⟨by have := hnext.1; dsimp only; omega, fun _ => hnext⟩
  · exact ⟨by dsimp only; omega, fun _ => ⟨Int.le_refl _, size_pos hempty⟩⟩
  · exact ⟨by dsimp only; omega, nofun⟩
  · exact ⟨by dsimp only; omega, fun _ => ⟨by dsimp only; omega, Int.not_le.1 hend⟩⟩

theorem goToPrev_valid (h : -1 ≤ p.crt_) (hspared : p.PrevSpared) :
    -1 ≤ p.goToPrev.1.crt_ ∧ (p.goToPrev.2 = .plays → p.goToPrev.1.Valid p.goToPrev.1.crt_) := by
  unfold goToPrev
  split_ifs with hempty hstart hloop
  · exact ⟨h, nofun⟩
  · have := size_pos hempty
    exact ⟨by dsimp only; omega, fun _ => ⟨by dsimp only; omega, by dsimp only [size]; omega⟩⟩
  · have := ((hspared hempty).2 (by simpa using hloop)).1
    exact ⟨by dsimp only; omega, nofun⟩
  · have := (hspared hempty).1
    exact ⟨by dsimp only; omega, fun _ => ⟨by dsimp only; omega, by dsimp only [size] at *; omega⟩⟩

theorem goToNext_empty (h : p.goToNext.2 = .empty) : p.goToNext.1 = p := by
  unfold goToNext at h ⊢
  split_ifs at h ⊢
  rfl

theorem goToPrev_empty (h : p.goToPrev.2 = .empty) : p.goToPrev.1 = p := by
  unfold goToPrev at h ⊢
  split_ifs at h ⊢
  rfl

/-- What a step behind a refused one plays. -/
def Plays (m : Position α × Outcome) (i : Int) : Prop := m.2 = .plays ∧ m.1.crt_ = i

/-- Behind a step that is refused at the end, the last item is the previous one. -/
theorem goToNext_refused (hspared : p.NextSpared) (hrefused : p.goToNext.2 = .refused) :
    Plays p.goToNext.1.goToPrev (p.size - 1) := by
  unfold goToNext at hrefused ⊢
  split_ifs at hrefused ⊢ with hempty hnext hnn hend hloop
  have hcrt := hspared hempty hnext (by simpa using hloop)
  have hpos := size_pos hempty
  have heq : p.crt_ + 1 = p.size := by omega
  unfold goToPrev
  rw [if_neg hempty, heq, if_neg (by dsimp only; omega)]
  exact ⟨rfl, rfl⟩

/-- Behind a step that is refused at the start, the first item is the next one. -/
theorem goToPrev_refused (h : -1 ≤ p.crt_) (hspared : p.PrevSpared) (hrefused : p.goToPrev.2 = .refused) :
    Plays p.goToPrev.1.goToNext 0 := by
  unfold goToPrev at hrefused ⊢
  split_ifs at hrefused ⊢ with hempty hstart hloop
  obtain ⟨_, hnext⟩ := (hspared hempty).2 (by simpa using hloop)
  have hpos := size_pos hempty
  have hzero : p.crt_ = 0 := by omega
  unfold goToNext
  have hnot : ¬ { p with crt_ := p.crt_ - 1 }.Valid p.next_to_play_ := hnext hzero
  rw [if_neg hempty, if_neg hnot, if_neg (by dsimp only [size] at *; omega)]
  exact ⟨rfl, by dsimp only; omega⟩

end Position

/-! ## The playlist policy -/

/-- `PlaylistPolicy`, with what the local state keeper (if there is one) and the global one hold. -/
structure PlaylistPolicy where
  position : Position String
  is_temp_policy_ : Bool
  local_state_keeper_ : Option (Option Int × Option Int)
  global_state_keeper_ : Option (List String × Bool)

structure SetPlaylistPolicySpec where
  playlist_ : Option (List String × Bool)
  next_to_play_ : Option Int
  switch_now_ : Option Bool

namespace PlaylistPolicy

open Position (Plays)

variable (s : PlaylistPolicy)

def saveState : PlaylistPolicy :=
  { s with
    local_state_keeper_ := s.local_state_keeper_.map fun _ => (some s.position.crt_, some s.position.next_to_play_)
    global_state_keeper_ :=
      if s.is_temp_policy_ then s.global_state_keeper_
      else some (s.position.playlist_, s.position.loop_playlist_) }

def replacePlaylist (playlist : List String × Bool) : PlaylistPolicy :=
  { s with position := { s.position with playlist_ := playlist.1, loop_playlist_ := playlist.2 } }

def loadState : PlaylistPolicy :=
  let s := match s.local_state_keeper_ with
    | none => s
    | some (next, next_next) =>
      { s with position := { s.position with
          next_to_play_ := next.getD s.position.next_to_play_
          next_next_to_play_ := next_next.getD s.position.next_next_to_play_ } }
  match s.global_state_keeper_ with
  | none => s
  | some playlist => s.replacePlaylist playlist

/-- What follows a step along the playlist. -/
def move (m : Position String × Outcome) (switched : Bool) : Option (PlaylistPolicy × Bool) :=
  match m.2 with
  | .empty => some (s, false)
  | .refused => some ({ s with position := m.1 }.saveState, false)
  | .plays => m.1.current.map fun _ => ({ s with position := m.1 }.saveState, switched)

def goToNext (switched : Bool) : Option (PlaylistPolicy × Bool) := s.move s.position.goToNext switched

def goToPrev (switched : Bool) : Option (PlaylistPolicy × Bool) := s.move s.position.goToPrev switched

def addToPlay (name : String) : PlaylistPolicy × Bool :=
  match s.position.playlist_.findIdx? (· = name) with
  | none => (s, false)
  | some i =>
    ({ s with
        position := { s.position with next_to_play_ := i }
        local_state_keeper_ := s.local_state_keeper_.map fun l => (l.1, some (i : Int)) }, true)

def reset : PlaylistPolicy := { s with position := s.position.reset }.saveState

/-- The start of `SetPlaylist`. -/
def replaceGiven (spec : SetPlaylistPolicySpec) : PlaylistPolicy :=
  match spec.playlist_ with
  | none => s
  | some playlist => (s.replacePlaylist playlist).saveState

def setNext (i : Int) : PlaylistPolicy := { s with position := { s.position with next_to_play_ := i } }

/-- `SetPlaylist`, with whether it completes with success. -/
def setPlaylist (spec : SetPlaylistPolicySpec) (switched : Bool) : Option (PlaylistPolicy × Bool) :=
  let next_to_play := spec.next_to_play_.getD 0
  if spec.next_to_play_.isSome ∧ ¬ (s.replaceGiven spec).position.Valid next_to_play then
    some (s.replaceGiven spec, false)
  else if spec.switch_now_ = some true then
    (((s.replaceGiven spec).setNext next_to_play).goToNext switched).map fun r => (r.1.saveState, true)
  else some (((s.replaceGiven spec).setNext next_to_play).saveState, true)

inductive Call where
  | goToNext (switched : Bool)
  | goToPrev (switched : Bool)
  | notifyEos (switched : Bool)
  | addToPlay (name : String)
  | reset
  | setPlaylist (spec : SetPlaylistPolicySpec) (switched : Bool)
  | restart (playlist : List String) (loop_playlist switched : Bool)

/-- A call, with what it returns; `restart` is the constructor and `Initialize`. -/
def call : Call → Option (PlaylistPolicy × Bool)
  | .goToNext switched | .notifyEos switched => s.goToNext switched
  | .goToPrev switched => s.goToPrev switched
  | .addToPlay name => some (s.addToPlay name)
  | .reset => some (s.reset, true)
  | .setPlaylist spec switched => s.setPlaylist spec switched
  | .restart playlist loop_playlist switched =>
    { s with position := ⟨playlist, loop_playlist, -1, -1, -1⟩ }.loadState.saveState.goToNext switched

def step (c : Call) : Option PlaylistPolicy := (s.call c).map Prod.fst

/-- No step is made in a direction in which one was refused, or from a position behind the playlist; and a playlist is
replaced together with an index that it has. -/
def Spared : Call → Prop
  | .goToNext _ | .notifyEos _ => s.position.NextSpared
  | .goToPrev _ => s.position.PrevSpared
  | .setPlaylist spec _ => ∀ playlist ∈ spec.playlist_, ∀ i ∈ spec.next_to_play_,
      (s.replacePlaylist playlist).position.Valid i ∨ playlist = (s.position.playlist_, s.position.loop_playlist_)
  | _ => True

instance decidableSpared : ∀ c, Decidable (s.Spared c)
  | .goToNext _ | .notifyEos _ | .goToPrev _ | .setPlaylist .. => by unfold Spared; infer_instance
  | .addToPlay _ | .reset | .restart .. => .isTrue trivial

/-- What is to hold of a call: a step that is refused can be taken back, and what fails changes nothing. -/
def Sound (s' : PlaylistPolicy) (result : Bool) : Call → Prop
  | .goToNext _ | .notifyEos _ => s.position.goToNext.2 = .refused → Plays s'.position.goToPrev (s.position.size - 1)
  | .goToPrev _ => s.position.goToPrev.2 = .refused → Plays s'.position.goToNext 0
  | .setPlaylist .. => result = false → s'.position = s.position
  | _ => True

variable {s} {s' : PlaylistPolicy}

theorem move_spec {m : Position String × Outcome} (hplays : m.2 = .plays → m.1.Valid m.1.crt_)
    (hempty : m.2 = .empty → m.1 = s.position) (switched : Bool) :
    ∃ s' r, s.move m switched = some (s', r) ∧ s'.position = m.1 := by
  unfold move
  cases hm : m.2 with
  | empty => exact ⟨s, false, rfl, (hempty hm).symm⟩
  | refused => exact ⟨_, _, rfl, rfl⟩
  | plays =>
    obtain ⟨a, ha, -⟩ := Position.exists_current (hplays hm)
    exact ⟨_, _, by simp only [ha, Option.map_some]; rfl, rfl⟩

theorem goToNext_spec (h : -1 ≤ s.position.crt_) (switched : Bool) :
    ∃ s' r, s.goToNext switched = some (s', r) ∧ s'.position = s.position.goToNext.1 :=
  move_spec (Position.goToNext_valid h).2 Position.goToNext_empty switched

theorem loadState_crt : s.loadState.position.crt_ = s.position.crt_ := by
  unfold loadState
  cases s.local_state_keeper_ <;> cases hglobal : s.global_state_keeper_ <;> simp [replacePlaylist, hglobal]

theorem replaceGiven_crt (spec : SetPlaylistPolicySpec) : (s.replaceGiven spec).position.crt_ = s.position.crt_ := by
  unfold replaceGiven
  cases spec.playlist_ <;> rfl

/-- A spared `SetPlaylist` is made, and changes nothing when it fails. -/
theorem setPlaylist_spec (h : -1 ≤ s.position.crt_) {spec : SetPlaylistPolicySpec} {switched : Bool}
    (hspared : s.Spared (.setPlaylist spec switched)) : ∃ s' r, s.setPlaylist spec switched = some (s', r) ∧
      -1 ≤ s'.position.crt_ ∧ (r = false → s'.position = s.position) := by
  have hcrt : -1 ≤ (s.replaceGiven spec).position.crt_ := (replaceGiven_crt spec).symm ▸ h
  unfold setPlaylist
  dsimp only
  split_ifs with hinvalid
  · refine ⟨_, _, rfl, hcrt, fun _ => ?_⟩
    unfold replaceGiven at hinvalid ⊢
    cases hp : spec.playlist_ with
    | none => rfl
    | some playlist =>
      obtain ⟨i, hi⟩ := Option.isSome_iff_exists.1 hinvalid.1
      rcases hspared playlist hp i hi with hvalid | rfl
      · rw [hp, hi] at hinvalid
        exact absurd hvalid hinvalid.2
      · rfl
  · obtain ⟨s', r, hnext, hposition⟩ := goToNext_spec
      (s := (s.replaceGiven spec).setNext (spec.next_to_play_.getD 0)) hcrt switched
    refine ⟨s'.saveState, true, by rw [hnext]; rfl, ?_, nofun⟩
    change -1 ≤ s'.position.crt_
    rw [hposition]
    exact (Position.goToNext_valid (by exact hcrt)).1
  · exact ⟨_, _, rfl, hcrt, nofun⟩

/-- From a position at -1 or behind it, a spared call is sound. -/
theorem call_spec (h : -1 ≤ s.position.crt_) {c : Call} (hspared : s.Spared c) :
    ∃ s' r, s.call c = some (s', r) ∧ -1 ≤ s'.position.crt_ ∧ s.Sound s' r c := by
  cases c with
  | goToNext switched | notifyEos switched =>
    obtain ⟨s', r, hcall, hposition⟩ := goToNext_spec h switched
    refine ⟨s', r, hcall, hposition ▸ (Position.goToNext_valid h).1, fun hrefused => ?_⟩
    rw [hposition]
    exact Position.goToNext_refused hspared hrefused
  | goToPrev switched =>
    obtain ⟨s', r, hcall, hposition⟩ := move_spec (Position.goToPrev_valid h hspared).2 Position.goToPrev_empty switched
    refine ⟨s', r, hcall, hposition ▸ (Position.goToPrev_valid h hspared).1, fun hrefused => ?_⟩
    rw [hposition]
    exact Position.goToPrev_refused h hspared hrefused
  | addToPlay name =>
    refine ⟨(s.addToPlay name).1, (s.addToPlay name).2, rfl, ?_, trivial⟩
    unfold addToPlay
    split <;> exact h
  | reset => exact ⟨_, _, rfl, Int.le_refl _, trivial⟩
  | setPlaylist spec switched => exact setPlaylist_spec h hspared
  | restart playlist loop_playlist switched =>
    have hcrt : -1 ≤ { s with position := ⟨playlist, loop_playlist, -1, -1, -1⟩ }.loadState.saveState.position.crt_ :=
      Int.le_of_eq (loadState_crt (s := { s with position := ⟨playlist, loop_playlist, -1, -1, -1⟩ })).symm
    obtain ⟨s', r, hcall, hposition⟩ := goToNext_spec hcrt switched
    exact ⟨s', r, hcall, hposition ▸ (Position.goToNext_valid hcrt).1, trivial⟩

end PlaylistPolicy

/-! ## The timed playlist policy -/

inductive EmptyPolicy where
  | replay | next | wait
  deriving DecidableEq

/-- What the state keeper of a timed policy holds. -/
structure SavedState where
  next_to_play : Option Int := none
  next_next_to_play : Option Int := none
  last_switch_time : Option Int := none

/-- `TimedPlaylistPolicy`, with its state keeper, the clock, when the alarm is due, and whether there is a policy.
Remembered are the item that `GoToNext` or `GoToPrev` started, when, and when it was last started or resumed. -/
structure TimedPlaylistPolicy where
  position : Position (Int × String)
  policy_ : EmptyPolicy
  last_switch_time_ : Int := -1
  local_state_keeper_ : Option SavedState
  now : Int
  alarm : Option Int := none
  running : Bool := false
  slot : Option (Int × Int) := none
  resumed : Int := 0

namespace TimedPlaylistPolicy

open Position (Plays)

variable (s : TimedPlaylistPolicy)

def saveState : TimedPlaylistPolicy :=
  { s with local_state_keeper_ := s.local_state_keeper_.map fun _ =>
      ⟨some s.position.crt_, some s.position.next_to_play_, some s.last_switch_time_⟩ }

def loadState : TimedPlaylistPolicy :=
  match s.local_state_keeper_ with
  | none => s
  | some saved =>
    { s with
      position := { s.position with
        next_to_play_ := saved.next_to_play.getD s.position.next_to_play_
        next_next_to_play_ := saved.next_next_to_play.getD s.position.next_next_to_play_ }
      last_switch_time_ := saved.last_switch_time.getD s.last_switch_time_ }

/-- The delay that `PlayCurrent` registers the alarm with. -/
def delay (duration : Int) : Int :=
  if 0 < s.last_switch_time_ ∧ s.last_switch_time_ < s.now then max 0 (duration - (s.now - s.last_switch_time_))
  else duration

def playCurrent (switched : Bool) : Option (TimedPlaylistPolicy × Bool) :=
  s.position.current.map fun item =>
    ({ { s with alarm := some (s.now + s.delay item.1), last_switch_time_ := s.now }.saveState with
        last_switch_time_ := 0 }, switched)

/-- What follows a step along the playlist. -/
def move (m : Position (Int × String) × Outcome) (switched : Bool) : Option (TimedPlaylistPolicy × Bool) :=
  match m.2 with
  | .empty => some (s, false)
  | .refused => some ({ s with position := m.1, slot := none }.saveState, false)
  | .plays => { s with position := m.1, slot := some (m.1.crt_, s.now), resumed := s.now }.playCurrent switched

def goToNext (switched : Bool) : Option (TimedPlaylistPolicy × Bool) := s.move s.position.goToNext switched

def goToPrev (switched : Bool) : Option (TimedPlaylistPolicy × Bool) := s.move s.position.goToPrev switched

def notifyEos (switched : Bool) : Option (TimedPlaylistPolicy × Bool) :=
  match s.policy_ with
  | .replay => s.playCurrent switched
  | .next => s.goToNext switched
  | .wait => some (s, true)

def addToPlay (name : String) : TimedPlaylistPolicy × Bool :=
  match s.position.playlist_.findIdx? (·.2 = name) with
  | none => (s, false)
  | some i =>
    ({ s with
        position := { s.position with next_to_play_ := i }
        local_state_keeper_ := s.local_state_keeper_.map fun l => { l with next_next_to_play := some i } }, true)

def reset : TimedPlaylistPolicy := { s with position := s.position.reset, last_switch_time_ := -1 }.saveState

/-- The constructor, and `Initialize` in front of `GoToNext`. -/
def load : TimedPlaylistPolicy :=
  { s with
    position := s.position.reset, last_switch_time_ := -1, alarm := none, running := true }.loadState.saveState

/-- The constructor and `Initialize`; an item that was playing goes on. -/
def restart (switched : Bool) : Option (TimedPlaylistPolicy × Bool) :=
  (s.load.goToNext switched).map fun r => ({ r.1 with slot := s.slot.or r.1.slot }, r.2)

inductive Call where
  | goToNext (switched : Bool)
  | goToPrev (switched : Bool)
  | notifyEos (switched : Bool)
  | addToPlay (name : String)
  | reset
  | fire (switched : Bool)
  | time (now : Int)
  | stop
  | restart (switched : Bool)

/-- A call, with what it returns, or what else happens: the alarm, the clock, and the end of the policy. -/
def call : Call → Option (TimedPlaylistPolicy × Bool)
  | .goToNext switched => s.goToNext switched
  | .goToPrev switched => s.goToPrev switched
  | .notifyEos switched => s.notifyEos switched
  | .addToPlay name => some (s.addToPlay name)
  | .reset => some (s.reset, true)
  | .fire switched => { s with alarm := none }.goToNext switched
  | .time now => some ({ s with now := now }, true)
  | .stop => some ({ s with running := false, alarm := none }, true)
  | .restart switched => s.restart switched

def step (c : Call) : Option TimedPlaylistPolicy := (s.call c).map Prod.fst

/-- No step is made in a direction in which one was refused, or from a position behind the playlist; and an item is
replayed only where there is one. -/
def Spared : Call → Prop
  | .goToNext _ | .fire _ => s.position.NextSpared
  | .goToPrev _ => s.position.PrevSpared
  | .notifyEos _ =>
    (s.policy_ = .replay → s.position.Valid s.position.crt_) ∧ (s.policy_ = .next → s.position.NextSpared)
  | _ => True

instance decidableSpared : ∀ c, Decidable (s.Spared c)
  | .goToNext _ | .fire _ | .goToPrev _ | .notifyEos _ => by unfold Spared; infer_instance
  | .addToPlay _ | .reset | .time _ | .stop | .restart _ => .isTrue trivial

/-- A step that is refused can be taken back. -/
def Sound (s' : TimedPlaylistPolicy) : Call → Prop
  | .goToNext _ | .fire _ => s.position.goToNext.2 = .refused → Plays s'.position.goToPrev (s.position.size - 1)
  | .goToPrev _ => s.position.goToPrev.2 = .refused → Plays s'.position.goToNext 0
  | .notifyEos _ =>
    s.policy_ = .next → s.position.goToNext.2 = .refused → Plays s'.position.goToPrev (s.position.size - 1)
  | _ => True

variable {s} {s' : TimedPlaylistPolicy}

theorem playCurrent_eq {item : Int × String} {switched : Bool} (h : s.position.current = some item) :
    s.playCurrent switched = some ({ s with
      alarm := some (s.now + s.delay item.1), last_switch_time_ := 0
      local_state_keeper_ := s.local_state_keeper_.map fun _ =>
        ⟨some s.position.crt_, some s.position.next_to_play_, some s.now⟩ }, switched) := by
  rw [playCurrent, h]
  rfl

theorem playCurrent_spec (h : s.position.Valid s.position.crt_) (switched : Bool) :
    ∃ s' r, s.playCurrent switched = some (s', r) ∧ s'.position = s.position := by
  obtain ⟨_, hitem, -⟩ := Position.exists_current h
  exact ⟨_, _, playCurrent_eq hitem, rfl⟩

theorem move_spec {m : Position (Int × String) × Outcome} (hplays : m.2 = .plays → m.1.Valid m.1.crt_)
    (hempty : m.2 = .empty → m.1 = s.position) (switched : Bool) :
    ∃ s' r, s.move m switched = some (s', r) ∧ s'.position = m.1 := by
  unfold move
  cases hm : m.2 with
  | empty => exact ⟨s, false, rfl, (hempty hm).symm⟩
  | refused => exact ⟨_, _, rfl, rfl⟩
  | plays =>
    exact playCurrent_spec (s := { s with position := m.1, slot := some (m.1.crt_, s.now), resumed := s.now })
      (hplays hm) switched

theorem goToNext_spec (h : -1 ≤ s.position.crt_) (switched : Bool) :
    ∃ s' r, s.goToNext switched = some (s', r) ∧ s'.position = s.position.goToNext.1 :=
  move_spec (Position.goToNext_valid h).2 Position.goToNext_empty switched

theorem load_crt (s : TimedPlaylistPolicy) : s.load.position.crt_ = -1 := by
  simp only [load, saveState, loadState]
  cases s.local_state_keeper_ <;> rfl

/-- From a position at -1 or behind it, a spared call is sound. -/
theorem call_spec (h : -1 ≤ s.position.crt_) {c : Call} (hspared : s.Spared c) :
    ∃ s' r, s.call c = some (s', r) ∧ -1 ≤ s'.position.crt_ ∧ s.Sound s' c := by
  have hnext : ∀ {t : TimedPlaylistPolicy} (switched : Bool), t.position = s.position → ∃ s' r,
      t.goToNext switched = some (s', r) ∧ -1 ≤ s'.position.crt_ ∧ (s.position.NextSpared →
        s.position.goToNext.2 = .refused → Plays s'.position.goToPrev (s.position.size - 1)) := by
    intro t switched ht
    obtain ⟨s', r, hcall, hposition⟩ := goToNext_spec (ht ▸ h) switched
    rw [ht] at hposition
    refine ⟨s', r, hcall, hposition ▸ (Position.goToNext_valid h).1, fun hspared hrefused => ?_⟩
    rw [hposition]
    exact Position.goToNext_refused hspared hrefused
  cases c with
  | goToNext switched =>
    obtain ⟨s', r, hcall, hcrt, hsound⟩ := hnext switched rfl
    exact ⟨s', r, hcall, hcrt, hsound hspared⟩
  | fire switched =>
    obtain ⟨s', r, hcall, hcrt, hsound⟩ := hnext (t := { s with alarm := none }) switched rfl
    exact ⟨s', r, hcall, hcrt, hsound hspared⟩
  | goToPrev switched =>
    obtain ⟨s', r, hcall, hposition⟩ := move_spec (Position.goToPrev_valid h hspared).2 Position.goToPrev_empty switched
    refine ⟨s', r, hcall, hposition ▸ (Position.goToPrev_valid h hspared).1, fun hrefused => ?_⟩
    rw [hposition]
    exact Position.goToPrev_refused h hspared hrefused
  | notifyEos switched =>
    obtain ⟨hreplay, hspared⟩ := hspared
    simp only [call, notifyEos, Sound]
    cases hpolicy : s.policy_ with
    | replay =>
      obtain ⟨s', r, hcall, hposition⟩ := playCurrent_spec (hreplay hpolicy) switched
      exact ⟨s', r, hcall, hposition ▸ h, nofun⟩
    | next =>
      obtain ⟨s', r, hcall, hcrt, hsound⟩ := hnext switched rfl
      exact ⟨s', r, hcall, hcrt, fun _ => hsound (hspared hpolicy)⟩
    | wait => exact ⟨s, true, rfl, h, nofun⟩
  | addToPlay name =>
    refine ⟨(s.addToPlay name).1, (s.addToPlay name).2, rfl, ?_, trivial⟩
    unfold addToPlay
    split <;> exact h
  | reset => exact ⟨_, _, rfl, Int.le_refl _, trivial⟩
  | time now | stop => exact ⟨_, _, rfl, h, trivial⟩
  | restart switched =>
    have hcrt : -1 ≤ s.load.position.crt_ := Int.le_of_eq (load_crt s).symm
    obtain ⟨s', r, hcall, hposition⟩ := goToNext_spec hcrt switched
    refine ⟨_, _, by rw [call, restart, hcall]; rfl, ?_, trivial⟩
    exact hposition ▸ (Position.goToNext_valid hcrt).1

end TimedPlaylistPolicy

/-- In every run of either policy whose calls are spared, each index is one of the playlist, and a call behind it that is
spared is sound. -/
theorem run_indexes (s : PlaylistPolicy) (calls : List PlaylistPolicy.Call) (timed : TimedPlaylistPolicy)
    (timedCalls : List TimedPlaylistPolicy.Call) :
    (s.position.crt_ = -1 → Along PlaylistPolicy.step PlaylistPolicy.Spared s calls →
      ∃ t, run PlaylistPolicy.step s calls = some t ∧
        ∀ c, t.Spared c → ∃ t' r, t.call c = some (t', r) ∧ t.Sound t' r c) ∧
    (timed.position.crt_ = -1 → Along TimedPlaylistPolicy.step TimedPlaylistPolicy.Spared timed timedCalls →
      ∃ t, run TimedPlaylistPolicy.step timed timedCalls = some t ∧
        ∀ c, t.Spared c → ∃ t' r, t.call c = some (t', r) ∧ t.Sound t' c) := by
  refine ⟨fun hs hspared => ?_, fun hs hspared => ?_⟩
  · obtain ⟨t, hrun, ht⟩ := run_along (I := fun s => -1 ≤ s.position.crt_) (fun t c ht hc => by
      obtain ⟨t', r, hcall, hcrt, -⟩ := PlaylistPolicy.call_spec ht hc
      exact ⟨t', by rw [PlaylistPolicy.step, hcall]; rfl, hcrt⟩) (Int.le_of_eq hs.symm) hspared
    refine ⟨t, hrun, fun c hc => ?_⟩
    obtain ⟨t', r, hcall, -, hsound⟩ := PlaylistPolicy.call_spec ht hc
    exact ⟨t', r, hcall, hsound⟩
  · obtain ⟨t, hrun, ht⟩ := run_along (I := fun s => -1 ≤ s.position.crt_) (fun t c ht hc => by
      obtain ⟨t', r, hcall, hcrt, -⟩ := TimedPlaylistPolicy.call_spec ht hc
      exact ⟨t', by rw [TimedPlaylistPolicy.step, hcall]; rfl, hcrt⟩) (Int.le_of_eq hs.symm) hspared
    refine ⟨t, hrun, fun c hc => ?_⟩
    obtain ⟨t', r, hcall, -, hsound⟩ := TimedPlaylistPolicy.call_spec ht hc
    exact ⟨t', r, hcall, hsound⟩

/-- A playlist of two items is played to its end, and back. -/
theorem run_indexes_back :
    (∃ t, run PlaylistPolicy.step ⟨⟨[], false, -1, -1, -1⟩, false, some (none, none), none⟩
        [.restart ["a", "b"] false true, .goToNext true, .goToNext true, .goToPrev true] = some t ∧
      ∀ c, t.Spared c → ∃ t' r, t.call c = some (t', r) ∧ t.Sound t' r c) ∧
    ∃ t, run TimedPlaylistPolicy.step ⟨⟨[(10, "a"), (20, "b")], false, -1, -1, -1⟩, .replay, -1, some {}, 100, none, false,
          none, 0⟩
        [.restart true, .notifyEos true, .goToNext true, .goToNext true, .goToPrev true] = some t ∧
      ∀ c, t.Spared c → ∃ t' r, t.call c = some (t', r) ∧ t.Sound t' c :=
  (run_indexes _ _ _ _).imp (fun h => h rfl (by decide)) fun h => h rfl (by decide)

/-- A step is refused twice at the end of a playlist, and the step back is outside; and a playlist is replaced by one that
does not have the index that comes with it. -/
theorem refused_twice_fails : run PlaylistPolicy.step ⟨⟨[], false, -1, -1, -1⟩, false, some (none, none), none⟩
      [.restart ["a"] false true, .goToNext true, .goToNext true, .goToPrev true] = none ∧
    ((PlaylistPolicy.setPlaylist ⟨⟨["a"], false, 0, -1, -1⟩, false, none, none⟩ ⟨some ([], false), some 0, none⟩ true).map
      fun r => (r.1.position.playlist_, r.2)) = some ([], false) :=
  ⟨rfl, rfl⟩

end Whispercast.Stream
