import Whispercast.Io.BufferManager

/-!
# Users of a shared buffer

`BufferOk` is about one buffer and its users: while data are looked up its callbacks are those of the users that wait, and
behind `MarkValidData` the users that wait are those that are still to be called. Callbacks that are left over from an
earlier use, and users that leave while callbacks are called, break it; every other step keeps it. `Served` says it of all
buffers, and a step changes one buffer and its users.
-/

namespace Whispercast.Io

open Library List UsagePhase

variable {K : Type}

/-! ## A buffer and its users -/

/-- The callbacks that a user has still to call. -/
def UsagePhase.toCall : UsagePhase → List Nat
  | useData to_call => to_call
  | _ => []

/-- The users that wait. -/
def waitingUsers (users : List (Nat × Usage K)) : List Nat :=
  users.filterMap fun e => if e.2.phase = .waiting then some e.1 else none

/-- The callbacks that are still to be called. -/
def dueCallbacks (users : List (Nat × Usage K)) : List Nat := users.flatMap fun e => e.2.phase.toCall

/-- How many users produce data. -/
def producers (users : List (Nat × Usage K)) : Nat := users.countP fun e => e.2.phase = .producing

/-- How many users have called `BeginUsage`. -/
def started (users : List (Nat × Usage K)) : Nat := users.countP fun e => e.2.phase ≠ .got

/-- The users of a buffer. -/
def usersOn (buffer : Nat) (users : List (Nat × Usage K)) : List (Nat × Usage K) :=
  users.filter fun e => e.2.buffer = buffer

/-- What holds of a buffer and its users. -/
structure BufferOk (buf : SharedBuffer K) (users : List (Nat × Usage K)) : Prop where
  count : buf.use_count_ = users.length
  key : ∀ e ∈ users, e.2.key = buf.data_key_
  new : buf.state_ = .new → started users = 0 ∧ buf.done_callbacks_ = []
  lookup : buf.state_ = .inLookup → producers users = 1 ∧ dueCallbacks users = [] ∧
    buf.done_callbacks_.Perm (waitingUsers users)
  valid : buf.state_ = .validData → producers users = 0 ∧ (dueCallbacks users).Perm (waitingUsers users) ∧
    buf.producedFor = some buf.data_key_
  free : users = [] → buf.state_ = .validData ∧ buf.data_size_ ≠ 0

namespace BufferOk

variable {buf : SharedBuffer K} {users users' : List (Nat × Usage K)} {user : Nat} {usage : Usage K} {buffer : Nat}
  {key : K}

theorem perm (h : BufferOk buf users) (hperm : users.Perm users') : BufferOk buf users' := by
  have hwaiting : (waitingUsers users).Perm (waitingUsers users') := hperm.filterMap _
  have hdue : (dueCallbacks users).Perm (dueCallbacks users') := hperm.flatMap_right _
  have hproducers : producers users = producers users' := hperm.countP_eq _
  have hstarted : started users = started users' := hperm.countP_eq _
  refine ⟨by rw [h.count, hperm.length_eq], fun e he => h.key e (hperm.symm.subset he), ?_, ?_, ?_, ?_⟩
  · intro hstate
    rw [← hstarted]
    exact h.new hstate
  · intro hstate
    obtain ⟨hone, hnone, hdone⟩ := h.lookup hstate
    rw [hnone] at hdue
    exact ⟨hproducers ▸ hone, hdue.symm.eq_nil, hdone.trans hwaiting⟩
  · intro hstate
    obtain ⟨hzero, hcalls, hproduced⟩ := h.valid hstate
    exact ⟨hproducers ▸ hzero, hdue.symm.trans (hcalls.trans hwaiting), hproduced⟩
  · rintro rfl
    exact h.free hperm.eq_nil

section Cons

variable (users)

@[simp] theorem waitingUsers_cons (user : Nat) (buffer : Nat) (key : K) (phase : UsagePhase) :
    waitingUsers ((user, ⟨buffer, key, phase⟩) :: users) =
      if phase = .waiting then user :: waitingUsers users else waitingUsers users := by
  rw [waitingUsers, filterMap_cons]
  split_ifs <;> rfl

@[simp] theorem dueCallbacks_cons (e : Nat × Usage K) :
    dueCallbacks (e :: users) = e.2.phase.toCall ++ dueCallbacks users := rfl

@[simp] theorem producers_cons (user : Nat) (buffer : Nat) (key : K) (phase : UsagePhase) :
    producers ((user, ⟨buffer, key, phase⟩) :: users) = producers users + if phase = .producing then 1 else 0 := by
  simp [producers, countP_cons]

@[simp] theorem started_cons (user : Nat) (buffer : Nat) (key : K) (phase : UsagePhase) :
    started ((user, ⟨buffer, key, phase⟩) :: users) = started users + if phase = .got then 0 else 1 := by
  rw [started, started, countP_cons]
  by_cases h : phase = .got
  · simp [h]
  · simp [h]

end Cons

/-- Users that have not called `BeginUsage` do nothing yet. -/
theorem of_not_started (h : started users = 0) : producers users = 0 ∧ dueCallbacks users = [] ∧ waitingUsers users = [] := by
  have hgot : ∀ e ∈ users, e.2.phase = .got := by
    intro e he
    have hno := countP_eq_zero.1 h e he
    simpa using hno
  refine ⟨countP_eq_zero.2 ?_, flatMap_eq_nil_iff.2 ?_, filterMap_eq_nil_iff.2 ?_⟩
  · intro e he
    rw [hgot e he]
    decide
  · intro e he
    rw [hgot e he]
    rfl
  · intro e he
    rw [hgot e he]
    rfl

/-- A user gets the buffer. -/
theorem give (h : BufferOk buf users) (user buffer : Nat) :
    BufferOk { buf with use_count_ := buf.use_count_ + 1 } ((user, ⟨buffer, buf.data_key_, .got⟩) :: users) := by
  refine ⟨by rw [h.count]; rfl, ?_, ?_, ?_, ?_, nofun⟩
  · intro e he
    rcases mem_cons.1 he with rfl | hmem
    · rfl
    · exact h.key e hmem
  · intro hstate
    simpa using h.new hstate
  · intro hstate
    simpa [toCall] using h.lookup hstate
  · intro hstate
    simpa [toCall] using h.valid hstate

section

variable (h : BufferOk buf ((user, ⟨buffer, key, .got⟩) :: users))

include h

/-- The first user that calls `BeginUsage` produces the data. -/
theorem begin_new (hstate : buf.state_ = .new) :
    BufferOk { buf with state_ := .inLookup } ((user, ⟨buffer, key, .producing⟩) :: users) := by
  obtain ⟨hstarted, hdone⟩ := h.new hstate
  obtain ⟨hproducers, hdue, hwaiting⟩ := of_not_started (by simpa using hstarted : started users = 0)
  have hkey : key = buf.data_key_ := h.key _ mem_cons_self
  refine ⟨h.count, ?_, nofun, ?_, nofun, nofun⟩
  · intro e he
    rcases mem_cons.1 he with rfl | hmem
    · exact hkey
    · exact h.key e (mem_cons_of_mem _ hmem)
  · intro _
    simp [hproducers, hdue, hwaiting, hdone, toCall]

/-- The next users wait for the data. -/
theorem begin_lookup (hstate : buf.state_ = .inLookup) (hnew : user ∉ AssocList.keys users) :
    BufferOk { buf with done_callbacks_ :=
        if user ∈ buf.done_callbacks_ then buf.done_callbacks_ else user :: buf.done_callbacks_ }
      ((user, ⟨buffer, key, .waiting⟩) :: users) := by
  obtain ⟨hone, hdue, hdone⟩ := h.lookup hstate
  have hnotin : user ∉ buf.done_callbacks_ := by
    intro hmem
    have hwaits := hdone.subset hmem
    rw [waitingUsers_cons, if_neg (by decide)] at hwaits
    obtain ⟨e, he, heq⟩ := mem_filterMap.1 hwaits
    split_ifs at heq
    cases heq
    exact hnew (mem_map_of_mem he)
  have hkey : key = buf.data_key_ := h.key _ mem_cons_self
  refine ⟨h.count, ?_, fun hnew' => absurd (hstate.symm.trans hnew') (by decide), ?_,
    fun hvalid => absurd (hstate.symm.trans hvalid) (by decide), nofun⟩
  · intro e he
    rcases mem_cons.1 he with rfl | hmem
    · exact hkey
    · exact h.key e (mem_cons_of_mem _ hmem)
  · intro _
    rw [if_neg hnotin]
    exact ⟨hone, hdue, hdone.cons user⟩

/-- Where there are data, a user uses them. -/
theorem begin_valid (hstate : buf.state_ = .validData) :
    BufferOk buf ((user, ⟨buffer, key, .useData []⟩) :: users) := by
  have hkey : key = buf.data_key_ := h.key _ mem_cons_self
  refine ⟨h.count, ?_, fun hnew => absurd (hstate.symm.trans hnew) (by decide),
    fun hlookup => absurd (hstate.symm.trans hlookup) (by decide), ?_, nofun⟩
  · intro e he
    rcases mem_cons.1 he with rfl | hmem
    · exact hkey
    · exact h.key e (mem_cons_of_mem _ hmem)
  · intro _
    have hvalid := h.valid hstate
    simpa [toCall] using hvalid

end

variable {to_call : List Nat}

/-- `MarkValidData`: those that wait are to be called. -/
theorem mark (h : BufferOk buf ((user, ⟨buffer, key, .producing⟩) :: users)) (hstate : buf.state_ = .inLookup)
    (size : Nat) (hcall : to_call.Perm buf.done_callbacks_) :
    BufferOk { buf with
        data_size_ := size
        state_ := .validData
        producedFor := some key } ((user, ⟨buffer, key, .useData to_call⟩) :: users) := by
  obtain ⟨hone, hdue, hdone⟩ := h.lookup hstate
  have hkey : key = buf.data_key_ := h.key _ mem_cons_self
  refine ⟨h.count, ?_, nofun, nofun, ?_, nofun⟩
  · intro e he
    rcases mem_cons.1 he with rfl | hmem
    · exact hkey
    · exact h.key e (mem_cons_of_mem _ hmem)
  · intro _
    simp only [producers_cons, dueCallbacks_cons, waitingUsers_cons, toCall] at hone hdue hdone ⊢
    simp only [if_pos, nil_append, reduceCtorEq, if_false, Nat.add_zero] at hone hdue hdone ⊢
    rw [hdue, append_nil]
    exact ⟨by omega, hcall.trans hdone, by rw [hkey]⟩

/-- A callback that is due is called: its user has the data. -/
theorem run {callback buffer' : Nat} {key' : K}
    (h : BufferOk buf
      ((user, ⟨buffer, key, .useData (callback :: to_call)⟩) :: (callback, ⟨buffer', key', .waiting⟩) :: users)) :
    BufferOk buf ((callback, ⟨buffer', key', .useData []⟩) :: (user, ⟨buffer, key, .useData to_call⟩) :: users) := by
  refine ⟨by rw [h.count]; rfl, ?_, ?_, ?_, ?_, nofun⟩
  · intro e he
    rcases mem_cons.1 he with rfl | hmem
    · exact h.key (callback, ⟨buffer', key', .waiting⟩) (by simp)
    · rcases mem_cons.1 hmem with rfl | hmem
      · exact h.key (user, ⟨buffer, key, .useData (callback :: to_call)⟩) (by simp)
      · exact h.key e (by simp [hmem])
  · intro hstate
    have hzero := (h.new hstate).1
    simp at hzero
  · intro hstate
    have hnone := (h.lookup hstate).2.1
    simp [toCall] at hnone
  · intro hstate
    obtain ⟨hzero, hdue, hproduced⟩ := h.valid hstate
    simp [toCall] at hzero hdue ⊢
    exact ⟨hzero, hdue, hproduced⟩

/-- The user of a callback that is due waits. -/
theorem waits {callback : Nat} (h : BufferOk buf ((user, ⟨buffer, key, .useData (callback :: to_call)⟩) :: users)) :
    ∃ usage, (callback, usage) ∈ users ∧ usage.phase = .waiting := by
  have hstate : buf.state_ = .validData := by
    cases hs : buf.state_ with
    | validData => rfl
    | new =>
      have hzero := (h.new hs).1
      simp at hzero
    | inLookup =>
      have hnone := (h.lookup hs).2.1
      simp [toCall] at hnone
  have hdue := (h.valid hstate).2.1
  have hmem : callback ∈ waitingUsers ((user, ⟨buffer, key, .useData (callback :: to_call)⟩) :: users) :=
    hdue.subset (by simp [toCall])
  rw [waitingUsers_cons, if_neg (by simp)] at hmem
  obtain ⟨e, he, heq⟩ := mem_filterMap.1 hmem
  split_ifs at heq with hphase
  cases heq
  exact ⟨e.2, he, hphase⟩

/-- `EndUsage(NULL)`. -/
theorem endUsage (h : BufferOk buf ((user, ⟨buffer, key, .useData []⟩) :: users)) :
    BufferOk buf ((user, ⟨buffer, key, .ending⟩) :: users) := by
  have hkey : key = buf.data_key_ := h.key _ mem_cons_self
  refine ⟨h.count, ?_, ?_, ?_, ?_, nofun⟩
  · intro e he
    rcases mem_cons.1 he with rfl | hmem
    · exact hkey
    · exact h.key e (mem_cons_of_mem _ hmem)
  · intro hstate
    simpa using h.new hstate
  · intro hstate
    simpa [toCall] using h.lookup hstate
  · intro hstate
    simpa [toCall] using h.valid hstate

/-- A user that waits leaves while the data are looked up. -/
theorem leave (h : BufferOk buf ((user, ⟨buffer, key, .waiting⟩) :: users)) (hstate : buf.state_ = .inLookup) :
    BufferOk { buf with done_callbacks_ := buf.done_callbacks_.erase user }
      ((user, ⟨buffer, key, .ending⟩) :: users) := by
  obtain ⟨hone, hdue, hdone⟩ := h.lookup hstate
  have hkey : key = buf.data_key_ := h.key _ mem_cons_self
  refine ⟨h.count, ?_, fun hnew' => absurd (hstate.symm.trans hnew') (by decide), ?_,
    fun hvalid => absurd (hstate.symm.trans hvalid) (by decide), nofun⟩
  · intro e he
    rcases mem_cons.1 he with rfl | hmem
    · exact hkey
    · exact h.key e (mem_cons_of_mem _ hmem)
  · intro _
    have herase := hdone.erase user
    simp [toCall] at hone hdue herase ⊢
    exact ⟨hone, hdue, herase⟩

/-- `DoneBuffer`, when there are other users. -/
theorem done (h : BufferOk buf ((user, ⟨buffer, key, .ending⟩) :: users)) (hne : users ≠ []) :
    BufferOk { buf with use_count_ := buf.use_count_ - 1 } users := by
  refine ⟨?_, fun e he => h.key e (mem_cons_of_mem _ he), ?_, ?_, ?_, fun hnil => absurd hnil hne⟩
  · rw [h.count, length_cons]
    push_cast
    omega
  · intro hstate
    have hzero := (h.new hstate).1
    simp at hzero
  · intro hstate
    simpa [toCall] using h.lookup hstate
  · intro hstate
    simpa [toCall] using h.valid hstate

/-- The last user of a buffer ends when there are data. -/
theorem last (h : BufferOk buf [(user, ⟨buffer, key, .ending⟩)]) :
    buf.state_ = .validData ∧ buf.producedFor = some buf.data_key_ := by
  cases hs : buf.state_ with
  | validData => exact ⟨rfl, (h.valid hs).2.2⟩
  | new =>
    have hzero := (h.new hs).1
    simp [started] at hzero
  | inLookup =>
    have hone := (h.lookup hs).1
    simp [producers] at hone

/-- A buffer with data is freed. -/
theorem freed (h : BufferOk buf [(user, ⟨buffer, key, .ending⟩)]) (hsize : buf.data_size_ ≠ 0) (now : Int) :
    BufferOk { buf with
        use_count_ := buf.use_count_ - 1
        last_release_time_ := now } [] := by
  obtain ⟨hstate, hproduced⟩ := h.last
  refine ⟨?_, fun e he => absurd he not_mem_nil, fun hnew => absurd (hstate.symm.trans hnew) (by decide),
    fun hlookup => absurd (hstate.symm.trans hlookup) (by decide), fun _ => ⟨rfl, Perm.refl _, hproduced⟩,
    fun _ => ⟨hstate, hsize⟩⟩
  rw [h.count]
  rfl

/-- A new buffer and its first user. -/
theorem fresh (hstate : buf.state_ = .new) (hdone : buf.done_callbacks_ = []) (hcount : buf.use_count_ = 1)
    (user buffer : Nat) : BufferOk buf [(user, ⟨buffer, buf.data_key_, .got⟩)] := by
  refine ⟨hcount, ?_, fun _ => ⟨rfl, hdone⟩, fun hlookup => absurd (hstate.symm.trans hlookup) (by decide),
    fun hvalid => absurd (hstate.symm.trans hvalid) (by decide), nofun⟩
  intro e he
  rw [mem_singleton.1 he]

end BufferOk

/-! ## All buffers and their users -/

/-- What holds of the buffers and their users. -/
structure Served (buffers : List (Nat × SharedBuffer K)) (users : List (Nat × Usage K)) : Prop where
  ok : ∀ e ∈ buffers, BufferOk e.2 (usersOn e.1 users)
  live : ∀ e ∈ users, e.2.buffer ∈ AssocList.keys buffers
  nodup : (AssocList.keys users).Nodup

@[simp] theorem usersOn_cons_self (user buffer : Nat) (key : K) (phase : UsagePhase) (users : List (Nat × Usage K)) :
    usersOn buffer ((user, ⟨buffer, key, phase⟩) :: users) = (user, ⟨buffer, key, phase⟩) :: usersOn buffer users := by
  rw [usersOn, filter_cons_of_pos (by simp)]
  rfl

theorem usersOn_cons_ne {user buffer buffer' : Nat} (hne : buffer' ≠ buffer) (key : K) (phase : UsagePhase)
    (users : List (Nat × Usage K)) :
    usersOn buffer' ((user, ⟨buffer, key, phase⟩) :: users) = usersOn buffer' users := by
  rw [usersOn, filter_cons_of_neg (by simpa using Ne.symm hne)]
  rfl

theorem usersOn_perm {users users' : List (Nat × Usage K)} (h : users.Perm users') (buffer : Nat) :
    (usersOn buffer users).Perm (usersOn buffer users') := h.filter _

namespace Served

variable {buffers rest : List (Nat × SharedBuffer K)} {users users' : List (Nat × Usage K)} {buf : SharedBuffer K}
  {buffer user : Nat} {key : K} {phase phase' : UsagePhase}

theorem perm (h : Served buffers users) (hbuffers : buffers.Perm rest) (husers : users.Perm users') :
    Served rest users' := by
  refine ⟨?_, ?_, (husers.map Prod.fst).nodup_iff.1 h.nodup⟩
  · intro e he
    exact (h.ok e (hbuffers.symm.subset he)).perm (usersOn_perm husers e.1)
  · intro e he
    exact (hbuffers.map Prod.fst).subset (h.live e (husers.symm.subset he))

/-- A buffer that is not there has no users. -/
theorem usersOn_eq_nil (h : Served buffers users) (hnew : buffer ∉ AssocList.keys buffers) : usersOn buffer users = [] := by
  refine filter_eq_nil_iff.2 ?_
  intro e he hon
  have heq : e.2.buffer = buffer := by simpa using hon
  exact hnew (heq ▸ h.live e he)

/-- A step that changes one buffer and its users. -/
theorem set (h : Served buffers users) (hrest : ∀ e ∈ rest, e ∈ buffers)
    (hkeys : ∀ a ∈ AssocList.keys buffers, a = buffer ∨ a ∈ AssocList.keys rest) (hnot : buffer ∉ AssocList.keys rest)
    (hother : ∀ b, b ≠ buffer → (usersOn b users).Perm (usersOn b users')) (hok : BufferOk buf (usersOn buffer users'))
    (hnodup : (AssocList.keys users').Nodup) : Served ((buffer, buf) :: rest) users' := by
  refine ⟨?_, ?_, hnodup⟩
  · intro e he
    rcases mem_cons.1 he with rfl | hmem
    · exact hok
    · have hne : e.1 ≠ buffer := by
        intro heq
        exact hnot (heq ▸ mem_map_of_mem hmem)
      exact (h.ok e (hrest e hmem)).perm (hother e.1 hne)
  · intro e he
    by_cases heq : e.2.buffer = buffer
    · rw [heq]
      exact mem_cons_self
    · have hon : e ∈ usersOn e.2.buffer users' := mem_filter.2 ⟨he, by simp⟩
      have hin := (mem_filter.1 ((hother _ heq).symm.subset hon)).1
      rcases hkeys _ (h.live e hin) with hb | hr
      · exact absurd hb heq
      · exact mem_cons_of_mem _ hr

/-- A buffer that is deleted has no users any more. -/
theorem delete (h : Served ((buffer, buf) :: rest) users) (hnot : buffer ∉ AssocList.keys rest)
    (hother : ∀ b, b ≠ buffer → (usersOn b users).Perm (usersOn b users')) (hnone : usersOn buffer users' = [])
    (hnodup : (AssocList.keys users').Nodup) : Served rest users' := by
  refine ⟨?_, ?_, hnodup⟩
  · intro e he
    have hne : e.1 ≠ buffer := fun heq => hnot (heq ▸ mem_map_of_mem he)
    exact (h.ok e (mem_cons_of_mem _ he)).perm (hother e.1 hne)
  · intro e he
    have hne : e.2.buffer ≠ buffer := by
      intro heq
      have hon : e ∈ usersOn buffer users' := mem_filter.2 ⟨he, by simpa using heq⟩
      rw [hnone] at hon
      exact absurd hon not_mem_nil
    have hon : e ∈ usersOn e.2.buffer users' := mem_filter.2 ⟨he, by simp⟩
    have hin := (mem_filter.1 ((hother _ hne).symm.subset hon)).1
    exact (mem_cons.1 (h.live e hin)).resolve_left hne

end Served

end Whispercast.Io
