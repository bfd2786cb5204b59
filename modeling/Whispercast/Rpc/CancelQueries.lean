import Mathlib.Algebra.Group.Nat.Defs
import Whispercast.Library.Run

/-!
# Client threads and the selector thread

Model of `IClientConnection` (`irpc_client_connection.cc`) with what its threads wait for. Any number of client threads
call `AsyncQuery`, `CancelQuery` and `CancelAllQueries`; the selector thread runs closures, and handles replies, failed
sends, timeouts and the end of the connection, in which it may call the same. A step is what a thread does between two
waits; `sync_response_map_` is held by one thread at most. `none` is a failed `CHECK`, or what cannot happen: a thread
that waits has no step. Left out: messages, the callbacks themselves, and how long a timeout takes; the wait in
`ClearTimeouts` may end at any time, since it ends after ten seconds.
-/

namespace Whispercast.Rpc

open Library Function Option

/-- Where a client thread is. -/
inductive ClientPc where
  | idle
  /-- `AsyncQuery`: in front of the lock, behind it, and in front of `SendQuery`. -/
  | asyncLock (xid : Nat)
  | asyncLocked (xid : Nat)
  | asyncSend (xid : Nat)
  /-- `CancelQuery`: in front of the lock, behind it, in front of `WaitForSelectorThread`, and in it. -/
  | cancelLock (qid : Nat)
  | cancelLocked (qid : Nat)
  | cancelMissing
  | cancelWait
  /-- `CancelAllQueries`: in `ClearTimeouts`, in front of the lock, behind it, in `WaitForSelectorThread`, and at the
  end. -/
  | allTimeouts
  | allLock
  | allLocked
  | allWait
  | allSignalled
  deriving DecidableEq

/-- What the selector thread does with the lock. -/
inductive SelectorOp where
  /-- `CompleteQuery`, or `NotifySendFailed`. -/
  | complete (xid : Nat)
  /-- `CompleteAllQueries`. -/
  | completeAll
  | asyncQuery (xid : Nat)
  | cancelQuery (qid : Nat)
  | cancelAllQueries
  deriving DecidableEq

/-- Where the selector thread is: in its loop or in a callback, in front of the lock, or behind it. -/
inductive SelectorPc where
  | free
  | lock (op : SelectorOp)
  | locked (op : SelectorOp)
  deriving DecidableEq

/-- What waits for the selector thread. -/
inductive QueuedClosure where
  | addTimeout (xid : Nat)
  | clearTimeout (xid : Nat)
  | clearTimeouts
  /-- `WaitForSelectorThread` of a client thread. -/
  | signal (client : Nat)

/-- A thread. -/
inductive Thread where
  | client (t : Nat)
  | selector

/-- `IClientConnection` and its threads; `holder` is the thread that has locked `sync_response_map_`, and `callbacks`
counts the callbacks that the selector thread has still to run. -/
structure ClientThreads where
  next_xid_ : Nat := 1
  response_map_ : List Nat := []
  holder : Option Thread := none
  timeouts : List Nat := []
  closures : List QueuedClosure := []
  clients : Nat → ClientPc := fun _ => .idle
  selector : SelectorPc := .free
  callbacks : Nat := 0

/-- The calls. -/
inductive Call where
  | asyncQuery
  | cancelQuery (qid : Nat)
  | cancelAllQueries

/-- What a thread does next. -/
inductive ThreadEvent where
  /-- A client thread calls. -/
  | call (t : Nat) (call : Call)
  /-- A client thread goes on. -/
  | proceed (t : Nat)
  /-- `HandleResponse`. -/
  | reply (xid : Nat)
  | sendFailed (xid : Nat)
  /-- `NotifyTimeout`. -/
  | timeout (xid : Nat)
  /-- `NotifyConnectionClosed`. -/
  | closed
  /-- The selector thread itself calls. -/
  | selectorCall (call : Call)
  /-- The selector thread goes on. -/
  | selectorProceed
  /-- The next closure is run. -/
  | closure

namespace ClientPc

/-- The thread holds the lock. -/
def holds : ClientPc → Bool
  | .asyncLocked _ | .cancelLocked _ | .allLocked | .allWait | .allSignalled => true
  | _ => false

/-- The thread waits for the selector thread. -/
def waits : ClientPc → Bool
  | .cancelWait | .allTimeouts | .allWait => true
  | _ => false

/-- The thread holds the lock, and needs the selector thread before it lets it go. -/
def cancels : ClientPc → Bool
  | .allLocked | .allWait => true
  | _ => false

theorem holds_of_cancels {pc : ClientPc} (h : pc.cancels = true) : pc.holds = true := by
  cases pc <;> first | rfl | cases h

/-- The one that holds the lock and waits is in `CancelAllQueries`. -/
theorem eq_allWait {pc : ClientPc} (hholds : pc.holds = true) (hwaits : pc.waits = true) : pc = .allWait := by
  cases pc <;> simp_all [holds, waits]

end ClientPc

namespace ClientThreads

variable (s : ClientThreads)

/-- A client thread is somewhere else. -/
def goto (t : Nat) (pc : ClientPc) : ClientThreads := { s with clients := Function.update s.clients t pc }

def runInSelectLoop (closure : QueuedClosure) : ClientThreads := { s with closures := s.closures ++ [closure] }

/-- `sync_response_map_` is locked: a thread that does not get it waits. -/
def acquire (thread : Thread) : Option ClientThreads := do
  guard (s.holder = none)
  some { s with holder := some thread }

/-- `sync_response_map_` is unlocked. -/
def release : ClientThreads := { s with holder := none }

def generateNextXID : ClientThreads := { s with next_xid_ := (s.next_xid_ + 1) % 2 ^ 32 }

/-- `AddResponseCallbackNoSync`. -/
def addResponseCallback (xid : Nat) : Option ClientThreads := do
  guard (xid ∉ s.response_map_)
  some { s with response_map_ := xid :: s.response_map_ }

/-- A client thread calls; up to the first lock. -/
def callStep (t : Nat) : Call → ClientThreads
  | .asyncQuery => s.generateNextXID.goto t (.asyncLock s.next_xid_)
  | .cancelQuery qid => (s.runInSelectLoop (.clearTimeout qid)).goto t (.cancelLock qid)
  | .cancelAllQueries => (s.runInSelectLoop .clearTimeouts).goto t .allTimeouts

/-- A client thread goes on. -/
def proceedStep (t : Nat) : ClientPc → Option ClientThreads
  | .idle => none
  | .asyncLock xid => (s.acquire (.client t)).map fun s => s.goto t (.asyncLocked xid)
  | .asyncLocked xid =>
    (s.addResponseCallback xid).map fun s => (s.runInSelectLoop (.addTimeout xid)).release.goto t (.asyncSend xid)
  | .asyncSend _ => some (s.goto t .idle)
  | .cancelLock qid => (s.acquire (.client t)).map fun s => s.goto t (.cancelLocked qid)
  | .cancelLocked qid =>
    if qid ∈ s.response_map_ then
      some ({ s with response_map_ := s.response_map_.erase qid }.release.goto t .idle)
    else some (s.release.goto t .cancelMissing)
  | .cancelMissing => some ((s.runInSelectLoop (.signal t)).goto t .cancelWait)
  | .cancelWait => none
  | .allTimeouts => some (s.goto t .allLock)
  | .allLock => (s.acquire (.client t)).map fun s => s.goto t .allLocked
  | .allLocked => some (({ s with response_map_ := [] }.runInSelectLoop (.signal t)).goto t .allWait)
  | .allWait => none
  | .allSignalled => some (s.release.goto t .idle)

/-- The selector thread comes to the lock. -/
def toLock (op : SelectorOp) : Option ClientThreads := do
  guard (s.selector = .free)
  some { s with selector := .lock op }

/-- The selector thread calls. -/
def selectorCallStep : Call → Option ClientThreads
  | .asyncQuery => s.generateNextXID.toLock (.asyncQuery s.next_xid_)
  | .cancelQuery qid => { s with timeouts := s.timeouts.erase qid }.toLock (.cancelQuery qid)
  | .cancelAllQueries => { s with timeouts := [] }.toLock .cancelAllQueries

/-- What the selector thread does behind the lock. -/
def lockedStep : SelectorOp → Option ClientThreads
  | .complete xid =>
    if xid ∈ s.response_map_ then
      some { s with response_map_ := s.response_map_.erase xid, callbacks := s.callbacks + 1 }
    else some s
  | .completeAll => some { s with response_map_ := [], callbacks := s.callbacks + s.response_map_.length }
  | .asyncQuery xid => (s.addResponseCallback xid).map fun s => { s with timeouts := xid :: s.timeouts }
  | .cancelQuery qid => some { s with response_map_ := s.response_map_.erase qid }
  | .cancelAllQueries => some { s with response_map_ := [] }

/-- The selector thread goes on: to the end of a callback, or with the lock. -/
def selectorProceedStep : SelectorPc → Option ClientThreads
  | .free => do
      guard (0 < s.callbacks)
      some { s with callbacks := s.callbacks - 1 }
  | .lock op => (s.acquire .selector).map fun s => { s with selector := .locked op }
  | .locked op => (s.lockedStep op).map fun s => { s.release with selector := .free }

/-- A client thread is woken. -/
def signal (t : Nat) : ClientThreads :=
  match s.clients t with
  | .cancelWait => s.goto t .idle
  | .allWait => s.goto t .allSignalled
  | _ => s

/-- A closure is run. -/
def closureStep : QueuedClosure → ClientThreads
  | .addTimeout xid => { s with timeouts := xid :: s.timeouts }
  | .clearTimeout xid => { s with timeouts := s.timeouts.erase xid }
  | .clearTimeouts => { s with timeouts := [] }
  | .signal t => s.signal t

/-- The selector thread is in its loop. -/
def InLoop : Prop := s.selector = .free ∧ s.callbacks = 0

instance decidableInLoop : Decidable s.InLoop := inferInstanceAs (Decidable (_ ∧ _))

/-- One step of one thread. -/
def step : ThreadEvent → Option ClientThreads
  | .call t call => do
      guard (s.clients t = .idle)
      some (s.callStep t call)
  | .proceed t => s.proceedStep t (s.clients t)
  | .reply xid => do
      guard s.InLoop
      { s with timeouts := s.timeouts.erase xid }.toLock (.complete xid)
  | .sendFailed xid => { s with timeouts := s.timeouts.erase xid }.toLock (.complete xid)
  | .timeout xid => do
      guard (s.InLoop ∧ xid ∈ s.timeouts)
      { s with timeouts := s.timeouts.erase xid }.toLock (.complete xid)
  | .closed => do
      guard s.InLoop
      { s with timeouts := [] }.toLock .completeAll
  | .selectorCall call => s.selectorCallStep call
  | .selectorProceed => s.selectorProceedStep s.selector
  | .closure => do
      guard s.InLoop
      match s.closures with
      | [] => none
      | closure :: closures => some ({ s with closures := closures }.closureStep closure)

/-! ## Deadlocks -/

/-- The selector thread is in front of the lock. -/
def atLock : Bool :=
  match s.selector with
  | .lock _ => true
  | _ => false

/-- A client thread holds the lock while it waits for the selector thread, which waits for the lock. -/
def Deadlocked : Prop := ∃ t, s.holder = some (.client t) ∧ (s.clients t).waits = true ∧ s.atLock = true

/-- A client thread is in `CancelAllQueries`, behind the lock. -/
def cancelling : Bool :=
  match s.holder with
  | some (.client t) => (s.clients t).cancels
  | _ => false

/-- The selector thread does not begin what needs the lock while a client thread is in `CancelAllQueries` behind the lock,
and no client thread gets the lock there while the selector thread is in front of it. -/
def Apart : ThreadEvent → Prop
  | .proceed t => s.clients t = .allLock → s.atLock = false
  | .reply _ | .sendFailed _ | .timeout _ | .closed | .selectorCall _ => s.cancelling = false
  | _ => True

instance decidableApart : ∀ e, Decidable (s.Apart e)
  | .proceed _ => inferInstanceAs (Decidable (_ → _))
  | .reply _ => inferInstanceAs (Decidable (_ = _))
  | .sendFailed _ => inferInstanceAs (Decidable (_ = _))
  | .timeout _ => inferInstanceAs (Decidable (_ = _))
  | .closed => inferInstanceAs (Decidable (_ = _))
  | .selectorCall _ => inferInstanceAs (Decidable (_ = _))
  | .call _ _ => isTrue trivial
  | .selectorProceed => isTrue trivial
  | .closure => isTrue trivial

/-- The lock is held by the thread that is behind it. -/
structure Held : Prop where
  client : ∀ t, (s.clients t).holds = true ↔ s.holder = some (.client t)
  selector : (∃ op, s.selector = .locked op) ↔ s.holder = some .selector

/-- The invariant: besides, a client thread that cancels all queries finds the selector thread not in front of the
lock. -/
structure Inv : Prop where
  held : s.Held
  apart : ∀ t, (s.clients t).cancels = true → s.atLock = false

variable {s} {s' : ClientThreads} {t : Nat} {pc : ClientPc}

/-! ## Steps of client threads -/

@[simp] theorem goto_self : (s.goto t pc).clients t = pc := update_self ..

theorem goto_other {t' : Nat} (h : t' ≠ t) : (s.goto t pc).clients t' = s.clients t' := update_of_ne h ..

/-- What a step of a client thread makes of the lock: it keeps it, gets it, or lets it go. -/
inductive LockStep (s : ClientThreads) (t : Nat) (pc : ClientPc) : Option Thread → Prop
  | same (h : pc.holds = (s.clients t).holds) : LockStep s t pc s.holder
  | acquired (hfree : s.holder = none) (h : pc.holds = true) : LockStep s t pc (some (.client t))
  | released (hheld : (s.clients t).holds = true) (h : pc.holds = false) : LockStep s t pc none

theorem Held.step (h : s.Held) {holder : Option Thread} (hlock : LockStep s t pc holder)
    (hclients : s'.clients = Function.update s.clients t pc) (hholder : s'.holder = holder)
    (hselector : s'.selector = s.selector) : s'.Held := by
  have hself : s'.clients t = pc := by rw [hclients, update_self]
  have hother : ∀ t', t' ≠ t → s'.clients t' = s.clients t' := fun t' hne => by
    rw [hclients, update_of_ne hne]
  cases hlock with
  | same hpc =>
    refine ⟨fun t' => ?_, by rw [hselector, hholder]; exact h.selector⟩
    rw [hholder]
    by_cases heq : t' = t
    · rw [heq, hself, hpc]
      exact h.client t
    · rw [hother t' heq]
      exact h.client t'
  | acquired hfree hpc =>
    refine ⟨fun t' => ?_, ?_⟩
    · rw [hholder]
      by_cases heq : t' = t
      · simp [heq, hself, hpc]
      · have hnot : ¬ (s.clients t').holds = true := fun hheld => by
          simpa [hfree] using (h.client t').1 hheld
        simp [hother t' heq, hnot, Ne.symm heq]
    · have hnot : ¬ ∃ op, s.selector = .locked op := fun hlocked => by
        simpa [hfree] using h.selector.1 hlocked
      rw [hselector, hholder]
      exact ⟨fun hlocked => absurd hlocked hnot, nofun⟩
  | released hheld hpc =>
    have hholder' := (h.client t).1 hheld
    refine ⟨fun t' => ?_, ?_⟩
    · rw [hholder]
      by_cases heq : t' = t
      · simp [heq, hself, hpc]
      · have hnot : ¬ (s.clients t').holds = true := fun hheld' => by
          have hsame := hholder'.symm.trans ((h.client t').1 hheld')
          exact heq (by simpa using hsame.symm)
        simp [hother t' heq, hnot]
    · have hnot : ¬ ∃ op, s.selector = .locked op := fun hlocked => by
        simpa [hholder'] using h.selector.1 hlocked
      rw [hselector, hholder]
      exact ⟨fun hlocked => absurd hlocked hnot, nofun⟩

theorem Inv.step (h : s.Inv) {holder : Option Thread} (hlock : LockStep s t pc holder)
    (hclients : s'.clients = Function.update s.clients t pc) (hholder : s'.holder = holder)
    (hselector : s'.selector = s.selector) (hapart : pc.cancels = true → s.atLock = false) : s'.Inv where
  held := h.held.step hlock hclients hholder hselector
  apart := by
    intro t' hcancels
    have hat : s'.atLock = s.atLock := by rw [atLock, atLock, hselector]
    rw [hat]
    rw [hclients] at hcancels
    by_cases heq : t' = t
    · rw [heq, update_self] at hcancels
      exact hapart hcancels
    · rw [update_of_ne heq] at hcancels
      exact h.apart t' hcancels

theorem acquire_eq_some {thread : Thread} (hstep : s.acquire thread = some s') :
    s.holder = none ∧ s' = { s with holder := some thread } := by
  by_cases hfree : s.holder = none
  · rw [acquire, guard_of hfree] at hstep
    cases hstep
    exact ⟨hfree, rfl⟩
  · rw [acquire, guard_of_not hfree] at hstep
    cases hstep

theorem addResponseCallback_eq_some {xid : Nat} (hstep : s.addResponseCallback xid = some s') :
    s' = { s with response_map_ := xid :: s.response_map_ } := by
  by_cases hnew : xid ∉ s.response_map_
  · rw [addResponseCallback, guard_of hnew] at hstep
    cases hstep
    rfl
  · rw [addResponseCallback, guard_of_not hnew] at hstep
    cases hstep

theorem inv_callStep (h : s.Inv) (hidle : s.clients t = .idle) (call : Call) : (s.callStep t call).Inv := by
  cases call with
  | asyncQuery | cancelQuery qid | cancelAllQueries => exact h.step (.same (by rw [hidle]; rfl)) rfl rfl rfl nofun

theorem inv_proceedStep (h : s.Inv) (hpc : s.clients t = pc) (hapart : pc = .allLock → s.atLock = false)
    (hstep : s.proceedStep t pc = some s') : s'.Inv := by
  cases pc with
  | idle => cases hstep
  | asyncLock xid =>
    obtain ⟨s₁, hacquire, rfl⟩ := map_eq_some_iff.1 hstep
    obtain ⟨hfree, rfl⟩ := acquire_eq_some hacquire
    exact h.step (.acquired hfree rfl) rfl rfl rfl nofun
  | asyncLocked xid =>
    obtain ⟨s₁, hadd, rfl⟩ := map_eq_some_iff.1 hstep
    obtain rfl := addResponseCallback_eq_some hadd
    exact h.step (.released (by rw [hpc]; rfl) rfl) rfl rfl rfl nofun
  | asyncSend xid =>
    cases hstep
    exact h.step (.same (by rw [hpc]; rfl)) rfl rfl rfl nofun
  | cancelLock qid =>
    obtain ⟨s₁, hacquire, rfl⟩ := map_eq_some_iff.1 hstep
    obtain ⟨hfree, rfl⟩ := acquire_eq_some hacquire
    exact h.step (.acquired hfree rfl) rfl rfl rfl nofun
  | cancelLocked qid =>
    rw [proceedStep] at hstep
    split_ifs at hstep with hfound
    · cases hstep
      exact h.step (.released (by rw [hpc]; rfl) rfl) rfl rfl rfl nofun
    · cases hstep
      exact h.step (.released (by rw [hpc]; rfl) rfl) rfl rfl rfl nofun
  | cancelMissing =>
    cases hstep
    exact h.step (.same (by rw [hpc]; rfl)) rfl rfl rfl nofun
  | cancelWait => cases hstep
  | allTimeouts =>
    cases hstep
    exact h.step (.same (by rw [hpc]; rfl)) rfl rfl rfl nofun
  | allLock =>
    obtain ⟨s₁, hacquire, rfl⟩ := map_eq_some_iff.1 hstep
    obtain ⟨hfree, rfl⟩ := acquire_eq_some hacquire
    exact h.step (.acquired hfree rfl) rfl rfl rfl fun _ => hapart rfl
  | allLocked =>
    cases hstep
    exact h.step (.same (by rw [hpc]; rfl)) rfl rfl rfl fun _ => h.apart t (by rw [hpc]; rfl)
  | allWait => cases hstep
  | allSignalled =>
    cases hstep
    exact h.step (.released (by rw [hpc]; rfl) rfl) rfl rfl rfl nofun

/-! ## Steps of the selector thread -/

/-- Where the selector thread does not move and the lock is not touched, nothing changes. -/
theorem Inv.congr (h : s.Inv) (hclients : s'.clients = s.clients) (hholder : s'.holder = s.holder)
    (hselector : s'.selector = s.selector) : s'.Inv where
  held := ⟨fun t => by rw [hclients, hholder]; exact h.held.client t, by rw [hselector, hholder]; exact h.held.selector⟩
  apart := by
    intro t hcancels
    rw [hclients] at hcancels
    rw [atLock, hselector]
    exact h.apart t hcancels

/-- Without a client thread that cancels all queries the selector thread may come to the lock. -/
theorem inv_toLock {op : SelectorOp} (h : s.Inv) (hapart : s.cancelling = false) (hstep : s.toLock op = some s') :
    s'.Inv := by
  by_cases hfree : s.selector = .free
  · rw [toLock, guard_of hfree] at hstep
    cases hstep
    refine ⟨⟨h.held.client, ?_⟩, ?_⟩
    · have hnot : s.holder ≠ some .selector := fun hholder => by
        obtain ⟨op, hlocked⟩ := h.held.selector.2 hholder
        simp [hfree] at hlocked
      exact ⟨fun ⟨_, hlocked⟩ => (nomatch hlocked), fun hholder => absurd hholder hnot⟩
    · intro t hcancels
      have hholder := (h.held.client t).1 (ClientPc.holds_of_cancels hcancels)
      rw [cancelling, hholder] at hapart
      exact absurd (hcancels.symm.trans hapart) (by decide)
  · rw [toLock, guard_of_not hfree] at hstep
    cases hstep

theorem inv_selectorCallStep (h : s.Inv) (hapart : s.cancelling = false) {call : Call}
    (hstep : s.selectorCallStep call = some s') : s'.Inv := by
  cases call with
  | asyncQuery => exact inv_toLock (s := s.generateNextXID) (h.congr rfl rfl rfl) hapart hstep
  | cancelQuery qid =>
    exact inv_toLock (s := { s with timeouts := s.timeouts.erase qid }) (h.congr rfl rfl rfl) hapart hstep
  | cancelAllQueries => exact inv_toLock (s := { s with timeouts := [] }) (h.congr rfl rfl rfl) hapart hstep

/-- Behind the lock the selector thread changes the queries only. -/
theorem lockedStep_same {op : SelectorOp} (hstep : s.lockedStep op = some s') :
    s'.clients = s.clients ∧ s'.holder = s.holder ∧ s'.selector = s.selector := by
  cases op with
  | complete xid =>
    rw [lockedStep] at hstep
    split_ifs at hstep with hfound
    · cases hstep
      exact ⟨rfl, rfl, rfl⟩
    · cases hstep
      exact ⟨rfl, rfl, rfl⟩
  | completeAll =>
    cases hstep
    exact ⟨rfl, rfl, rfl⟩
  | asyncQuery xid =>
    obtain ⟨_, hadd, rfl⟩ := map_eq_some_iff.1 hstep
    obtain rfl := addResponseCallback_eq_some hadd
    exact ⟨rfl, rfl, rfl⟩
  | cancelQuery qid =>
    cases hstep
    exact ⟨rfl, rfl, rfl⟩
  | cancelAllQueries =>
    cases hstep
    exact ⟨rfl, rfl, rfl⟩

theorem inv_selectorProceedStep {pc : SelectorPc} (h : s.Inv) (hpc : s.selector = pc)
    (hstep : s.selectorProceedStep pc = some s') : s'.Inv := by
  cases pc with
  | free =>
    by_cases hcallbacks : 0 < s.callbacks
    · rw [selectorProceedStep, guard_of hcallbacks] at hstep
      cases hstep
      exact h.congr rfl rfl rfl
    · rw [selectorProceedStep, guard_of_not hcallbacks] at hstep
      cases hstep
  | lock op =>
    obtain ⟨s₁, hacquire, rfl⟩ := map_eq_some_iff.1 hstep
    obtain ⟨hfree, rfl⟩ := acquire_eq_some hacquire
    refine ⟨⟨fun t => ?_, fun _ => rfl, fun _ => ⟨op, rfl⟩⟩, fun t _ => rfl⟩
    -- nobody has held the lock
    have hnot : ¬ (s.clients t).holds = true := fun hheld => by simpa [hfree] using (h.held.client t).1 hheld
    exact ⟨fun hheld => absurd hheld hnot, nofun⟩
  | locked op =>
    obtain ⟨s₁, hlocked, rfl⟩ := map_eq_some_iff.1 hstep
    obtain ⟨hclients, -, -⟩ := lockedStep_same hlocked
    have hholder := h.held.selector.1 ⟨op, hpc⟩
    refine ⟨⟨fun t => ?_, (fun ⟨_, hlocked⟩ => nomatch hlocked), nofun⟩, fun t _ => rfl⟩
    have hnot : ¬ (s.clients t).holds = true := fun hheld => by
      simpa [hholder] using (h.held.client t).1 hheld
    refine ⟨fun hheld => absurd ?_ hnot, nofun⟩
    rw [← hclients]
    exact hheld

/-- A thread that is woken has waited. -/
theorem inv_signal (h : s.Inv) (t : Nat) : (s.signal t).Inv := by
  rw [signal]
  split
  · rename_i hpc
    exact h.step (.same (by rw [hpc]; rfl)) rfl rfl rfl nofun
  · rename_i hpc
    exact h.step (.same (by rw [hpc]; rfl)) rfl rfl rfl nofun
  · exact h

theorem inv_closureStep (h : s.Inv) (closure : QueuedClosure) : (s.closureStep closure).Inv := by
  cases closure with
  | addTimeout xid => exact h.congr rfl rfl rfl
  | clearTimeout xid => exact h.congr rfl rfl rfl
  | clearTimeouts => exact h.congr rfl rfl rfl
  | signal t => exact inv_signal h t

/-! ## Runs -/

theorem inv_init : ({} : ClientThreads).Inv where
  held := ⟨fun _ => ⟨nofun, nofun⟩, ⟨fun ⟨_, hlocked⟩ => (nomatch hlocked), nofun⟩⟩
  apart _ _ := rfl

theorem inv_step (s : ClientThreads) (e : ThreadEvent) (s' : ClientThreads) (h : s.Inv) (hapart : s.Apart e)
    (hstep : s.step e = some s') : s'.Inv := by
  cases e with
  | call t call =>
    by_cases hidle : s.clients t = .idle
    · rw [step, guard_of hidle] at hstep
      cases hstep
      exact inv_callStep h hidle call
    · rw [step, guard_of_not hidle] at hstep
      cases hstep
  | proceed t => exact inv_proceedStep h rfl hapart hstep
  | reply xid =>
    obtain ⟨-, -, hstep⟩ := bind_eq_some_iff.1 hstep
    exact inv_toLock (s := { s with timeouts := s.timeouts.erase xid }) (h.congr rfl rfl rfl) hapart hstep
  | sendFailed xid =>
    exact inv_toLock (s := { s with timeouts := s.timeouts.erase xid }) (h.congr rfl rfl rfl) hapart hstep
  | timeout xid =>
    obtain ⟨-, -, hstep⟩ := bind_eq_some_iff.1 hstep
    exact inv_toLock (s := { s with timeouts := s.timeouts.erase xid }) (h.congr rfl rfl rfl) hapart hstep
  | closed =>
    obtain ⟨-, -, hstep⟩ := bind_eq_some_iff.1 hstep
    exact inv_toLock (s := { s with timeouts := [] }) (h.congr rfl rfl rfl) hapart hstep
  | selectorCall call => exact inv_selectorCallStep h hapart hstep
  | selectorProceed => exact inv_selectorProceedStep h rfl hstep
  | closure =>
    obtain ⟨-, -, hstep⟩ := bind_eq_some_iff.1 hstep
    cases hclosures : s.closures with
    | nil =>
      rw [hclosures] at hstep
      cases hstep
    | cons closure closures =>
      rw [hclosures] at hstep
      cases hstep
      exact inv_closureStep (s := { s with closures := closures }) (h.congr rfl rfl rfl) closure

theorem Inv.not_deadlocked (h : s.Inv) : ¬ s.Deadlocked := by
  rintro ⟨t, hholder, hwaits, hat⟩
  have hpc := ClientPc.eq_allWait ((h.held.client t).2 hholder) hwaits
  rw [h.apart t (by rw [hpc]; rfl)] at hat
  cases hat

/-! ## A deadlock does not end -/

/-- The client thread is in `CancelAllQueries`, behind the lock, and the selector thread is in front of it. -/
structure Met (s : ClientThreads) (t : Nat) : Prop where
  holder : s.holder = some (.client t)
  cancels : (s.clients t).cancels = true
  others : ∀ t', t' ≠ t → (s.clients t').holds = false
  atLock : ∃ op, s.selector = .lock op

theorem Inv.not_met (h : s.Inv) : ¬ ∃ t, s.Met t := by
  rintro ⟨t, hmet⟩
  obtain ⟨op, hop⟩ := hmet.atLock
  have hat := h.apart t hmet.cancels
  rw [ClientThreads.atLock, hop] at hat
  cases hat

/-- A step of a client thread that does not touch the lock. -/
theorem Met.step_client (h : s.Met t) {t' : Nat} (hpc : t' = t → pc.cancels = true) (hother : t' ≠ t → pc.holds = false)
    (hclients : s'.clients = update s.clients t' pc) (hholder : s'.holder = s.holder)
    (hselector : s'.selector = s.selector) : s'.Met t := by
  refine ⟨hholder.trans h.holder, ?_, fun t'' hne => ?_, hselector ▸ h.atLock⟩
  · rw [hclients, update_apply]
    split_ifs with heq
    · exact hpc heq.symm
    · exact h.cancels
  · rw [hclients, update_apply]
    split_ifs with heq
    · exact hother (heq ▸ hne)
    · exact h.others t'' hne

theorem Met.acquire (h : s.Met t) (thread : Thread) : s.acquire thread = none := by
  rw [ClientThreads.acquire, guard_of_not (by rw [h.holder]; exact nofun)]
  rfl

theorem Met.proceed (h : s.Met t) {t' : Nat} (hpc : s.clients t' = pc) (hstep : s.proceedStep t' pc = some s') :
    s'.Met t := by
  have hother : t' ≠ t → pc.holds = false := fun hne => hpc ▸ h.others t' hne
  have hself : t' = t → pc.cancels = true := fun heq => hpc ▸ heq ▸ h.cancels
  cases pc with
  | idle | cancelWait | allWait => cases hstep
  | asyncLock xid | cancelLock qid | allLock =>
    rw [proceedStep, h.acquire] at hstep
    cases hstep
  | asyncLocked xid | cancelLocked qid | allSignalled =>
    -- It would be behind the lock beside `t`.
    by_cases heq : t' = t
    · cases hself heq
    · cases hother heq
  | asyncSend xid | cancelMissing | allTimeouts =>
    cases hstep
    exact h.step_client (fun heq => by cases hself heq) (fun _ => rfl) rfl rfl rfl
  | allLocked =>
    cases hstep
    exact h.step_client (fun _ => rfl) (fun hne => by cases hother hne) rfl rfl rfl

theorem toLock_eq_some {op : SelectorOp} (hstep : s.toLock op = some s') :
    s.selector = .free ∧ s' = { s with selector := .lock op } := by
  by_cases hfree : s.selector = .free
  · rw [toLock, guard_of hfree] at hstep
    cases hstep
    exact ⟨hfree, rfl⟩
  · rw [toLock, guard_of_not hfree] at hstep
    cases hstep

/-- Whatever the threads do, two that wait for each other go on waiting. -/
theorem Met.step (h : s.Met t) {e : ThreadEvent} (hstep : s.step e = some s') : s'.Met t := by
  obtain ⟨op, hop⟩ := h.atLock
  have hlock : s.selector ≠ .free := by simp [hop]
  have hloop : ¬ s.InLoop := fun hloop => hlock hloop.1
  cases e with
  | call t' call =>
    by_cases hidle : s.clients t' = .idle
    · rw [ClientThreads.step, guard_of hidle] at hstep
      cases hstep
      have hne : t' ≠ t := by
        rintro rfl
        cases hidle ▸ h.cancels
      cases call with
      | asyncQuery | cancelQuery qid | cancelAllQueries =>
        exact h.step_client (absurd · hne) (fun _ => rfl) rfl rfl rfl
    · rw [ClientThreads.step, guard_of_not hidle] at hstep
      cases hstep
  | proceed t' => exact h.proceed rfl hstep
  | reply xid | closed | closure =>
    rw [ClientThreads.step, guard_of_not hloop] at hstep
    cases hstep
  | timeout xid =>
    rw [ClientThreads.step, guard_of_not fun hboth => hloop hboth.1] at hstep
    cases hstep
  | sendFailed xid => exact absurd (toLock_eq_some hstep).1 hlock
  | selectorCall call =>
    cases call with
    | asyncQuery | cancelQuery qid | cancelAllQueries => exact absurd (toLock_eq_some hstep).1 hlock
  | selectorProceed =>
    rw [ClientThreads.step, hop, selectorProceedStep, h.acquire] at hstep
    cases hstep

/-- The selector thread comes to the lock while a client thread cancels all queries. -/
theorem Inv.met_of_toLock (h : s.Inv) (hcancelling : ¬ s.cancelling = false) {s₁ : ClientThreads} {op : SelectorOp}
    (hstep : s₁.toLock op = some s') (hclients : s₁.clients = s.clients) (hholder : s₁.holder = s.holder) :
    ∃ t, s'.Met t := by
  obtain ⟨-, rfl⟩ := toLock_eq_some hstep
  rw [cancelling] at hcancelling
  split at hcancelling
  · rename_i t ht
    refine ⟨t, hholder.trans ht, by simpa [hclients] using hcancelling, fun t' hne => ?_, op, rfl⟩
    by_contra hholds
    rw [Bool.not_eq_false, hclients, h.held.client, ht] at hholds
    cases hholds
    exact hne rfl
  · exact absurd rfl hcancelling

theorem met_of_not_apart (s : ClientThreads) (e : ThreadEvent) (s' : ClientThreads) (h : s.Inv) (hmeet : ¬ s.Apart e)
    (hstep : s.step e = some s') : ∃ t, s'.Met t := by
  cases e with
  | proceed t =>
    obtain ⟨hpc, hat⟩ := Classical.not_imp.1 hmeet
    rw [step, hpc] at hstep
    obtain ⟨_, hacquire, rfl⟩ := map_eq_some_iff.1 hstep
    obtain ⟨hfree, rfl⟩ := acquire_eq_some hacquire
    refine ⟨t, rfl, by rw [goto_self]; rfl, fun t' hne => ?_, ?_⟩
    · rw [goto_other hne]
      by_contra hholds
      rw [Bool.not_eq_false, h.held.client, hfree] at hholds
      cases hholds
    · rw [atLock] at hat
      split at hat
      · exact ⟨_, ‹_›⟩
      · exact absurd rfl hat
  | sendFailed xid => exact h.met_of_toLock hmeet hstep rfl rfl
  | reply xid | timeout xid | closed =>
    obtain ⟨-, -, hstep⟩ := bind_eq_some_iff.1 hstep
    exact h.met_of_toLock hmeet hstep rfl rfl
  | selectorCall call =>
    cases call with
    | asyncQuery | cancelQuery qid | cancelAllQueries => exact h.met_of_toLock hmeet hstep rfl rfl
  | call t call | selectorProceed | closure => exact absurd trivial hmeet

end ClientThreads

open ClientThreads

/-- In every run in which the selector thread and the client threads that cancel all queries keep apart, there is no
deadlock. -/
theorem cancelling_never_deadlocks (es : List ThreadEvent) (h : Along step Apart {} es) (s : ClientThreads)
    (hrun : run step {} es = some s) : ¬ s.Deadlocked :=
  (run_invariant_along inv_step inv_init h hrun).not_deadlocked

/-- A query is answered while another one is cancelled, and then all are. -/
def apartRun : List ThreadEvent :=
  [.call 0 .asyncQuery, .proceed 0, .proceed 0, .proceed 0, .call 1 (.cancelQuery 7), .reply 1, .selectorProceed,
    .selectorProceed, .proceed 1, .proceed 1, .proceed 1, .selectorProceed, .closure, .closure, .closure,
    .call 0 .cancelAllQueries, .proceed 0, .proceed 0, .proceed 0, .closure, .closure, .proceed 0, .closed]

theorem cancelling_never_deadlocks_apart : (run step {} apartRun).isSome = true ∧
    ∀ s, run step {} apartRun = some s → ¬ s.Deadlocked :=
  ⟨by decide +kernel, cancelling_never_deadlocks apartRun (by decide +kernel)⟩

/-- A reply comes while a client thread cancels all queries: each of the two threads waits for the other one. -/
theorem cancelling_deadlocks : ¬ ∀ (es : List ThreadEvent) (s : ClientThreads),
    run step {} es = some s → ¬ s.Deadlocked := by
  intro hclaim
  have hrun : (run step {} [.call 0 .cancelAllQueries, .proceed 0, .proceed 0, .reply 1, .proceed 0]).isSome = true := by
    decide +kernel
  obtain ⟨s, hs⟩ := isSome_iff_exists.1 hrun
  refine hclaim _ s hs ⟨0, ?_⟩
  cases hs
  exact ⟨rfl, rfl, rfl⟩

/-- Exactly the runs in which the threads did not keep apart end with two that wait for each other. -/
theorem met_iff_not_apart (es : List ThreadEvent) (s : ClientThreads) (hrun : run step {} es = some s) :
    (∃ t, s.Met t) ↔ ¬ Along step Apart {} es :=
  run_trapped_iff inv_step met_of_not_apart (fun _ _ _ ⟨t, hmet⟩ hstep => ⟨t, hmet.step hstep⟩) (fun _ h => h.not_met)
    inv_init hrun

theorem met_after_reply : ∃ s, run step {} [.call 0 .cancelAllQueries, .proceed 0, .proceed 0, .reply 1, .proceed 0] =
    some s ∧ ∃ t, s.Met t :=
  (isSome_iff_exists.1 (by decide +kernel)).imp fun _ hrun =>
    ⟨hrun, (met_iff_not_apart _ _ hrun).2 (by decide +kernel)⟩

end Whispercast.Rpc
