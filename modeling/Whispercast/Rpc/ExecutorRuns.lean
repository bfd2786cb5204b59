import Whispercast.Rpc.QueryExecutor

/-!
# Runs of the executor of queries

The lock and the accounts are two invariants of their own. `Locking` says that the thread which holds `sync_` is the one
inside a locked scope, and that no scope is inside another; `Accounts` says where the queries are, over the lists of
those that are being queued, those that are counted, and the results. Below the limit every event keeps both. At the
limit `QueueRPC` completes the query in its locked scope, and `ReturnResult` waits for the lock of its own thread.
-/

namespace Whispercast.Rpc

open Library List List.Perm Option ReturnedResult AssocList QueryExecutor

/-! ## Where the queries are -/

namespace CallPhase

/-- Inside a locked scope. -/
def holds : CallPhase → Bool
  | lock _ _ => false
  | locked _ _ => true
  | unlock _ _ => true
  | internalQueueRPC _ => false

/-- Inside the locked scope of `QueueRPC`, in another call. -/
def isInner : CallPhase → Bool
  | lock _ inner => inner
  | locked _ inner => inner
  | unlock _ inner => inner
  | internalQueueRPC _ => false

/-- A query that is not yet counted. -/
def queueing : CallPhase → Option ExecutedQuery
  | lock (.queueRPC q) _ => some q
  | locked (.queueRPC q) _ => some q
  | _ => none

/-- A query that is queued, and not yet completed. -/
def active : CallPhase → Option ExecutedQuery
  | lock (.returnResult q) _ => some q
  | locked (.returnResult q) _ => some q
  | unlock query _ => query
  | internalQueueRPC q => some q
  | _ => none

end CallPhase

namespace QueryExecutor

/-- The queries that `QueueRPC` has not yet counted. -/
def queueing (s : QueryExecutor) : List ExecutedQuery := s.calls.filterMap fun e => e.2.queueing

/-- The queries that are queued, and not yet completed. -/
def active (s : QueryExecutor) : List ExecutedQuery :=
  s.calls.filterMap (fun e => e.2.active) ++ (s.queries_ ++ s.executed)

/-- What should hold of the lock, the counter, the limit and the results.

* No thread locks `sync_` while it holds it.
* The counter is the number of queries that are queued and not yet completed.
* A query that was queued at the limit is completed with `RPC_SERVER_BUSY`.
* A result is delivered to the handler that made the query if it is still registered, and never otherwise.
* Every query is being queued, or it is active, or it has one result. -/
structure Accounted (s : QueryExecutor) : Prop where
  noSelfLock : ∀ thread scope inner, (thread, .lock scope inner) ∈ s.calls → s.sync_ ≠ some thread
  counted : s.concurent_queries_ = s.active.length
  busy : ∀ q ∈ s.active ++ s.results.map ReturnedResult.query, q.atLimit = true → q.status = .serverBusy
  delivered : ∀ r ∈ s.results, r.deliveredTo = if r.registered then some r.query.owner else none
  placed : ((s.queueing ++ s.active ++ s.results.map ReturnedResult.query).map ExecutedQuery.qid).Perm
    (List.range s.nextQid)

end QueryExecutor

/-! ## The lock -/

/-- The thread that holds the lock is the one inside a locked scope, and no scope is inside another. -/
structure Locking (calls : List (Nat × CallPhase)) (sync : Option Nat) : Prop where
  threads : (AssocList.keys calls).Nodup
  holder : ∀ e ∈ calls, e.2.holds = true → sync = some e.1
  held : ∀ thread, sync = some thread → ∃ e ∈ calls, e.1 = thread ∧ e.2.holds = true
  outer : ∀ e ∈ calls, e.2.isInner = false

namespace Locking

variable {calls : List (Nat × CallPhase)} {sync : Option Nat} {thread : Nat} {phase phase' : CallPhase}

/-- The calls of the other threads. -/
abbrev othersOf (calls : List (Nat × CallPhase)) (thread : Nat) : List (Nat × CallPhase) :=
  calls.eraseP fun e => e.1 == thread

theorem not_self_lock (h : Locking calls sync) {scope : LockedScope} {inner : Bool}
    (hmem : (thread, .lock scope inner) ∈ calls) : sync ≠ some thread := by
  intro hsync
  obtain ⟨e, he, rfl, hholds⟩ := h.held thread hsync
  have hsame := inj_on_of_nodup_map h.threads he hmem rfl
  rw [hsame] at hholds
  exact Bool.false_ne_true hholds

/-- A thread goes on outside locked scopes. -/
theorem outside (h : Locking calls sync) (hthread : thread ∉ AssocList.keys calls) (hout : phase'.holds = false)
    (hinner : phase'.isInner = false) : Locking ((thread, phase') :: calls) sync := by
  refine ⟨nodup_cons.2 ⟨hthread, h.threads⟩, ?_, ?_, ?_⟩
  · intro e he hholds
    rcases mem_cons.1 he with rfl | hmem
    · rw [hout] at hholds
      exact absurd hholds Bool.false_ne_true
    · exact h.holder e hmem hholds
  · intro t ht
    obtain ⟨e, he, heq⟩ := h.held t ht
    exact ⟨e, mem_cons_of_mem _ he, heq⟩
  · intro e he
    rcases mem_cons.1 he with rfl | hmem
    · exact hinner
    · exact h.outer e hmem

/-- A thread locks. -/
theorem inside (h : Locking calls none) (hthread : thread ∉ AssocList.keys calls) (hin : phase'.holds = true)
    (hinner : phase'.isInner = false) : Locking ((thread, phase') :: calls) (some thread) := by
  refine ⟨nodup_cons.2 ⟨hthread, h.threads⟩, ?_, ?_, ?_⟩
  · intro e he hholds
    rcases mem_cons.1 he with rfl | hmem
    · rfl
    · exact nomatch h.holder e hmem hholds
  · intro t ht
    cases ht
    exact ⟨_, mem_cons_self, rfl, hin⟩
  · intro e he
    rcases mem_cons.1 he with rfl | hmem
    · exact hinner
    · exact h.outer e hmem

/-- A thread makes a call. -/
theorem start (h : Locking calls sync) (hidle : calls.lookup thread = none) (scope : LockedScope) :
    Locking ((thread, .lock scope false) :: calls) sync :=
  h.outside (lookup_eq_none.1 hidle) rfl rfl

variable (hlookup : calls.lookup thread = some phase)

include hlookup

theorem phase_mem : (thread, phase) ∈ calls :=
  (perm_of_lookup hlookup).symm.subset mem_cons_self

theorem mem_of_mem_others {e : Nat × CallPhase} (he : e ∈ othersOf calls thread) : e ∈ calls :=
  (perm_of_lookup hlookup).symm.subset (mem_cons_of_mem _ he)

/-- The other threads without the one that is looked at. -/
theorem others_nodup (h : Locking calls sync) :
    thread ∉ AssocList.keys (othersOf calls thread) ∧ (AssocList.keys (othersOf calls thread)).Nodup := by
  have hperm := (perm_of_lookup hlookup).map Prod.fst
  exact nodup_cons.1 (hperm.nodup_iff.1 h.threads)

/-- A thread that is not inside a locked scope lets the others be. -/
theorem leave (h : Locking calls sync) (hout : phase.holds = false) : Locking (othersOf calls thread) sync := by
  refine ⟨(others_nodup hlookup h).2, fun e he => h.holder e (mem_of_mem_others hlookup he), ?_,
    fun e he => h.outer e (mem_of_mem_others hlookup he)⟩
  intro t ht
  obtain ⟨e, he, rfl, hholds⟩ := h.held t ht
  rcases mem_cons.1 ((perm_of_lookup hlookup).subset he) with rfl | hmem
  · rw [hout] at hholds
    exact absurd hholds Bool.false_ne_true
  · exact ⟨e, hmem, rfl, hholds⟩

/-- A thread unlocks. -/
theorem release (h : Locking calls sync) (hin : phase.holds = true) : Locking (othersOf calls thread) none := by
  have hsync := h.holder _ (phase_mem hlookup) hin
  refine ⟨(others_nodup hlookup h).2, ?_, (fun t ht => nomatch ht),
    fun e he => h.outer e (mem_of_mem_others hlookup he)⟩
  intro e he hholds
  have hother := h.holder e (mem_of_mem_others hlookup he) hholds
  rw [hsync] at hother
  have heq : thread = e.1 := some.inj hother
  have hmem : e.1 ∈ keys (othersOf calls thread) := mem_map_of_mem he
  rw [← heq] at hmem
  exact absurd hmem (others_nodup hlookup h).1

/-- A thread inside a locked scope stays there. -/
theorem stay (h : Locking calls sync) (hin : phase.holds = true) (hin' : phase'.holds = true)
    (hinner : phase'.isInner = false) : Locking ((thread, phase') :: othersOf calls thread) sync := by
  rw [h.holder _ (phase_mem hlookup) hin]
  exact inside (release hlookup h hin) (others_nodup hlookup h).1 hin' hinner

end Locking

/-! ## The accounts -/

/-- A query that carries the id of its handler, which nobody else gets. -/
structure Owned (handlers : List (Nat × Nat)) (next : Nat) (q : ExecutedQuery) : Prop where
  rid : q.rid = q.registration
  assigned : q.registration < next
  owner : ∀ handler, (q.registration, handler) ∈ handlers → handler = q.owner

/-- The ids, the counter, and where the queries are: some are being queued, some are active, some have a result. -/
structure Accounts (handlers : List (Nat × Nat)) (next count nextQid : Nat) (queueing active : List ExecutedQuery)
    (results : List ReturnedResult) : Prop where
  keys : (AssocList.keys handlers).Nodup
  assigned : ∀ e ∈ handlers, e.1 < next
  bound : next < 2 ^ 64
  counted : count = active.length
  countBound : count < 2 ^ 64
  owned : ∀ q ∈ queueing ++ active, Owned handlers next q
  below : ∀ q ∈ queueing ++ active ++ results.map ReturnedResult.query, q.atLimit = false
  delivered : ∀ r ∈ results, r.deliveredTo = if r.registered then some r.query.owner else none
  placed : ((queueing ++ active ++ results.map ReturnedResult.query).map ExecutedQuery.qid).Perm (List.range nextQid)

namespace Accounts

variable {handlers : List (Nat × Nat)} {next count nextQid : Nat} {queueing active queueing' active' : List ExecutedQuery}
  {results : List ReturnedResult} {q : ExecutedQuery}

section

variable (h : Accounts handlers next count nextQid queueing active results)

include h

/-- The order of the lists does not matter. -/
theorem perm (hq : queueing'.Perm queueing)
    (ha : active'.Perm active) : Accounts handlers next count nextQid queueing' active' results := by
  have hboth := hq.append ha
  have hall := hboth.append_right (results.map query)
  exact ⟨h.keys, h.assigned, h.bound, h.counted.trans ha.length_eq.symm, h.countBound,
    fun q hmem => h.owned q (hboth.subset hmem), fun q hmem => h.below q (hall.subset hmem), h.delivered,
    (hall.map ExecutedQuery.qid).trans h.placed⟩

/-- A handler is registered. -/
theorem register (hnext : next + 1 < 2 ^ 64) (handler : Nat) :
    Accounts ((next, handler) :: handlers) (next + 1) count nextQid queueing active results := by
  refine ⟨nodup_cons.2 ⟨?_, h.keys⟩, ?_, hnext, h.counted, h.countBound, ?_, h.below, h.delivered, h.placed⟩
  · intro hmem
    obtain ⟨e, he, heq⟩ := mem_map.1 hmem
    have hlt := h.assigned e he
    rw [heq] at hlt
    exact Nat.lt_irrefl next hlt
  · intro e he
    rcases mem_cons.1 he with rfl | hmem
    · exact Nat.lt_succ_self next
    · exact Nat.lt_succ_of_lt (h.assigned e hmem)
  · intro q hq
    have howned := h.owned q hq
    refine ⟨howned.rid, Nat.lt_succ_of_lt howned.assigned, ?_⟩
    intro handler' hmem
    rcases mem_cons.1 hmem with heq | hold
    · have hid : q.registration = next := congrArg Prod.fst heq
      have hlt := howned.assigned
      rw [hid] at hlt
      exact absurd hlt (Nat.lt_irrefl next)
    · exact howned.owner handler' hold

/-- Handlers are unregistered. -/
theorem unregister {fewer : List (Nat × Nat)}
    (hfewer : fewer.Sublist handlers) : Accounts fewer next count nextQid queueing active results := by
  refine ⟨h.keys.sublist (hfewer.map Prod.fst), fun e he => h.assigned e (hfewer.subset he), h.bound, h.counted,
    h.countBound, ?_, h.below, h.delivered, h.placed⟩
  intro q hq
  have howned := h.owned q hq
  exact ⟨howned.rid, howned.assigned, fun handler hmem => howned.owner handler (hfewer.subset hmem)⟩

/-- A registered handler makes a query. -/
theorem make {handler registration : Nat}
    (hregistered : (registration, handler) ∈ handlers) (hsmall : registration < 2 ^ 32) :
    Accounts handlers next count (nextQid + 1)
      ({ qid := nextQid, rid := registration % 2 ^ 32, owner := handler, registration := registration } :: queueing)
      active results := by
  have hlt : registration < next := h.assigned _ hregistered
  refine ⟨h.keys, h.assigned, h.bound, h.counted, h.countBound, ?_, ?_, h.delivered, ?_⟩
  · intro q hq
    rcases mem_cons.1 hq with rfl | hmem
    · refine ⟨Nat.mod_eq_of_lt hsmall, hlt, ?_⟩
      intro handler' hmem
      exact congrArg Prod.snd (inj_on_of_nodup_map h.keys hmem hregistered rfl)
    · exact h.owned q hmem
  · intro q hq
    rcases mem_cons.1 hq with rfl | hmem
    · rfl
    · exact h.below q hmem
  · rw [cons_append, cons_append, map_cons, range_succ]
    exact (cons nextQid h.placed).trans (perm_append_singleton _ _).symm

end

/-- A query is counted. -/
theorem queue (h : Accounts handlers next count nextQid (q :: queueing) active results) (hcount : count + 1 < 2 ^ 64) :
    Accounts handlers next (count + 1) nextQid queueing (q :: active) results := by
  have hmove : (queueing ++ q :: active).Perm (q :: queueing ++ active) := perm_middle
  have hall := hmove.append_right (results.map query)
  exact ⟨h.keys, h.assigned, h.bound, congrArg (· + 1) h.counted, hcount, fun q hmem => h.owned q (hmove.subset hmem),
    fun q hmem => h.below q (hall.subset hmem), h.delivered, (hall.map ExecutedQuery.qid).trans h.placed⟩

/-- A query is completed. -/
theorem complete (h : Accounts handlers next count nextQid queueing (q :: active) results) (status : ReplyStatus) :
    Accounts handlers next count nextQid queueing ({ q with status := status } :: active) results := by
  refine ⟨h.keys, h.assigned, h.bound, h.counted, h.countBound, ?_, ?_, h.delivered, ?_⟩
  · intro q' hq'
    rcases mem_append.1 hq' with hmem | hmem
    · exact h.owned q' (mem_append_left _ hmem)
    · rcases mem_cons.1 hmem with rfl | hmem
      · have howned := h.owned q (mem_append_right _ mem_cons_self)
        exact ⟨howned.rid, howned.assigned, howned.owner⟩
      · exact h.owned q' (mem_append_right _ (mem_cons_of_mem _ hmem))
  · intro q' hq'
    have hq := h.below q (by simp)
    simp only [mem_append, mem_cons] at hq'
    rcases hq' with (hmem | rfl | hmem) | hmem
    · exact h.below q' (by simp [hmem])
    · exact hq
    · exact h.below q' (by simp [hmem])
    · exact h.below q' (mem_append_right _ hmem)
  · have hplaced := h.placed
    simp only [map_append, map_cons] at hplaced ⊢
    exact hplaced

/-- A result is returned. -/
theorem return_ (h : Accounts handlers next count nextQid queueing (q :: active) results) :
    Accounts handlers next (count - 1) nextQid queueing active
      (results ++ [⟨q, decide ((q.registration, q.owner) ∈ handlers), handlers.lookup q.rid⟩]) := by
  have howned := h.owned q (mem_append_right _ mem_cons_self)
  have hall : (queueing ++ active ++ (results.map query ++ [q])).Perm
      (queueing ++ (q :: active) ++ results.map query) := by
    have hlast := (perm_append_singleton q (active ++ results.map query)).append_left queueing
    simpa only [append_assoc, cons_append] using hlast
  have hcount : count = active.length + 1 := h.counted
  have hbound := h.countBound
  have hresults : ∀ r : ReturnedResult,
      (results ++ [r]).map query = results.map query ++ [r.query] := by
    intro r
    rw [map_append, map_singleton]
  refine ⟨h.keys, h.assigned, h.bound, by omega, by omega, ?_, ?_, ?_, ?_⟩
  · intro q' hq'
    refine h.owned q' ?_
    rcases mem_append.1 hq' with hmem | hmem
    · exact mem_append_left _ hmem
    · exact mem_append_right _ (mem_cons_of_mem _ hmem)
  · rw [hresults]
    exact fun q' hq' => h.below q' (hall.subset hq')
  · intro r hr
    rcases mem_append.1 hr with hmem | hlast
    · exact h.delivered r hmem
    · rw [mem_singleton.1 hlast]
      rw [howned.rid]
      by_cases hstill : (q.registration, q.owner) ∈ handlers
      · rw [lookup_of_mem h.keys hstill, if_pos (decide_eq_true hstill)]
      · rw [if_neg (by simpa using hstill), lookup_eq_none]
        intro hmem
        obtain ⟨e, he, heq⟩ := mem_map.1 hmem
        obtain rfl : e = (q.registration, q.owner) := by
          refine Prod.ext heq (howned.owner e.2 ?_)
          rw [← heq]
          exact he
        exact hstill he
  · rw [hresults]
    exact (hall.map ExecutedQuery.qid).trans h.placed

end Accounts

/-! ## Events -/

namespace QueryExecutor

/-- The lock and the accounts of an executor. -/
structure Inv (s : QueryExecutor) : Prop where
  locking : Locking s.calls s.sync_
  accounts : Accounts s.handlers_ s.next_result_handler_id_ s.concurent_queries_ s.nextQid s.queueing s.active s.results

theorem Inv.accounted {s : QueryExecutor} (h : s.Inv) : s.Accounted := by
  refine ⟨fun thread scope inner hmem => h.locking.not_self_lock hmem, h.accounts.counted, ?_, h.accounts.delivered,
    h.accounts.placed⟩
  intro q hq hlimit
  have hbelow := h.accounts.below q (by
    rw [append_assoc]
    exact mem_append_right _ hq)
  rw [hbelow] at hlimit
  exact absurd hlimit Bool.false_ne_true

theorem init_inv : ({} : QueryExecutor).Inv where
  locking := ⟨List.nodup_nil, (fun e he => absurd he List.not_mem_nil), (fun t ht => nomatch ht),
    fun e he => absurd he List.not_mem_nil⟩
  accounts := ⟨List.nodup_nil, fun e he => absurd he List.not_mem_nil, by decide, rfl, by decide,
    fun q hq => absurd hq List.not_mem_nil, fun q hq => absurd hq List.not_mem_nil,
    fun r hr => absurd hr List.not_mem_nil, List.Perm.refl _⟩

/-- Below the limit: a query is queued when one more may be executed, and the ids of the handlers that are used fit in a
`uint32`. -/
def BelowLimit (max_concurent_queries : UInt64) (s : QueryExecutor) : Event → Prop
  | .goOn thread =>
    match s.calls.lookup thread with
    | some (.locked (.queueRPC _) _) => s.concurent_queries_ + 1 < max_concurent_queries.toNat
    | some (.locked (.registerHandler _) _) => s.next_result_handler_id_ + 1 < 2 ^ 64
    | _ => True
  | .queueRPC _ handler => s.idOf handler < 2 ^ 32
  | .unregisterResultHandler _ handler => s.idOf handler < 2 ^ 32
  | _ => True

section Phases

variable {s : QueryExecutor} {thread : Nat} {phase : CallPhase}

/-- The queries of the other threads that are not counted. -/
def queueingOthers (s : QueryExecutor) (thread : Nat) : List ExecutedQuery :=
  (s.others thread).filterMap fun e => e.2.queueing

/-- The other active queries. -/
def activeOthers (s : QueryExecutor) (thread : Nat) : List ExecutedQuery :=
  (s.others thread).filterMap (fun e => e.2.active) ++ (s.queries_ ++ s.executed)

theorem queueing_perm (h : s.calls.lookup thread = some phase) :
    s.queueing.Perm (phase.queueing.toList ++ s.queueingOthers thread) := by
  have hperm := (perm_of_lookup h).filterMap fun e => e.2.queueing
  refine hperm.trans ?_
  rw [filterMap_cons]
  cases phase.queueing with
  | none => exact List.Perm.refl _
  | some q => exact List.Perm.refl _

theorem active_perm (h : s.calls.lookup thread = some phase) :
    s.active.Perm (phase.active.toList ++ s.activeOthers thread) := by
  have hperm := (perm_of_lookup h).filterMap fun e => e.2.active
  refine (hperm.append_right _).trans ?_
  rw [filterMap_cons]
  cases phase.active with
  | none => exact List.Perm.refl _
  | some q => exact List.Perm.refl _

theorem queueing_enter (s : QueryExecutor) (thread : Nat) (phase : CallPhase) :
    (s.enter thread phase).queueing = phase.queueing.toList ++ s.queueingOthers thread := by
  rw [queueing, enter, filterMap_cons]
  cases phase.queueing with
  | none => rfl
  | some q => rfl

theorem active_enter (s : QueryExecutor) (thread : Nat) (phase : CallPhase) :
    (s.enter thread phase).active = phase.active.toList ++ s.activeOthers thread := by
  rw [active, enter, filterMap_cons]
  cases phase.active with
  | none => rfl
  | some q => rfl

/-- The accounts, with the queries of one thread apart. -/
theorem Inv.accounts_at (hinv : s.Inv) (h : s.calls.lookup thread = some phase) :
    Accounts s.handlers_ s.next_result_handler_id_ s.concurent_queries_ s.nextQid
      (phase.queueing.toList ++ s.queueingOthers thread) (phase.active.toList ++ s.activeOthers thread) s.results :=
  hinv.accounts.perm (queueing_perm h).symm (active_perm h).symm

end Phases

variable {max_concurent_queries : UInt64} {s s' : QueryExecutor} {thread : Nat}

theorem enter_inv (phase : CallPhase) (hlocking : Locking ((thread, phase) :: s.others thread) s.sync_)
    (haccounts : Accounts s.handlers_ s.next_result_handler_id_ s.concurent_queries_ s.nextQid
      (phase.queueing.toList ++ s.queueingOthers thread) (phase.active.toList ++ s.activeOthers thread) s.results) :
    (s.enter thread phase).Inv := by
  refine ⟨hlocking, ?_⟩
  rw [queueing_enter, active_enter]
  exact haccounts

/-- The locked scope of `QueueRPC`, below the limit. -/
theorem Inv.queueRPC (hinv : s.Inv) {q : ExecutedQuery} {inner : Bool}
    (hlookup : s.calls.lookup thread = some (.locked (.queueRPC q) inner))
    (hbelow : s.concurent_queries_ + 1 < max_concurent_queries.toNat) :
    (s.queueRPC max_concurent_queries thread inner q).Inv := by
  have hmax := max_concurent_queries.toNat_lt
  have hcount : (s.concurent_queries_ + 1) % 2 ^ 64 = s.concurent_queries_ + 1 := Nat.mod_eq_of_lt (by omega)
  have hlimit : decide (max_concurent_queries.toNat ≤ s.concurent_queries_) = q.atLimit := by
    rw [hinv.accounts.below q]
    · simp only [decide_eq_false_iff_not]
      omega
    · have hmem := (queueing_perm hlookup).symm.subset (mem_cons_self (a := q))
      exact mem_append_left _ (mem_append_left _ hmem)
  have haccounts := (hinv.accounts_at hlookup).queue (by omega)
  rw [QueryExecutor.queueRPC, hlimit]
  simp only [hcount]
  rw [if_neg (by omega)]
  exact enter_inv (s := { s with concurent_queries_ := s.concurent_queries_ + 1 }) (.unlock (some q) inner)
    (Locking.stay hlookup hinv.locking rfl rfl (hinv.locking.outer _ (Locking.phase_mem hlookup))) haccounts

/-- The counter goes down by one where a query is counted. -/
theorem returnResult_of_counted (q : ExecutedQuery) (hpos : 0 < s.concurent_queries_)
    (hbound : s.concurent_queries_ < 2 ^ 64) :
    s.returnResult q = { s with
      concurent_queries_ := s.concurent_queries_ - 1
      results := s.results ++
        [⟨q, decide ((q.registration, q.owner) ∈ s.handlers_), s.handlers_.lookup q.rid⟩] } := by
  have hcount : (s.concurent_queries_ + (2 ^ 64 - 1)) % 2 ^ 64 = s.concurent_queries_ - 1 := by omega
  rw [returnResult, hcount]

/-- A thread that is in a call goes on: one case for each phase. -/
theorem Inv.goOn (hinv : s.Inv) {phase : CallPhase} (hlookup : s.calls.lookup thread = some phase)
    (hbelow : s.BelowLimit max_concurent_queries (.goOn thread))
    (hstep : s.goOn max_concurent_queries thread phase = some s') : s'.Inv := by
  have haccounts := hinv.accounts_at hlookup
  have hothers := Locking.others_nodup hlookup hinv.locking
  have houter := hinv.locking.outer _ (Locking.phase_mem hlookup)
  rw [BelowLimit, hlookup] at hbelow
  cases phase with
  | lock scope inner =>
    by_cases hsync : s.sync_ = none
    · rw [QueryExecutor.goOn, guard_of hsync] at hstep
      cases hstep
      have hleave := Locking.leave hlookup hinv.locking rfl
      rw [hsync] at hleave
      refine enter_inv (s := { s with sync_ := some thread }) (.locked scope inner)
        (hleave.inside hothers.1 rfl houter) ?_
      cases scope <;> exact haccounts
    · rw [QueryExecutor.goOn, guard_of_not hsync] at hstep
      cases hstep
  | locked scope inner =>
    have hstay : ∀ query, Locking ((thread, .unlock query inner) :: s.others thread) s.sync_ := fun query =>
      Locking.stay hlookup hinv.locking rfl rfl houter
    cases scope with
    | registerHandler handler =>
      obtain ⟨b, hb, rfl⟩ := map_eq_some_iff.1 hstep
      obtain ⟨-, -, hb⟩ := Option.bind_eq_some_iff.1 hb
      cases hb
      have hnext : (s.next_result_handler_id_ + 1) % 2 ^ 64 = s.next_result_handler_id_ + 1 :=
        Nat.mod_eq_of_lt (by omega)
      refine enter_inv _ (hstay none) ?_
      rw [hnext]
      exact haccounts.register hbelow handler
    | unregisterHandler id =>
      obtain ⟨b, hb, rfl⟩ := map_eq_some_iff.1 hstep
      obtain ⟨-, -, hb⟩ := Option.bind_eq_some_iff.1 hb
      cases hb
      exact enter_inv _ (hstay none) (haccounts.unregister List.eraseP_sublist)
    | queueRPC q =>
      cases hstep
      exact hinv.queueRPC hlookup hbelow
    | returnResult q =>
      cases hstep
      have hpos : 0 < s.concurent_queries_ := by
        rw [haccounts.counted]
        exact Nat.succ_pos _
      rw [returnResult_of_counted q hpos haccounts.countBound]
      exact enter_inv _ (hstay none) haccounts.return_
  | unlock query inner =>
    obtain rfl : inner = false := houter
    have hrelease := Locking.release hlookup hinv.locking rfl
    cases query with
    | some q =>
      cases hstep
      exact enter_inv (s := { s with sync_ := none }) (.internalQueueRPC q)
        (hrelease.outside hothers.1 rfl rfl) haccounts
    | none =>
      cases hstep
      exact ⟨hrelease, haccounts⟩
  | internalQueueRPC q =>
    cases hstep
    refine ⟨Locking.leave hlookup hinv.locking rfl, haccounts.perm (List.Perm.refl _) ?_⟩
    have hmove : ((s.queries_ ++ [q]) ++ s.executed).Perm (q :: (s.queries_ ++ s.executed)) := by
      rw [append_assoc]
      exact perm_middle
    exact (hmove.append_left _).trans perm_middle

/-- An idle thread makes a call. The accounts are those with its query. -/
theorem startCall_inv (scope : LockedScope) (hlocking : Locking s.calls s.sync_)
    (haccounts : Accounts s.handlers_ s.next_result_handler_id_ s.concurent_queries_ s.nextQid
      ((CallPhase.lock scope false).queueing.toList ++ s.queueing)
      ((CallPhase.lock scope false).active.toList ++ s.active) s.results)
    (hstep : s.startCall thread scope = some s') : s'.Inv := by
  rw [startCall] at hstep
  by_cases hidle : s.calls.lookup thread = none
  · rw [guard_of hidle] at hstep
    cases hstep
    refine ⟨hlocking.start hidle scope, ?_⟩
    cases scope <;> exact haccounts
  · rw [guard_of_not hidle] at hstep
    cases hstep

/-- One event below the limit. -/
theorem step_inv (e : Event) (hinv : s.Inv) (hbelow : s.BelowLimit max_concurent_queries e)
    (hstep : step max_concurent_queries s e = some s') : s'.Inv := by
  cases e with
  | registerResultHandler thread handler => exact startCall_inv (.registerHandler handler) hinv.locking hinv.accounts hstep
  | unregisterResultHandler thread handler =>
    exact startCall_inv (.unregisterHandler (s.getResultHandlerID handler)) hinv.locking hinv.accounts hstep
  | queueRPC thread handler =>
    obtain ⟨_, hguard, hstart⟩ := Option.bind_eq_some_iff.1 hstep
    by_cases hregistered : (s.idOf handler, handler) ∈ s.handlers_
    · refine startCall_inv (.queueRPC _) ?_ ?_ hstart
      · exact hinv.locking
      · exact hinv.accounts.make hregistered hbelow
    · rw [guard_of_not hregistered] at hguard
      cases hguard
  | waitForQuery =>
    rw [step] at hstep
    cases hqueries : s.queries_ with
    | nil =>
      rw [hqueries] at hstep
      cases hstep
      exact hinv
    | cons q queries =>
      rw [hqueries] at hstep
      cases hstep
      refine ⟨hinv.locking, hinv.accounts.perm (List.Perm.refl _) ?_⟩
      rw [active, active, hqueries]
      exact perm_middle.append_left _
  | complete thread qid status =>
    obtain ⟨q, hfind, hstart⟩ := Option.bind_eq_some_iff.1 hstep
    have hmem : q ∈ s.executed := List.mem_of_find?_eq_some hfind
    have htake : (q :: (s.calls.filterMap (fun e => e.2.active) ++ (s.queries_ ++ s.executed.erase q))).Perm
        s.active := by
      rw [active, ← append_assoc, ← append_assoc]
      exact perm_middle.symm.trans ((List.perm_cons_erase hmem).symm.append_left _)
    refine startCall_inv (.returnResult _) ?_ ?_ hstart
    · exact hinv.locking
    · exact (hinv.accounts.perm (List.Perm.refl _) htake).complete status
  | goOn thread =>
    obtain ⟨_, hlookup, hgoOn⟩ := Option.bind_eq_some_iff.1 hstep
    exact hinv.goOn hlookup hbelow hgoOn

/-! ## Runs -/

/-- Below the limit the executor accounts for its lock, its counter and its queries in every run. -/
theorem accounted_below_limit (max_concurent_queries : UInt64) {events : List Event}
    (hbelow : Along (step max_concurent_queries) (BelowLimit max_concurent_queries) {} events)
    (hrun : run (step max_concurent_queries) {} events = some s) : s.Accounted :=
  Inv.accounted (run_invariant_along (fun _ e _ hinv hbelow hstep => step_inv e hinv hbelow hstep) init_inv hbelow hrun)

/-- A handler that is registered and makes a query, which a worker takes and completes. -/
def oneQuery : List Event :=
  [.registerResultHandler 0 7, .goOn 0, .goOn 0, .goOn 0, .queueRPC 0 7, .goOn 0, .goOn 0, .goOn 0, .goOn 0,
    .waitForQuery, .complete 1 0 .success, .goOn 1, .goOn 1, .goOn 1]

instance decidableBelowLimit (max_concurent_queries : UInt64) (s : QueryExecutor) (e : Event) :
    Decidable (s.BelowLimit max_concurent_queries e) := by
  unfold BelowLimit
  split
  · split <;> infer_instance
  · infer_instance
  · infer_instance
  · infer_instance

/-- With a limit of two the query is completed and its result delivered. -/
theorem oneQuery_accounted : ∃ s, run (step 2) {} oneQuery = some s ∧ s.results.length = 1 ∧ s.Accounted := by
  obtain ⟨s, hrun⟩ := isSome_iff_exists.1
    (show (run (step 2) {} oneQuery).isSome = true by decide +kernel)
  have hlength : (run (step 2) {} oneQuery).map (fun s => s.results.length) = some 1 := by decide +kernel
  rw [hrun] at hlength
  exact ⟨s, hrun, Option.some.inj hlength,
    accounted_below_limit 2 (show Along (step 2) (BelowLimit 2) {} oneQuery by decide +kernel) hrun⟩

/-- With a limit of one the first query is completed inside the locked scope of `QueueRPC`: its thread waits for the
lock that it holds. -/
theorem limit_locks_itself : ¬ ∀ (max_concurent_queries : UInt64) (events : List Event) (s : QueryExecutor),
      run (step max_concurent_queries) {} events = some s → s.Accounted := by
  intro h
  have hrun : ((run (step 1) {} (oneQuery.take 7)).map fun s => (s.calls, s.sync_)) =
      some ([(0, .lock (.returnResult ⟨0, 0, 7, 0, .serverBusy, false⟩) true)], some 0) := by decide +kernel
  obtain ⟨s, hs, hstate⟩ := map_eq_some_iff.1 hrun
  have hcalls : s.calls = [(0, .lock (.returnResult ⟨0, 0, 7, 0, .serverBusy, false⟩) true)] := congrArg Prod.fst hstate
  refine (h 1 _ s hs).noSelfLock 0 (.returnResult ⟨0, 0, 7, 0, .serverBusy, false⟩) true ?_ (congrArg Prod.snd hstate)
  rw [hcalls]
  exact mem_cons_self

end QueryExecutor

end Whispercast.Rpc
