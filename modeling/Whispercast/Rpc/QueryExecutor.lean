import Whispercast.Library.Run
import Whispercast.Rpc.Message

/-!
# The executor of queries

Model of `IAsyncQueryExecutor` (`rpc/lib/server/irpc_async_query_executor.cc`) with the queue of `ExecutionPool`. A
thread that is in a call of the executor is in some phase of it: it is about to lock `sync_`, it is inside the locked
scope, or it is about to leave it. `sync_` is not reentrant, so nobody passes who holds it already. The handlers of the
library only queue closures in `HandleRPCResult`. Left out: what a query asks for, and the worker threads' own event.
-/

namespace Whispercast.Rpc

open Library

/-- A query, as far as the executor looks at it, and who made it: the handler `owner`, when its id was `registration`.
`qid` tells queries apart, and `atLimit` says that the limit was reached when the query was queued. -/
structure ExecutedQuery where
  qid : Nat
  /-- `rid_`, a `uint32`. -/
  rid : Nat
  owner : Nat
  registration : Nat
  status : ReplyStatus := .success
  atLimit : Bool := false
  deriving DecidableEq

/-- What `ReturnResult` did with a query: the handler to which it was delivered, and whether the one that made it was
still registered. -/
structure ReturnedResult where
  query : ExecutedQuery
  registered : Bool
  deliveredTo : Option Nat

/-- A locked scope of the executor. `UnregisterResultHandler` has read the id of the handler before. -/
inductive LockedScope where
  | registerHandler (handler : Nat)
  | unregisterHandler (id : Nat)
  | queueRPC (query : ExecutedQuery)
  | returnResult (query : ExecutedQuery)
  deriving DecidableEq

/-- Where a thread is in a call. In an `inner` scope it is inside the locked scope of `QueueRPC`. -/
inductive CallPhase where
  | lock (scope : LockedScope) (inner : Bool)
  | locked (scope : LockedScope) (inner : Bool)
  /-- The end of a scope; `query` is handed to `InternalQueueRPC` behind it. -/
  | unlock (query : Option ExecutedQuery) (inner : Bool)
  | internalQueueRPC (query : ExecutedQuery)
  deriving DecidableEq

/-- `IAsyncQueryExecutor`, the handlers' ids, the threads that are in a call, the queries that wait for a worker
(`queries_`) and those that are executed. -/
structure QueryExecutor where
  handlers_ : List (Nat × Nat) := []
  next_result_handler_id_ : Nat := 0
  concurent_queries_ : Nat := 0
  /-- The thread that holds `sync_`. -/
  sync_ : Option Nat := none
  resultHandlerID_ : List (Nat × Nat) := []
  calls : List (Nat × CallPhase) := []
  queries_ : List ExecutedQuery := []
  executed : List ExecutedQuery := []
  nextQid : Nat := 0
  results : List ReturnedResult := []

namespace QueryExecutor

/-- The other threads that are in a call. -/
def others (s : QueryExecutor) (thread : Nat) : List (Nat × CallPhase) := s.calls.eraseP fun e => e.1 == thread

/-- A thread goes on to a phase. -/
def enter (s : QueryExecutor) (thread : Nat) (phase : CallPhase) : QueryExecutor :=
  { s with calls := (thread, phase) :: s.others thread }

/-- A thread returns from its call. -/
def leave (s : QueryExecutor) (thread : Nat) : QueryExecutor := { s with calls := s.others thread }

/-- `GetResultHandlerID`, which returns a `uint32`. -/
def getResultHandlerID (s : QueryExecutor) (handler : Nat) : Nat := ((s.resultHandlerID_.lookup handler).getD 0) % 2 ^ 32

/-- The id of a handler. -/
def idOf (s : QueryExecutor) (handler : Nat) : Nat := (s.resultHandlerID_.lookup handler).getD 0

/-- The locked scope of `RegisterResultHandler`. -/
def registerHandler (s : QueryExecutor) (handler : Nat) : Option QueryExecutor := do
  let id := s.next_result_handler_id_
  guard (s.handlers_.lookup id = none)
  some { s with
    next_result_handler_id_ := (id + 1) % 2 ^ 64
    resultHandlerID_ := (handler, id) :: s.resultHandlerID_
    handlers_ := (id, handler) :: s.handlers_ }

/-- The locked scope of `UnregisterResultHandler`. -/
def unregisterHandler (s : QueryExecutor) (id : Nat) : Option QueryExecutor := do
  guard (s.handlers_.lookup id ≠ none)
  some { s with handlers_ := s.handlers_.eraseP fun e => e.1 == id }

/-- The locked scope of `QueueRPC`, for a thread: above the limit the query is completed at once, and the completion
callback is `ReturnResult`. -/
def queueRPC (max_concurent_queries : UInt64) (s : QueryExecutor) (thread : Nat) (inner : Bool) (q : ExecutedQuery) :
    QueryExecutor :=
  let q := { q with atLimit := decide (max_concurent_queries.toNat ≤ s.concurent_queries_) }
  let s := { s with concurent_queries_ := (s.concurent_queries_ + 1) % 2 ^ 64 }
  if max_concurent_queries.toNat ≤ s.concurent_queries_ then
    s.enter thread (.lock (.returnResult { q with status := .serverBusy }) true)
  else s.enter thread (.unlock (some q) inner)

/-- The locked scope of `ReturnResult`. -/
def returnResult (s : QueryExecutor) (q : ExecutedQuery) : QueryExecutor :=
  { s with
    concurent_queries_ := (s.concurent_queries_ + (2 ^ 64 - 1)) % 2 ^ 64
    results := s.results ++
      [⟨q, decide ((q.registration, q.owner) ∈ s.handlers_), s.handlers_.lookup q.rid⟩] }

/-- A thread that is in a call goes on. It is `none` where it cannot, and where a `CHECK` fails. -/
def goOn (max_concurent_queries : UInt64) (s : QueryExecutor) (thread : Nat) : CallPhase → Option QueryExecutor
  | .lock scope inner => do
      guard (s.sync_ = none)
      some { s.enter thread (.locked scope inner) with sync_ := some thread }
  | .locked (.registerHandler handler) inner =>
    (s.registerHandler handler).map fun s => s.enter thread (.unlock none inner)
  | .locked (.unregisterHandler id) inner => (s.unregisterHandler id).map fun s => s.enter thread (.unlock none inner)
  | .locked (.queueRPC q) inner => some (s.queueRPC max_concurent_queries thread inner q)
  | .locked (.returnResult q) inner => some ((s.returnResult q).enter thread (.unlock none inner))
  | .unlock query inner =>
    let s := { s with sync_ := none }
    match inner, query with
    | true, _ => some (s.enter thread (.unlock none false))
    | false, some q => some (s.enter thread (.internalQueueRPC q))
    | false, none => some (s.leave thread)
  | .internalQueueRPC q => some { s.leave thread with queries_ := s.queries_ ++ [q] }

/-- What can happen. -/
inductive Event where
  | registerResultHandler (thread handler : Nat)
  | unregisterResultHandler (thread handler : Nat)
  /-- A registered handler makes a query and queues it. -/
  | queueRPC (thread handler : Nat)
  /-- A worker takes the first query of the queue. -/
  | waitForQuery
  /-- A query that is executed is completed by some thread. -/
  | complete (thread qid : Nat) (status : ReplyStatus)
  | goOn (thread : Nat)

/-- An idle thread makes a call. -/
def startCall (s : QueryExecutor) (thread : Nat) (scope : LockedScope) : Option QueryExecutor := do
  guard (s.calls.lookup thread = none)
  some { s with calls := (thread, .lock scope false) :: s.calls }

/-- One event. -/
def step (max_concurent_queries : UInt64) (s : QueryExecutor) : Event → Option QueryExecutor
  | .registerResultHandler thread handler => s.startCall thread (.registerHandler handler)
  | .unregisterResultHandler thread handler => s.startCall thread (.unregisterHandler (s.getResultHandlerID handler))
  | .queueRPC thread handler => do
      guard ((s.idOf handler, handler) ∈ s.handlers_)
      let q : ExecutedQuery :=
        { qid := s.nextQid, rid := s.getResultHandlerID handler, owner := handler, registration := s.idOf handler }
      ({ s with nextQid := s.nextQid + 1 } : QueryExecutor).startCall thread (.queueRPC q)
  | .waitForQuery =>
    match s.queries_ with
    | [] => some s
    | q :: queries => some { s with queries_ := queries, executed := q :: s.executed }
  | .complete thread qid status => do
      let q ← s.executed.find? fun q => q.qid == qid
      ({ s with executed := s.executed.erase q } : QueryExecutor).startCall thread (.returnResult { q with status := status })
  | .goOn thread => do
      let phase ← s.calls.lookup thread
      s.goOn max_concurent_queries thread phase

end QueryExecutor

end Whispercast.Rpc
