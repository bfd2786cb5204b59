import Whispercast.Library.MarkedQueue
import Whispercast.Library.Run

/-!
# The fail-safe client

`FailSafeClient` (`http/failsafe_http_client.cc`), with what it sees of `ClientProtocol`: whether the connection is
there, and the requests whose callbacks it holds. A call is run step by step: the stack holds what is still to be done,
the innermost call first, so that a callback that is run in the middle of a call is part of the same steps. A
`PendingStruct` is known by the number of its request. `none` is the use of one that was deleted, or what cannot happen.
Left out: headers, and completion closures that call the client.
-/

namespace Whispercast.Http

open Library

/-- What a finalized request ends with. -/
inductive ClientError where
  | ok | connectError | connectTimeout | writeTimeout | readTimeout | connectionClosed | requestTimeout
  | dependencyFailure | tooManyRequests | httpParsingError | clientClose | tooManyRetries
  deriving DecidableEq

/-- `ClientProtocol`: `connection_ != NULL`, and the requests in `callback_map_`. -/
structure ClientProtocol where
  alive : Bool := true
  held : List Nat := []

/-- `PendingStruct`, with the `client_data` of its request. -/
structure PendingStruct where
  start_time_ : Int
  retries_left_ : Int
  client_data : MarkedQueue UInt8

/-- Who waits for the result of `InternalStartRequest`: nobody, `StartRequest`, or `RequeuePending` with the rest of its
old queue. -/
inductive Caller where
  | completionCallback
  | startRequest
  | requeuePending (old_queue : List Nat)

/-- What is still to be done.

* `internalStartRequest`, its loop over the clients at `i` with `min_id` and `min_load`, the same behind
  `ResolveAllRequestsWithError`, and its result for the caller.
* `CompletionCallback` of a request that ended with an error.
* `RequeuePending`, its outer and its inner loop.
* The destructor at client `i`, and the same behind `ResolveAllRequestsWithError`. -/
inductive Frame where
  | internalStartRequest (ps : Nat) (caller : Caller)
  | scan (ps : Nat) (caller : Caller) (i : Nat) (min : Option (Nat × Nat))
  | reopen (ps : Nat) (caller : Caller) (i : Nat) (min : Option (Nat × Nat))
  | result (sent : Bool) (caller : Caller)
  | completionCallback (ps : Nat) (error : ClientError)
  | requeuePending
  | requeueLoop (old_queue : List Nat)
  | moveLoop (old_queue : List Nat)
  | destroy (i : Nat)
  | deleteClient (i : Nat)

/-- The structs that a caller keeps. -/
def Caller.kept : Caller → List Nat
  | .requeuePending old_queue => old_queue
  | _ => []

/-- The structs of what is to be done, whose requests are with nobody. -/
def Frame.kept : Frame → List Nat
  | .internalStartRequest ps caller | .scan ps caller _ _ | .reopen ps caller _ _ => ps :: caller.kept
  | .result _ caller => caller.kept
  | .requeueLoop old_queue | .moveLoop old_queue => old_queue
  | _ => []

/-- The structs of what is to be done, whose requests come back. -/
def Frame.lent : Frame → List Nat
  | .completionCallback ps _ => [ps]
  | _ => []

/-- What `SendRequest` of a living client does: the request is held, or its callback is put into the selector's loop, or
the connection is lost at once. -/
inductive Sending where
  | hold | full | lose

/-- What a step does that others decide: `taken` bytes of the data of a request will be written, and the requests that
are resolved end with `errors`. -/
structure Answer where
  sending : Sending
  taken : Nat
  errors : Nat → ClientError

/-- The parameters of a client. -/
structure FailSafeConfig where
  num_retries_ : Int
  request_timeout_ms_ : Int
  reopen_connection_interval_ms_ : Int

/-- `FailSafeClient`: `deferred` are callbacks in the selector's loop, `completed` the requests whose completion closure
was run and whose struct was deleted, `sent` the data of each attempt, `data` those of each request at its start. -/
structure FailSafeClient where
  clients_ : List ClientProtocol
  death_time_ : List Int
  pending_requests_ : List Nat := []
  closing_ : Bool := false
  now : Int := 0
  structs : Nat → PendingStruct := fun _ => ⟨0, 0, MarkedQueue.empty⟩
  deferred : List Nat := []
  completed : List (Nat × ClientError) := []
  sent : List (Nat × List UInt8) := []
  data : Nat → MarkedQueue UInt8 := fun _ => MarkedQueue.empty
  added : Nat := 0
  destroyed : Bool := false
  stack : List Frame := []

namespace FailSafeClient

variable (config : FailSafeConfig) (s : FailSafeClient)

/-- The constructor. -/
def new (servers : Nat) : FailSafeClient where
  clients_ := List.replicate servers {}
  death_time_ := List.replicate servers 0

/-- What is to be done next. -/
def push (frames : List Frame) : FailSafeClient := { s with stack := frames ++ s.stack }

/-- A struct is read. -/
def deref (ps : Nat) : Option PendingStruct := if ps ∈ s.completed.map Prod.fst then none else some (s.structs ps)

/-- The completion closure is run, and the struct deleted. -/
def complete (ps : Nat) (error : ClientError) : FailSafeClient := { s with completed := s.completed ++ [(ps, error)] }

def setStruct (ps : Nat) (p : PendingStruct) : FailSafeClient := { s with structs := Function.update s.structs ps p }

def setClient (i : Nat) (client : ClientProtocol) : FailSafeClient := { s with clients_ := s.clients_.set i client }

/-- The request has waited too long. -/
def timedOut (p : PendingStruct) : Bool := config.request_timeout_ms_ < s.now - p.start_time_

/-- The callbacks of requests. -/
def callbacks (requests : List Nat) (errors : Nat → ClientError) : List Frame :=
  requests.map fun ps => .completionCallback ps (errors ps)

/-- The end of `InternalStartRequest` with a client, and `SendRequest`. -/
def sendRequest (answer : Answer) (ps : Nat) (caller : Caller) (min_id : Nat) : Option FailSafeClient := do
  let p ← s.deref ps
  let client ← s.clients_[min_id]?
  let marked := p.client_data.markSet
  let p := { p with retries_left_ := p.retries_left_ - 1 }
  let s := { s with sent := s.sent ++ [(ps, marked.readable)] }
  if client.alive then
    match answer.sending with
    | .hold =>
      some (((s.setStruct ps { p with client_data := marked.pop answer.taken }).setClient min_id
        { client with held := client.held ++ [ps] }).push [.result true caller])
    | .full =>
      let s := s.setStruct ps { p with client_data := marked }
      some ({ s with deferred := s.deferred ++ [ps] }.push [.result true caller])
    | .lose =>
      some (((s.setStruct ps { p with client_data := marked.pop answer.taken }).setClient min_id ⟨false, []⟩).push
        (callbacks (client.held ++ [ps]) answer.errors ++ [.result true caller]))
  else
    some ((s.setStruct ps { p with client_data := marked }).push
      [.completionCallback ps .connectionClosed, .result true caller])

/-- One step of what is to be done. -/
def exec (answer : Answer) : Frame → Option FailSafeClient
  | .internalStartRequest ps caller => do
      let p ← s.deref ps
      if s.timedOut config p then some ((s.complete ps .requestTimeout).push [.result true caller])
      else if p.retries_left_ ≤ 0 then some ((s.complete ps .tooManyRetries).push [.result true caller])
      else some (s.push [.scan ps caller 0 none])
  | .scan ps caller i min =>
    match s.clients_[i]? with
    | some client =>
      if client.alive then
        let load := client.held.length
        let min := if min.all (fun m => load < m.2) then some (i, load) else min
        some (s.push [.scan ps caller (i + 1) min])
      else if config.reopen_connection_interval_ms_ < s.now - s.death_time_.getD i 0 then
        some ((s.setClient i { client with held := [] }).push
          (callbacks client.held answer.errors ++ [.reopen ps caller i min]))
      else some (s.push [.scan ps caller (i + 1) min])
    | none =>
      match min with
      | some (min_id, _) => s.sendRequest answer ps caller min_id
      | none =>
        some ({ s with pending_requests_ := s.pending_requests_ ++ [ps] }.push [.result false caller])
  | .reopen ps caller i min =>
    some ({ s.setClient i {} with death_time_ := s.death_time_.set i s.now }.push [.scan ps caller (i + 1) min])
  | .result _ .completionCallback => some s
  | .result sent .startRequest => some (if sent then s.push [.requeuePending] else s)
  | .result sent (.requeuePending old_queue) =>
    some (s.push [if sent then .requeueLoop old_queue else .moveLoop old_queue])
  | .completionCallback ps error => do
      let p ← s.deref ps
      if s.closing_ ∨ error = .ok then some (s.complete ps error)
      else
        some ((s.setStruct ps { p with client_data := p.client_data.markRestore }).push
          [.internalStartRequest ps .completionCallback])
  | .requeuePending =>
    if s.pending_requests_ = [] then some s
    else some ({ s with pending_requests_ := [] }.push [.requeueLoop s.pending_requests_])
  | .requeueLoop [] => some s
  | .requeueLoop (ps :: old_queue) => some (s.push [.internalStartRequest ps (.requeuePending old_queue)])
  | .moveLoop [] => some s
  | .moveLoop (ps :: old_queue) => do
      let p ← s.deref ps
      -- the front stays in the old queue, whatever is done with it
      if s.timedOut config p then some ((s.complete ps .requestTimeout).push [.moveLoop (ps :: old_queue)])
      else
        some ({ s with pending_requests_ := s.pending_requests_ ++ [ps] }.push [.moveLoop (ps :: old_queue)])
  | .destroy i =>
    match s.clients_[i]? with
    | some client =>
      some ((s.setClient i { client with held := [] }).push
        (callbacks client.held answer.errors ++ [.deleteClient i]))
    | none =>
      some { s with
        completed := s.completed ++ s.pending_requests_.map fun ps => (ps, .clientClose)
        pending_requests_ := []
        destroyed := true }
  | .deleteClient i => some ((s.setClient i ⟨false, []⟩).push [.destroy (i + 1)])

/-- What happens: calls and callbacks from outside, which come when nothing is left to be done, and steps of what is to
be done. -/
inductive Event where
  | startRequest (data : MarkedQueue UInt8)
  | requeuePendingAlarm
  | completed (i ps : Nat) (error : ClientError)
  | died (i : Nat) (errors : Nat → ClientError)
  | selectLoop (ps : Nat)
  | tick (now : Int)
  | destructor
  | go (answer : Answer)

/-- The start of what comes from outside. -/
def call : Event → Option FailSafeClient
  | .startRequest data =>
    some ({ s with
      structs := Function.update s.structs s.added ⟨s.now, config.num_retries_, data⟩
      data := Function.update s.data s.added data
      added := s.added + 1 }.push [.internalStartRequest s.added .startRequest])
  | .requeuePendingAlarm => some (s.push [.requeuePending])
  | .completed i ps error => do
      let client ← s.clients_[i]?
      guard (ps ∈ client.held)
      some ((s.setClient i { client with held := client.held.erase ps }).push [.completionCallback ps error])
  | .died i errors => do
      let client ← s.clients_[i]?
      some ((s.setClient i ⟨false, []⟩).push (callbacks client.held errors))
  | .selectLoop ps => do
      guard (ps ∈ s.deferred)
      some ({ s with deferred := s.deferred.erase ps }.push [.completionCallback ps .tooManyRequests])
  | .tick now => some { s with now := now }
  | .destructor => some ({ s with closing_ := true }.push [.destroy 0])
  | .go _ => none

/-- One step. -/
def step (event : Event) : Option FailSafeClient :=
  match s.stack, event with
  | frame :: stack, .go answer => { s with stack := stack }.exec config answer frame
  | [], event => if s.closing_ then none else s.call config event
  | _ :: _, _ => none

/-! ## What is to be shown -/

/-- The structs that are with the client itself. -/
def kept : List Nat := s.stack.flatMap Frame.kept ++ s.pending_requests_

/-- The structs whose requests are with a `ClientProtocol` or on the way back. -/
def lent : List Nat := s.stack.flatMap Frame.lent ++ (s.clients_.flatMap ClientProtocol.held ++ s.deferred)

/-- A request that has to wait is the last one of the queue, and no callback waits in the selector's loop when the
client is destroyed. -/
def Spared : Event → Prop
  | .go _ =>
    match s.stack with
    | .result false (.requeuePending (_ :: _)) :: _ => False
    | _ => True
  | .destructor => s.deferred = []
  | _ => True

instance decidableSpared : ∀ event, Decidable (s.Spared event)
  | .go _ =>
    match h : s.stack with
    | .result false (.requeuePending (_ :: _)) :: _ => .isFalse (by simp [Spared, h])
    | _ => by
        rw [Spared]
        split <;> infer_instance
  | .destructor => inferInstanceAs (Decidable (s.deferred = []))
  | .startRequest _ | .requeuePendingAlarm | .completed .. | .died .. | .selectLoop _ | .tick _ => .isTrue trivial

/-- What holds of every state.

* Every struct is in one place, and none of them is deleted; every completion closure was run at most once.
* Behind the destructor, the completion closure of every request was run.
* Every attempt sent the data of the request.
* A call goes on until nothing is left to be done, and it ends. -/
structure Fine : Prop where
  once : (s.kept ++ s.lent ++ s.completed.map Prod.fst).Nodup
  finished : s.destroyed = true → s.stack = [] → ∀ ps, ps < s.added → ps ∈ s.completed.map Prod.fst
  same_data : ∀ e ∈ s.sent, e.2 = (s.data e.1).readable
  goes_on : s.stack ≠ [] → ∀ answer, s.Spared (.go answer) → ∃ s', s.step config (.go answer) = some s'
  ends : ∀ (states : Nat → FailSafeClient) (answers : Nat → Answer), states 0 = s →
    ¬ ∀ n, (states n).Spared (.go (answers n)) ∧ (states n).step config (.go (answers n)) = some (states (n + 1))

end FailSafeClient

end Whispercast.Http
