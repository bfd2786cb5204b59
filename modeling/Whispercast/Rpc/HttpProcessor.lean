import Whispercast.Rpc.Connection

/-!
# RPC over HTTP

Model of `HttpProcessor` (`rpc/lib/server/rpc_http_processor.cc`) behind the decoding of a request. The executor gives
back the result of a query at any time, also while `QueueRPC` is running, and the reply is sent by a closure in the
selector. A request is known by its address; the map of the requests in execution has keys of 32 bits. Left out: the
checks that are answered at once, transport, and compression.
-/

namespace Whispercast.Rpc

open Io Library Http

/-- `http::ServerRequest`: its address, what it asks for, what will be sent, and how many requests came before it. -/
structure ServerRequest where
  address : UInt64
  codec : CodecId
  call : Message
  number : Nat
  server_data : Bytes := []
  contentType : Option Bytes := none

structure RpcRequest where
  req_ : UInt64
  codec_ : CodecId
  xid_ : UInt32

/-- `HttpProcessor`, with the request for which `QueueRPC` is running, the queries that the executor has, by the numbers
of their requests, the closures in the selector, and the requests by their addresses. What was given back by the
executor, and what was replied, is recorded. -/
structure HttpProcessor where
  requests_in_execution_ : List (UInt32 × RpcRequest) := []
  queueing : Option (Nat × UInt64) := none
  queries : List (Nat × Query) := []
  closures : List (UInt64 × HttpReturnCode) := []
  requests : List (UInt64 × ServerRequest) := []
  arrived : Nat := 0
  returned : List (Nat × ReplyStatus × Bytes) := []
  answered : List (ServerRequest × HttpReturnCode) := []

namespace HttpProcessor

/-- The content type for a codec. -/
def contentType : CodecId → Bytes
  | .json => ascii "application/json"
  | .binary => ascii "application/octet-stream"

/-- `ReplyWithStatus`, on a request that is there. -/
def replyWithStatus (s : HttpProcessor) (address : UInt64) (code : HttpReturnCode) : Option HttpProcessor := do
  let req ← s.requests.lookup address
  some { s with
    requests := s.requests.eraseP fun e => e.1 == address
    answered := s.answered ++ [(req, code)] }

/-- `CallbackProcessHttpRequestAuthorized`, from the check of the type on, up to the call of `QueueRPC`. The id of a
query has 32 bits. -/
def processHttpRequest (s : HttpProcessor) (address : UInt64) (codec : CodecId) (p : Message) : Option HttpProcessor :=
  let req : ServerRequest := ⟨address, codec, p, s.arrived, [], none⟩
  let s := { s with arrived := s.arrived + 1 }
  if p.header.msgType ≠ .call then
    some { s with answered := s.answered ++ [({ req with server_data := ascii "Ignoring no-CALL message!" }, .badRequest)] }
  else do
    let qid := address.toUInt32
    guard (s.requests_in_execution_.lookup qid = none)
    some { s with
      requests_in_execution_ := (qid, ⟨address, codec, p.header.xid.toUInt32⟩) :: s.requests_in_execution_
      requests := (address, req) :: s.requests
      queries := s.queries ++ [(req.number, ⟨qid, p.cbody.service, p.cbody.method, p.cbody.params⟩)]
      queueing := some (req.number, address) }

/-- `CallbackProcessHttpRequestAuthorized`, where `QueueRPC` has returned `false`. -/
def queueFailed (s : HttpProcessor) (number : Nat) (address : UInt64) : Option HttpProcessor :=
  replyWithStatus { s with
    queueing := none
    queries := s.queries.eraseP fun e => e.1 == number
    requests_in_execution_ := s.requests_in_execution_.eraseP fun e => e.1 == address.toUInt32 }
    address .internalServerError

def writeReply (s : HttpProcessor) (qid : UInt32) (status : ReplyStatus) (result : Bytes) : Option HttpProcessor := do
  let ereq ← s.requests_in_execution_.lookup qid
  let req ← s.requests.lookup ereq.req_
  let p : Message := { header := ⟨ereq.xid_.toInt32, .reply⟩, rbody := ⟨status, result⟩ }
  some { s with
    requests_in_execution_ := s.requests_in_execution_.eraseP fun e => e.1 == qid
    requests := (ereq.req_, { req with
      server_data := req.server_data ++ p.serializeSave ereq.codec_.encoder
      contentType := some (contentType ereq.codec_) }) :: s.requests.eraseP fun e => e.1 == ereq.req_
    closures := s.closures ++ [(ereq.req_, .ok)] }

/-- What happens. -/
inductive Event where
  /-- A message has been decoded from the request at this address. -/
  | request (address : UInt64) (codec : CodecId) (p : Message)
  /-- `QueueRPC` returns. -/
  | queued (success : Bool)
  /-- The executor gives back the result of one of its queries. -/
  | result (i : Nat) (status : ReplyStatus) (result : Bytes)
  /-- The selector runs the next closure. -/
  | reply

/-- One step. Two requests that are there have different addresses, and the executor does not keep a query that it has
refused; what does not happen in a state changes nothing. -/
def step (s : HttpProcessor) : Event → Option HttpProcessor
  | .request address codec p =>
    if s.queueing = none ∧ s.requests.lookup address = none then s.processHttpRequest address codec p else some s
  | .queued success =>
    match s.queueing with
    | none => some s
    | some (number, address) =>
      if success then some { s with queueing := none }
      else if (s.queries.lookup number).isSome then s.queueFailed number address
      else some s
  | .result i status result =>
    match s.queries[i]? with
    | none => some s
    | some (number, q) =>
      writeReply { s with
        queries := s.queries.eraseIdx i
        returned := s.returned ++ [(number, status, result)] } q.qid status result
  | .reply =>
    match s.closures with
    | [] => some s
    | (address, code) :: closures =>
      if s.queueing = none then replyWithStatus { s with closures := closures } address code else some s

end HttpProcessor

end Whispercast.Rpc
