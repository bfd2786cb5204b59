import Whispercast.Rpc.CodecRoundTrip
import Whispercast.Library.MessageStream
import Whispercast.Library.Run

/-!
# An RPC connection

A client (`rpc::ClientConnectionTCP`) and a server (`rpc::ServerConnection`) that have done their handshake, with what
is under way between them. The bytes that one side has put out arrive at the other side in pieces of any size, and
each piece makes the read handler run. The server hands the calls to an executor and writes the replies when the
selector runs the callbacks that `WriteReply` leaves.

`CallbackSendRPCPacket` calls `Encode` with a pointer to the message. There is no overload for pointers to messages, so
the pointer is converted to `bool`, and what is written for a reply is the encoding of `true`.
-/

namespace Whispercast.Rpc

open Io Library

/-- `rpc::Query`, as it is queued for execution. -/
structure Query where
  qid : UInt32
  service : Bytes
  method : Bytes
  params : Bytes
  deriving DecidableEq

/-! ## The server -/

/-- The members of `rpc::ServerConnection`, the buffers of its connection and the callbacks that wait in the selector.
`queued` are the queries that the executor has taken. -/
structure ServerConnection where
  inbuf : Bytes := []
  decoder : DecoderState := {}
  outbuf : Bytes := []
  callbacks : List Message := []
  queued : List Query := []
  connected : Bool := true

/-- `IAsyncQueryExecutor`: whether `QueueRPC` takes a query, and the text of the last error when it does not. -/
structure Executor where
  queueRPC : Query → Bool
  lastError : Bytes := []

namespace ServerConnection

/-- `WriteReply`: the message is left for the selector. -/
def writeReply (s : ServerConnection) (xid : UInt32) (status : ReplyStatus) (result : Bytes) : ServerConnection :=
  { s with
    callbacks := s.callbacks ++
      [{ header := ⟨xid.toInt32, .reply⟩, rbody := { replyStatus := status, result := result } }] }

def protocolHandleMessage (codec : CodecId) (executor : Executor) (s : ServerConnection) (p : Message) :
    ServerConnection :=
  match p.header.msgType with
  | .reply => s
  | .call =>
    let xid := p.header.xid.toUInt32
    let query : Query := ⟨xid, p.cbody.service, p.cbody.method, p.cbody.params⟩
    if executor.queueRPC query then { s with queued := s.queued ++ [query] }
    else s.writeReply xid .systemErr (codec.encoder.encodeString executor.lastError)

/-- `ConnectionReadHandler` on the buffer. With invalid data the connection is closed. -/
def connectionReadHandler (codec : CodecId) (executor : Executor) (s : ServerConnection) : ServerConnection :=
  let (s', decoder, inbuf, ok) := receive (Message.serializeLoad codec.decoder) .notEnoughData
    (protocolHandleMessage codec executor) s.inbuf.length s s.decoder s.inbuf
  { s' with decoder := decoder, inbuf := inbuf, connected := s.connected && ok }

/-- `CallbackSendRPCPacket` for the first callback that waits. The argument of `Encode` is the pointer. -/
def callbackSendRPCPacket (codec : CodecId) (s : ServerConnection) : ServerConnection :=
  match s.callbacks with
  | [] => s
  | _ :: callbacks =>
    if s.connected then
      { s with callbacks := callbacks, outbuf := s.outbuf ++ codec.encoder.encodeBool true }
    else { s with callbacks := callbacks }

end ServerConnection

/-! ## The client -/

/-- `ClientQuery`: a message and its encoding. -/
structure ClientQuery where
  msg : Message
  buf : Bytes

/-- The members of `rpc::ClientConnectionTCP` that take part, and the buffers of its connection. `completed` are the
calls of `CompleteQuery` for replies, and `failed` those of `NotifySendFailed`. -/
structure ClientConnection where
  queries : List (UInt32 × ClientQuery) := []
  outbuf : Bytes := []
  inbuf : Bytes := []
  completed : List (UInt32 × ReplyStatus × Bytes) := []
  failed : List (UInt32 × ReplyStatus) := []
  connected : Bool := true

namespace ClientConnection

/-- `SendPacket` on an open connection; the `CHECK` is about the transaction number. -/
def sendPacket (codec : CodecId) (maxParalelQueries : Nat) (c : ClientConnection) (p : Message) :
    Option ClientConnection :=
  let xid := p.header.xid.toUInt32
  if maxParalelQueries ≤ c.queries.length then
    some { c with failed := c.failed ++ [(xid, .tooManyQueries)] }
  else do
    guard (xid ∉ AssocList.keys c.queries)
    some { c with queries := AssocList.setSorted xid ⟨p, p.serializeSave codec.encoder⟩ c.queries }

/-- `ConnectionWriteHandler`: all queries are written, the one with the smallest number first. -/
def connectionWriteHandler (c : ClientConnection) : ClientConnection :=
  { c with queries := [], outbuf := c.outbuf ++ c.queries.flatMap fun q => q.2.buf }

def handleResponse (c : ClientConnection) (msg : Message) : ClientConnection :=
  match msg.header.msgType with
  | .call => c
  | .reply =>
    { c with completed := c.completed ++ [(msg.header.xid.toUInt32, msg.rbody.replyStatus, msg.rbody.result)] }

/-- `ConnectionReadHandler` on the buffer; each message is read by a new decoder. -/
def connectionReadHandler (codec : CodecId) (c : ClientConnection) : ClientConnection :=
  let (c', _, inbuf, ok) := receive (fun _ => Message.serializeLoad codec.decoder {}) .notEnoughData
    handleResponse c.inbuf.length c {} c.inbuf
  { c' with inbuf := inbuf, connected := c.connected && ok }

end ClientConnection

/-! ## Both together -/

/-- Both sides. `sent` tells which calls the client has taken for sending. -/
structure Link where
  codec : CodecId
  maxParalelQueries : Nat
  client : ClientConnection := {}
  server : ServerConnection := {}
  sent : List Message := []

/-- What can happen. -/
inductive Event where
  /-- The client sends a call. -/
  | sendQuery (xid : Int32) (service method params : Bytes)
  /-- The client may write. -/
  | clientWrite
  /-- Bytes arrive at the server. -/
  | serverRead (size : Nat) (executor : Executor)
  /-- The executor has completed a query. -/
  | handleRPCResult (qid : UInt32) (status : ReplyStatus) (result : Bytes)
  /-- The selector runs a callback of the server. -/
  | serverCallback
  /-- Bytes arrive at the client. -/
  | clientRead (size : Nat)

/-- The message of `SendQuery`. -/
def callMessage (xid : Int32) (service method params : Bytes) : Message where
  header := ⟨xid, .call⟩
  cbody := ⟨service, method, params⟩

/-- One event. A connection that is closed reads nothing. -/
def Link.step (l : Link) : Event → Option Link
  | .sendQuery xid service method params => do
      let p := callMessage xid service method params
      let client ← l.client.sendPacket l.codec l.maxParalelQueries p
      some { l with
        client := client
        sent := if l.maxParalelQueries ≤ l.client.queries.length then l.sent else l.sent ++ [p] }
  | .clientWrite => some { l with client := l.client.connectionWriteHandler }
  | .serverRead size executor => do
      guard l.server.connected
      let server := { l.server with inbuf := l.server.inbuf ++ l.client.outbuf.take size }
      some { l with
        client := { l.client with outbuf := l.client.outbuf.drop size }
        server := server.connectionReadHandler l.codec executor }
  | .handleRPCResult qid status result => some { l with server := l.server.writeReply qid status result }
  | .serverCallback => some { l with server := l.server.callbackSendRPCPacket l.codec }
  | .clientRead size => do
      guard l.client.connected
      let client := { l.client with inbuf := l.client.inbuf ++ l.server.outbuf.take size }
      some { l with
        server := { l.server with outbuf := l.server.outbuf.drop size }
        client := client.connectionReadHandler l.codec }

/-- Behind the handshake. -/
def Link.start (codec : CodecId) (maxParalelQueries : Nat) : Link where
  codec := codec
  maxParalelQueries := maxParalelQueries

end Whispercast.Rpc
