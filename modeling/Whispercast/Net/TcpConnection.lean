import Whispercast.Io.DataBlock
import Whispercast.Library.Run

/-!
# TCP connections

Model of `net::TcpConnection` (`net/base/connection.cc`) with what the selector checks for it
(`net/base/selector.cc`) and the answers of the resolver (`net/base/dns_resolver.cc`). A `CHECK` that fails is `none`.

The application acts on the connection from outside, or from inside a handler. What it does there is a `Script`, so
`Script.run` and the functions that run handlers call each other as they do in the source: `ForceClose` inside a
handler runs the close handler, and then the function that had run the first handler goes on.
-/

namespace Whispercast.Net

open Library Io

inductive State where
  | disconnected
  | resolving
  | connecting
  | connected
  | flushing
  deriving DecidableEq

/-- `NetConnection::CloseWhat`, as the close handler gets it. -/
inductive CloseWhat where
  | closeRead
  | closeReadWrite
  deriving DecidableEq

/-- A handler that was run. -/
inductive Notification where
  | connect
  | read
  | write
  | close (what : CloseWhat)
  deriving DecidableEq

/-- Where the query for the address is: nowhere, in the resolver's queue, or answered by a closure that the selector
has not run yet. -/
inductive DnsQuery where
  | none
  | queued
  | returned
  deriving DecidableEq

/-- Why the connection ended. -/
inductive Cause where
  /-- An error on the socket, or `RDHUP` with nothing to read, which is treated as one. -/
  | error
  | hangUp
  | forceClose
  | lingerTimeout
  /-- A handler returned false. -/
  | handler
  /-- There was no address, or no connection to it could be started. -/
  | unresolved

/-- `TcpConnection`, and what has been seen of it. -/
structure TcpConnection where
  state : State := .disconnected
  /-- `fd_ != INVALID_FD_VALUE`. -/
  fd : Bool := false
  /-- `registered_selector() != NULL`. -/
  registered : Bool := false
  read_closed : Bool := true
  write_closed : Bool := true
  inbuf : Bytes := []
  outbuf : Bytes := []
  /-- The timeout `kShutdownTimeoutId` is set. -/
  lingering : Bool := false
  query : DnsQuery := .none
  /-- All that was put into `outbuf`. -/
  put : Bytes := []
  /-- All that was given to the kernel. -/
  sent : Bytes := []
  notified : List Notification := []
  /-- `FlushAndClose` was called while there was a socket. -/
  asked : Bool := false
  /-- What had been put into `outbuf` when the write half was shut down. -/
  flushed : Option Bytes := none
  /-- A `HUP` has come. -/
  hungUp : Bool := false
  ended : Option Cause := none

/-- What the application does from outside, or in one run of a handler: it takes bytes from `inbuf`, writes to
`outbuf` and requests write events, closes the connection, and returns. `onClose` is what its close handler does if
`ForceClose` runs it. -/
inductive Script where
  | ret (result : Bool)
  | take (n : Nat) (k : Script)
  | write (data : Bytes) (k : Script)
  | flushAndClose (k : Script)
  | forceClose (onClose : Script) (k : Script)

namespace TcpConnection

/-- `RequestWriteEvents`, `RequestReadEvents`: `Selector::UpdateDesire` checks that the connection is registered. -/
def updateDesire (c : TcpConnection) : Option TcpConnection :=
  if c.registered = true then some c else none

/-- `Close(CLOSE_WRITE)`. -/
def close (c : TcpConnection) : Option TcpConnection :=
  if c.fd = false then
    if c.state = .disconnected then some c else none
  else if c.write_closed = true then some c
  else updateDesire { c with state := .flushing }

def flushAndClose (c : TcpConnection) : Option TcpConnection :=
  close { c with asked := c.asked || c.fd }

/-- `outbuf()->Write` and `RequestWriteEvents(true)`. -/
def write (data : Bytes) (c : TcpConnection) : Option TcpConnection :=
  updateDesire { c with outbuf := c.outbuf ++ data, put := c.put ++ data }

def invokeCloseHandler (closeHandler : TcpConnection → Option (Bool × TcpConnection)) (what : CloseWhat)
    (c : TcpConnection) : Option TcpConnection :=
  (closeHandler { c with notified := c.notified ++ [.close what] }).map Prod.snd

/-- What `InternalClose` makes of a connection that is not closed. `DnsCancel` has no effect on an answer that is
under way. -/
def closed (why : Cause) (c : TcpConnection) : TcpConnection :=
  { c with
    fd := false, registered := false, query := if c.query = .queued then .none else c.query, state := .disconnected,
    read_closed := true, write_closed := true, lingering := false, inbuf := [], outbuf := [], ended := some why }

/-- `InternalClose`. `Selector::Unregister` checks that the connection is registered. -/
def internalClose (closeHandler : TcpConnection → Option (Bool × TcpConnection)) (why : Cause)
    (callCloseHandler : Bool) (c : TcpConnection) : Option TcpConnection :=
  if c.state = .disconnected then
    if c.fd = false then some c else none
  else if c.fd = true ∧ c.registered = false then none
  else if callCloseHandler = true then invokeCloseHandler closeHandler .closeReadWrite (c.closed why)
  else some (c.closed why)

end TcpConnection

/-- The application acts; its result is what a read or a write handler returns. -/
def Script.run : Script → TcpConnection → Option (Bool × TcpConnection)
  | .ret result, c => some (result, c)
  | .take n k, c => k.run { c with inbuf := c.inbuf.drop n }
  | .write data k, c => (c.write data).bind fun c => k.run c
  | .flushAndClose k, c => c.flushAndClose.bind fun c => k.run c
  | .forceClose onClose k, c => (c.internalClose onClose.run .forceClose true).bind fun c => k.run c

/-- What the handlers do, if the step runs them. -/
structure Handlers where
  connect : Script
  read : Script
  write : Script
  /-- The close handler, when it is told `CLOSE_READ`. -/
  closeRead : Script
  /-- The close handler, when it is told `CLOSE_READ_WRITE`. -/
  close : Script

/-- What became of a socket: it could not be created or its options not be set, it could not be added to the selector,
`::connect` failed at once, or the connect is under way. -/
inductive Socket where
  | failed
  | notAdded
  | refused
  | pending
  deriving DecidableEq

/-- What `Selectable::Read` gets: would-block and the end of the stream are both no data, told apart by what is left
in `errno`. It does not return a negative number. -/
structure ReadResult where
  data : Bytes
  /-- `errno` is set, and neither `EAGAIN` nor `EWOULDBLOCK`. -/
  errno : Bool

/-- What `Selectable::Write` does: the kernel takes some bytes, and then there may be an error. -/
structure WriteResult where
  taken : Nat
  failed : Bool
  /-- `::shutdown` of the write half fails, if it is called. -/
  shutdownFails : Bool

/-- The flags of an error event. -/
structure ErrorEvents where
  err : Bool
  hup : Bool
  rdhup : Bool
  /-- `EPOLLIN`. -/
  readable : Bool

namespace TcpConnection

/-- `Wrap`, with whether the options can be set and the selector adds the socket. -/
def wrap (optionsSet added : Bool) (c : TcpConnection) : Option (Bool × TcpConnection) :=
  let c : TcpConnection := { c with fd := true }
  if optionsSet = false then some (false, c)
  else if c.registered = true then none
  else if added = false then some (false, { c with registered := true, fd := false })
  else
    let c : TcpConnection :=
      { c with registered := true, state := .connected, read_closed := false, write_closed := false }
    c.updateDesire.map fun c => (true, c)

/-- `Connect`, to an address or to the name of a host. -/
def connect (resolved : Bool) (socket : Socket) (c : TcpConnection) : Option (Bool × TcpConnection) :=
  if (c.state = .disconnected ∨ c.state = .resolving) ∧ c.fd = false then
    if c.state = .disconnected ∧ resolved = false then some (true, { c with query := .queued, state := .resolving })
    else if socket = .failed then some (false, c)
    else if c.registered = true then none
    else if socket = .notAdded then some (false, { c with registered := true })
    else
      let c : TcpConnection :=
        { c with fd := true, registered := true, state := .connecting, read_closed := false, write_closed := false }
      if socket = .refused then
        (c.internalClose (fun c => some (true, c)) .unresolved false).map fun c => (false, c)
      else (c.updateDesire.bind updateDesire).map fun c => (true, c)
  else none

/-- The part of `HandleReadEvent` and `HandleWriteEvent` for the end of a connect. -/
def handleConnected (h : Handlers) (c : TcpConnection) : Option (Bool × TcpConnection) :=
  (h.connect.run { c with state := .connected, notified := c.notified ++ [.connect] }).bind fun (_, c) =>
    if c.state = .connected ∨ c.state = .disconnected ∨ c.state = .flushing then
      some (decide (c.state = .connected), c)
    else none

/-- The part of `HandleReadEvent` behind the read. -/
def afterRead (h : Handlers) (c : TcpConnection) : Option (Bool × TcpConnection) :=
  if c.read_closed = true then
    (c.invokeCloseHandler h.closeRead.run .closeRead).bind fun c =>
      if c.fd = true then (c.updateDesire.bind TcpConnection.close).map fun c => (true, c) else some (true, c)
  else some (true, c)

def handleReadEvent (r : ReadResult) (h : Handlers) (c : TcpConnection) : Option (Bool × TcpConnection) :=
  if c.state = .disconnected then none
  else if c.state = .connecting then c.handleConnected h
  else if c.state = .connected ∨ c.state = .flushing then
    let c : TcpConnection := { c with inbuf := c.inbuf ++ r.data }
    if r.data ≠ [] then
      (h.read.run { c with notified := c.notified ++ [.read] }).bind fun (more, c) =>
        if more = false then (c.internalClose h.close.run .handler true).map fun c => (false, c) else c.afterRead h
    else if c.write_closed = true ∨ c.state = .flushing ∨ r.errno = true then
      ({ c with read_closed := true } : TcpConnection).afterRead h
    else c.afterRead h
  else none

/-- The part of `HandleWriteEvent` behind the write handler. -/
def afterWrite (w : WriteResult) (h : Handlers) (c : TcpConnection) : Option (Bool × TcpConnection) :=
  if c.outbuf = [] then
    c.updateDesire.bind fun c =>
      if c.state = .flushing then
        if w.shutdownFails = true then (c.internalClose h.close.run .error true).map fun c => (false, c)
        else some (true, { c with write_closed := true, lingering := true, flushed := some c.put })
      else some (true, c)
  else some (true, c)

def handleWriteEvent (w : WriteResult) (h : Handlers) (c : TcpConnection) : Option (Bool × TcpConnection) :=
  if c.state = .disconnected then none
  else if c.state = .connecting then c.handleConnected h
  else if c.state = .connected ∨ c.state = .flushing then
    let c : TcpConnection := { c with sent := c.sent ++ c.outbuf.take w.taken, outbuf := c.outbuf.drop w.taken }
    if w.failed = true then (c.internalClose h.close.run .error true).map fun c => (false, c)
    else if c.state ≠ .flushing then
      (h.write.run { c with notified := c.notified ++ [.write] }).bind fun (more, c) =>
        if more = false then (c.internalClose h.close.run .handler true).map fun c => (false, c)
        else c.afterWrite w h
    else c.afterWrite w h
  else none

/-- `HandleErrorEvent`. The state is `FLUSHING` already when `RDHUP` comes to the test of `EPOLLIN`. -/
def handleErrorEvent (e : ErrorEvents) (h : Handlers) (c : TcpConnection) : Option (Bool × TcpConnection) :=
  if c.state = .disconnected then none
  else if e.err = true then (c.internalClose h.close.run .error true).map fun c => (false, c)
  else if e.hup = true then
    let c : TcpConnection := { c with write_closed := true, hungUp := true }
    if e.readable = true ∧ c.state ≠ .connecting then some (true, c)
    else (c.internalClose h.close.run .hangUp true).map fun c => (false, c)
  else if e.rdhup = true then
    let c : TcpConnection := { c with state := .flushing }
    if e.readable = true ∧ c.state ≠ .connecting then some (true, c)
    else (c.internalClose h.close.run .error true).map fun c => (false, c)
  else some (true, c)

def handleTimeoutEvent (h : Handlers) (c : TcpConnection) : Option TcpConnection :=
  c.internalClose h.close.run .lingerTimeout true

/-- `HandleDnsResult`, with what becomes of the socket if there is an address. -/
def handleDnsResult (info : Option Socket) (h : Handlers) (c : TcpConnection) : Option TcpConnection :=
  if c.state = .resolving then
    match info with
    | none =>
      invokeCloseHandler h.close.run .closeReadWrite { c with state := .disconnected, ended := some .unresolved }
    | some socket =>
      (c.connect true socket).bind fun (started, c) =>
        if started = true then some c else c.invokeCloseHandler h.close.run .closeReadWrite
  else none

end TcpConnection

/-- What happens to a connection. -/
inductive Event where
  | application (script : Script)
  | error (e : ErrorEvents) (h : Handlers)
  | read (r : ReadResult) (h : Handlers)
  | write (w : WriteResult) (h : Handlers)
  | timeout (h : Handlers)
  /-- The resolver answers. An answer from its cache is one that follows at once. -/
  | dnsReturn
  | dnsResult (info : Option Socket) (h : Handlers)

/-- One step. The selector passes over the events of connections that are not registered any more; a timeout that is
not set and an answer that was not given do not come. Whether the selector goes on to the other parts of one event is
left open, so what the event functions return is not used. -/
def TcpConnection.step (c : TcpConnection) : Event → Option TcpConnection
  | .application script => (script.run c).map Prod.snd
  | .error e h => if c.registered = true then (c.handleErrorEvent e h).map Prod.snd else some c
  | .read r h => if c.registered = true then (c.handleReadEvent r h).map Prod.snd else some c
  | .write w h => if c.registered = true then (c.handleWriteEvent w h).map Prod.snd else some c
  | .timeout h =>
    if c.lingering = true then ({ c with lingering := false } : TcpConnection).handleTimeoutEvent h else some c
  | .dnsReturn => some (if c.query = .queued then { c with query := .returned } else c)
  | .dnsResult info h =>
    if c.query = .returned then ({ c with query := .none } : TcpConnection).handleDnsResult info h else some c

/-- A connection made by `Wrap` or `Connect`. -/
def TcpConnection.Made (c : TcpConnection) : Prop :=
  (∃ optionsSet added, wrap optionsSet added {} = some (true, c)) ∨
    ∃ resolved socket, connect resolved socket {} = some (true, c)

end Whispercast.Net
