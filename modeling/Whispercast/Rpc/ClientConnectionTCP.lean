import Whispercast.Http.Consts
import Whispercast.Net.TcpConnection

/-!
# The client side of an RPC connection

Model of `rpc::IClientConnection` and `rpc::ClientConnectionTCP`
(`net/rpc/lib/client/{irpc_client_connection,rpc_client_connection_tcp}.cc`) with the threads that use them. The
parts that run under a lock are steps by themselves, so the calls of different threads interleave; what a thread leaves
to the selector is in `closures`. A `CHECK` that fails is `none`.

A response callback is named by the transaction number of its query. Callbacks that the selector thread has taken out
of the map are `running` until they are run, so that the calls they make, and those of other threads, come in between.
The open callback is run in one step; what it calls comes behind that step. Of the network connection there is its
state, with what `Whispercast.Net.TcpConnection` does to it; what is written to it is left out, and behind the handshake
the messages come as the decoder gives them.
-/

namespace Whispercast.Rpc

open Library Io
open Http (ascii)

inductive HandshakeState where
  | notInitialized
  | waitingResponse
  | connected
  | failure
  deriving DecidableEq

/-- What waits in the selector. -/
inductive Closure where
  | addTimeout (xid : UInt32)
  | clearTimeout (xid : UInt32)
  | sendPacket (xid : UInt32)
  | startOpen
  | shutdown (event : Nat)

/-- What a connection is made with: whether the remote address needs no resolver, the codec, and the number of queries
that may wait. -/
structure ClientParams where
  resolved : Bool
  codec : UInt8
  maxParalelQueries : Nat

/-- The members of `IClientConnection` and `ClientConnectionTCP`, and what has become of the queries. The maps are the
lists of their keys. -/
structure ClientConnectionTCP where
  next_xid : UInt32 := 1
  response_map : List UInt32 := []
  /-- The queries whose timeout is set. -/
  timeouts : List UInt32 := []
  /-- `net_connection_->state()`. -/
  net : Net.State := .disconnected
  /-- A query is in the resolver's queue. -/
  resolving : Bool := false
  /-- The answers of the resolver that the selector has not run yet. -/
  answers : Nat := 0
  inbuf : Bytes := []
  handshake_state : HandshakeState := .notInitialized
  is_opening : Bool := false
  /-- The timeout `kOpenEvent` is set. -/
  openTimeout : Bool := false
  /-- `open_callback_ != NULL`. -/
  open_callback : Bool := false
  queries : List UInt32 := []
  active_query : Option UInt32 := none
  closures : List Closure := []
  /-- The numbers that `GenerateNextXID` has given. -/
  generated : List UInt32 := []
  /-- The calls of `AsyncQuery` that have their number and no response callback in the map yet. -/
  adding : List UInt32 := []
  /-- The calls of `AsyncQuery` that have not sent their query yet. -/
  sending : List UInt32 := []
  /-- The queries whose response callback has been put into the map. -/
  added : List UInt32 := []
  /-- The response callbacks that are out of the map and about to be run. -/
  running : List UInt32 := []
  ran : List UInt32 := []
  /-- The response callbacks that `CancelQuery` has removed. -/
  cancelled : List UInt32 := []
  /-- The queries whose reply, whose timeout or, behind them, a `Shutdown` has been processed. -/
  due : List UInt32 := []
  /-- The calls of `Open` with a callback. -/
  opens : Nat := 0
  /-- What the open callbacks were run with. -/
  opened : List Bool := []
  /-- The events that `Shutdown` was run with. -/
  shutdowns : List Nat := []
  signalled : List Nat := []

namespace ClientConnectionTCP

/-! ## Queries -/

def generateNextXID (c : ClientConnectionTCP) : ClientConnectionTCP :=
  { c with
    next_xid := c.next_xid + 1, generated := c.generated ++ [c.next_xid], adding := c.adding ++ [c.next_xid] }

def addTimeout (xid : UInt32) (inSelectThread : Bool) (c : ClientConnectionTCP) : ClientConnectionTCP :=
  if inSelectThread = true then { c with timeouts := xid :: c.timeouts.erase xid }
  else { c with closures := c.closures ++ [.addTimeout xid] }

def clearTimeout (xid : UInt32) (inSelectThread : Bool) (c : ClientConnectionTCP) : ClientConnectionTCP :=
  if inSelectThread = true then { c with timeouts := c.timeouts.erase xid }
  else { c with closures := c.closures ++ [.clearTimeout xid] }

/-- The part of `AsyncQuery` that holds the lock. `AddResponseCallbackNoSync` checks that the number is new. -/
def addResponseCallback (xid : UInt32) (inSelectThread : Bool) (c : ClientConnectionTCP) :
    Option ClientConnectionTCP :=
  if xid ∈ c.response_map then none
  else
    some (addTimeout xid inSelectThread { c with
      response_map := c.response_map.orderedInsert (· ≤ ·) xid, adding := c.adding.erase xid,
      added := c.added ++ [xid], sending := c.sending ++ [xid] })

/-- `PopResponseCallbackSync` and the run of the callback, in the selector thread. -/
def runResponseCallback (xid : UInt32) (c : ClientConnectionTCP) : ClientConnectionTCP :=
  if xid ∈ c.response_map then { c with response_map := c.response_map.erase xid, running := xid :: c.running }
  else c

/-- `CompleteQuery`, and `NotifySendFailed` behind its checks. -/
def completeQuery (xid : UInt32) (c : ClientConnectionTCP) : ClientConnectionTCP :=
  runResponseCallback xid (c.clearTimeout xid true)

/-- The reply or the timeout of a query is processed. -/
def nowDue (xid : UInt32) (c : ClientConnectionTCP) : ClientConnectionTCP :=
  { c with due := if xid ∈ c.added then xid :: c.due else c.due }

/-- `HandleResponse`. Only a reply completes its query. -/
def handleResponse (xid : UInt32) (isReply : Bool) (c : ClientConnectionTCP) : ClientConnectionTCP :=
  if isReply = true then completeQuery xid (c.nowDue xid) else c

/-- `NotifyTimeout`, with `Cancel`. -/
def notifyTimeout (xid : UInt32) (c : ClientConnectionTCP) : ClientConnectionTCP :=
  completeQuery xid (nowDue xid { c with queries := c.queries.erase xid })

def completeAllQueries (c : ClientConnectionTCP) : ClientConnectionTCP :=
  { c with timeouts := [], response_map := [], running := c.response_map ++ c.running }

/-- The part of `CancelQuery` that holds the lock. -/
def cancelQuery (xid : UInt32) (c : ClientConnectionTCP) : ClientConnectionTCP :=
  if xid ∈ c.response_map then
    { c with response_map := c.response_map.erase xid, cancelled := xid :: c.cancelled }
  else c

/-! ## Opening -/

def isOpen (c : ClientConnectionTCP) : Bool :=
  decide (c.net = .connected ∧ c.handshake_state = .connected)

/-- What `EndOpen` does: the open callback, if there is one, is told whether the connection is open. -/
def openEnded (c : ClientConnectionTCP) : ClientConnectionTCP :=
  { c with
    openTimeout := false, is_opening := false, open_callback := false,
    opened := if c.open_callback = true then c.opened ++ [c.isOpen] else c.opened }

def endOpen (c : ClientConnectionTCP) : Option ClientConnectionTCP :=
  if c.is_opening = true then some c.openEnded else none

def connect (params : ClientParams) (socket : Net.Socket) (c : ClientConnectionTCP) :
    Option (Bool × ClientConnectionTCP) :=
  if c.net = .disconnected ∨ c.net = .resolving then
    if c.net = .disconnected ∧ params.resolved = false then
      some (true, { c with net := .resolving, resolving := true })
    else if socket = .pending then some (true, { c with net := .connecting })
    else some (false, { c with net := if socket = .refused then .disconnected else c.net })
  else none

/-- `StartOpen` in the selector thread, with `StartConnect` and the end of a connect that fails at once. -/
def startOpen (params : ClientParams) (socket : Net.Socket) (c : ClientConnectionTCP) : Option ClientConnectionTCP :=
  (connect params socket { c with is_opening := true, openTimeout := true }).bind fun (started, c) =>
    if started = true then some c else c.endOpen

/-- `Open`. From the selector thread it goes on to the wait for a synchronous open if no callback is left. -/
def «open» (params : ClientParams) (socket : Net.Socket) (callback inSelectThread : Bool) (c : ClientConnectionTCP) :
    Option ClientConnectionTCP :=
  if c.net = .disconnected ∧ c.handshake_state = .notInitialized then
    let c : ClientConnectionTCP := { c with open_callback := callback, opens := c.opens + callback.toNat }
    if inSelectThread = true then
      (c.startOpen params socket).bind fun c => if c.open_callback = true then some c else none
    else some { c with closures := c.closures ++ [.startOpen] }
  else none

/-- The first part of `Shutdown`. The close handler that `ForceClose` runs does nothing, since `shutdown_is_executing_`
is set. -/
def forceClosed (signal : Option Nat) (c : ClientConnectionTCP) : ClientConnectionTCP :=
  { c with
    net := .disconnected, resolving := false, inbuf := if c.net = .disconnected then c.inbuf else [],
    handshake_state := .notInitialized, due := c.added, shutdowns := c.shutdowns ++ signal.toList }

/-- The last part of `Shutdown`. -/
def allCompleted (signal : Option Nat) (c : ClientConnectionTCP) : ClientConnectionTCP :=
  let c := completeAllQueries { c with active_query := none, queries := [] }
  { c with signalled := c.signalled ++ signal.toList }

/-- `Shutdown` in the selector thread. -/
def shutdown (signal : Option Nat) (c : ClientConnectionTCP) : Option ClientConnectionTCP :=
  let c := c.forceClosed signal
  if c.is_opening = true then c.endOpen
  else if c.open_callback = true then none
  else some (c.allCompleted signal)

/-- The connection is closed by the other side or by its own handler, and the close handler runs `Shutdown`. -/
def connectionClosed (c : ClientConnectionTCP) : Option ClientConnectionTCP :=
  shutdown none { c with net := .disconnected, resolving := false, inbuf := [] }

/-! ## The handshake -/

/-- `kHandshakeClientRandomData`. -/
def handshakeClientRandomData : Bytes := (List.range 32).map fun i => UInt8.ofNat (97 + i % 25)

/-- What `DoHandshake` asks of the answer: the mark, the version, the codec, and its own data behind those of the
server. -/
def accepts (params : ClientParams) (serverHand : Bytes) : Bool :=
  decide (serverHand.take 3 = ascii "rpc" ∧ (serverHand.drop 3).take 3 = [1, 0, params.codec] ∧
    (serverHand.drop 38).take 32 = handshakeClientRandomData)

def endHandshake (state : HandshakeState) (c : ClientConnectionTCP) : Option ClientConnectionTCP :=
  if c.handshake_state = .failure ∨ c.handshake_state = .connected then none
  else endOpen { c with handshake_state := state }

def doHandshake (params : ClientParams) (c : ClientConnectionTCP) : Option ClientConnectionTCP :=
  if c.net ≠ .connected then none
  else
    match c.handshake_state with
    | .notInitialized => some { c with handshake_state := .waitingResponse }
    | .waitingResponse =>
      if c.inbuf.length < 70 then some c
      else
        endHandshake (if accepts params (c.inbuf.take 70) = true then .connected else .failure)
          { c with inbuf := c.inbuf.drop 70 }
    | .connected => none
    | .failure => none

/-- `ConnectionConnectHandler`, with `EndConnect` and `StartHandshake`. -/
def connectionConnectHandler (params : ClientParams) (c : ClientConnectionTCP) : Option ClientConnectionTCP :=
  if c.handshake_state = .notInitialized then c.doHandshake params else none

/-- `ConnectionReadHandler` on the bytes that have come, up to the messages. A handshake that fails closes the
connection. -/
def connectionReadHandler (params : ClientParams) (data : Bytes) (c : ClientConnectionTCP) :
    Option ClientConnectionTCP :=
  let c : ClientConnectionTCP := { c with inbuf := c.inbuf ++ data }
  if c.handshake_state ≠ .connected ∧ c.handshake_state ≠ .failure then
    (c.doHandshake params).bind fun c => if c.handshake_state = .failure then c.connectionClosed else some c
  else if c.handshake_state = .connected then some c
  else none

def connectionWriteHandler (c : ClientConnectionTCP) : ClientConnectionTCP :=
  if c.handshake_state = .connected then { c with active_query := none, queries := [] } else c

/-- `SendPacket` in the selector thread. -/
def sendPacket (params : ClientParams) (socket : Net.Socket) (xid : UInt32) (c : ClientConnectionTCP) :
    Option ClientConnectionTCP :=
  if params.maxParalelQueries ≤ c.queries.length then some (c.completeQuery xid)
  else if xid ∈ c.queries then none
  else
    let c : ClientConnectionTCP := { c with queries := c.queries.orderedInsert (· ≤ ·) xid }
    if c.isOpen = false ∧ c.net = .disconnected then c.startOpen params socket else some c

/-- A closure is run. -/
def runClosure (params : ClientParams) (socket : Net.Socket) (c : ClientConnectionTCP) :
    Closure → Option ClientConnectionTCP
  | .addTimeout xid => some (c.addTimeout xid true)
  | .clearTimeout xid => some (c.clearTimeout xid true)
  | .sendPacket xid => c.sendPacket params socket xid
  | .startOpen => c.startOpen params socket
  | .shutdown event => c.shutdown (some event)

def handleDnsResult (info : Option Net.Socket) (c : ClientConnectionTCP) : Option ClientConnectionTCP :=
  if c.net = .resolving then
    if info = some .pending then some { c with net := .connecting } else c.connectionClosed
  else none

end ClientConnectionTCP

/-- What happens to a client connection. The calls come from any thread; where a call depends on it, the event says
whether that is the selector thread. -/
inductive ClientEvent where
  | generateNextXID
  | addResponseCallback (xid : UInt32) (inSelectThread : Bool)
  | send (xid : UInt32)
  | clearTimeout (xid : UInt32) (inSelectThread : Bool)
  | cancelQuery (xid : UInt32)
  | open (callback inSelectThread : Bool) (socket : Net.Socket)
  | shutdown (event : Nat)
  | shutdownInSelectThread (signal : Option Nat)
  /-- The next response callback is run. -/
  | runResponseCallback
  /-- The next closure is run; if it connects, `socket` says what comes of it. -/
  | runClosure (socket : Net.Socket)
  | dnsReturn
  | dnsResult (info : Option Net.Socket)
  /-- The connect has come to its end. -/
  | connected
  | read (data : Bytes)
  /-- The decoder gives a message. -/
  | received (xid : UInt32) (isReply : Bool)
  /-- The decoder fails. -/
  | badData
  | write
  /-- The other side has closed its half of the connection, and there is something to read. -/
  | halfClosed
  | closed
  | timeout (xid : UInt32)
  | openTimeout

namespace ClientConnectionTCP

/-- There is a socket, so the selector has events for it. -/
def isLive (c : ClientConnectionTCP) : Bool := decide (c.net = .connecting ∨ c.net = .connected ∨ c.net = .flushing)

/-- The read handler is run behind the handshake. -/
def isReading (c : ClientConnectionTCP) : Bool :=
  decide ((c.net = .connected ∨ c.net = .flushing) ∧ c.handshake_state = .connected)

/-- One step. What cannot come in a state leaves it as it is. -/
def step (params : ClientParams) (c : ClientConnectionTCP) : ClientEvent → Option ClientConnectionTCP
  | .generateNextXID => some c.generateNextXID
  | .addResponseCallback xid inSelectThread =>
    if xid ∈ c.adding then c.addResponseCallback xid inSelectThread else some c
  | .send xid =>
    some (if xid ∈ c.sending then
      { c with sending := c.sending.erase xid, closures := c.closures ++ [.sendPacket xid] } else c)
  | .clearTimeout xid inSelectThread => some (c.clearTimeout xid inSelectThread)
  | .cancelQuery xid => some (c.cancelQuery xid)
  | .open callback inSelectThread socket => c.open params socket callback inSelectThread
  | .shutdown event => some { c with closures := c.closures ++ [.shutdown event] }
  | .shutdownInSelectThread signal => c.shutdown signal
  | .runResponseCallback =>
    match c.running with
    | [] => some c
    | xid :: running => some { c with running := running, ran := c.ran ++ [xid] }
  | .runClosure socket =>
    match c.closures with
    | [] => some c
    | closure :: closures => ({ c with closures := closures } : ClientConnectionTCP).runClosure params socket closure
  | .dnsReturn => some (if c.resolving = true then { c with resolving := false, answers := c.answers + 1 } else c)
  | .dnsResult info =>
    match c.answers with
    | 0 => some c
    | answers + 1 => ({ c with answers := answers } : ClientConnectionTCP).handleDnsResult info
  | .connected =>
    if c.net = .connecting then ({ c with net := .connected } : ClientConnectionTCP).connectionConnectHandler params
    else some c
  | .read data =>
    if c.net = .connected ∨ c.net = .flushing then c.connectionReadHandler params data else some c
  | .received xid isReply => some (if c.isReading = true then c.handleResponse xid isReply else c)
  | .badData => if c.isReading = true then c.connectionClosed else some c
  | .write => some (if c.net = .connected then c.connectionWriteHandler else c)
  | .halfClosed => some (if c.isLive = true then { c with net := .flushing } else c)
  | .closed => if c.isLive = true then c.connectionClosed else some c
  | .timeout xid =>
    some (if xid ∈ c.timeouts then notifyTimeout xid { c with timeouts := c.timeouts.erase xid } else c)
  | .openTimeout =>
    if c.openTimeout = true then ({ c with openTimeout := false } : ClientConnectionTCP).endOpen else some c

end ClientConnectionTCP

end Whispercast.Rpc
