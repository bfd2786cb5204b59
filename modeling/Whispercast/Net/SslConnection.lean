import Whispercast.Net.TcpConnection
import Whispercast.Library.RecordStream

/-!
# TLS connections

Model of the handlers that `net::SslConnection` (`net/base/connection.cc`) gives to its `TcpConnection`, while the
application does not close the connection. OpenSSL is a parameter: an engine between two queues of bytes. `SSL_read`
takes one record at most out of the queue and gives it in pieces, and gives nothing any more behind a close alert.
-/

namespace Whispercast.Net

open Io Library

/-! ## OpenSSL -/

/-- What a record of the peer carries. -/
inductive Content where
  | handshake
  | data (plain : Bytes)
  | closeAlert

/-- What OpenSSL makes of bytes: the first record of a queue when it is complete, with its length; what the handshake
writes when `n` messages of the peer are still to come; and the record that `SSL_write` makes. -/
structure OpenSsl where
  record : Bytes → Option (Content × Nat)
  answer : Nat → Bytes
  sealed : Bytes → Bytes

/-- `SSL` with its two `BIO`s: what is to be read and what has been written, the messages of the handshake that are
still to come, and what is left of a record. -/
structure Ssl where
  rbio : Bytes := []
  wbio : Bytes := []
  started : Bool := false
  left : Nat
  pending : Bytes := []
  closed : Bool := false

inductive HandshakeResult where
  | done
  | wantRead
  | failed
  deriving DecidableEq

inductive SslReadResult where
  | bytes (data : Bytes)
  | wantRead
  | failed

namespace Ssl

/-- The messages of the handshake that have arrived. -/
def messages (o : OpenSsl) : Nat → Ssl → HandshakeResult × Ssl
  | 0, s => (.done, s)
  | n + 1, s =>
    match o.record s.rbio with
    | none => (.wantRead, s)
    | some (.handshake, k) =>
      messages o n { s with rbio := s.rbio.drop k, wbio := s.wbio ++ o.answer n, left := n }
    | some _ => (.failed, s)

/-- `SSL_do_handshake`. -/
def doHandshake (o : OpenSsl) (s : Ssl) : HandshakeResult × Ssl :=
  let s := if s.started then s else { s with started := true, wbio := s.wbio ++ o.answer s.left }
  messages o s.left s

/-- `SSL_is_init_finished`. -/
def IsInitFinished (s : Ssl) : Prop := s.started = true ∧ s.left = 0

instance (s : Ssl) : Decidable s.IsInitFinished := inferInstanceAs (Decidable (_ ∧ _))

/-- `SSL_read`. -/
def read (o : OpenSsl) (n : Nat) (s : Ssl) : SslReadResult × Ssl :=
  if s.pending ≠ [] then (.bytes (s.pending.take n), { s with pending := s.pending.drop n })
  else if s.closed then (.bytes [], s)
  else
    match o.record s.rbio with
    | none => (.wantRead, s)
    | some (.data plain, k) =>
      (.bytes (plain.take n), { s with rbio := s.rbio.drop k, pending := plain.drop n })
    | some (.closeAlert, k) => (.bytes [], { s with rbio := s.rbio.drop k, closed := true })
    | some (.handshake, _) => (.failed, s)

end Ssl

/-! ## The connection -/

/-- The size of the buffers of the handlers. -/
def kBufferSize : Nat := 1024

/-- The longest text of a record. -/
def kMaxPlain : Nat := 16384

/-- `SslConnection`, with the buffer for output and the write events of its `TcpConnection`. How many bytes have arrived,
and what the application has been given, are not data of the program. -/
structure SslConnection where
  state : State := .connecting
  handshake_finished_ : Bool := false
  read_blocked_ : Bool := false
  ssl : Ssl
  inbuf : Bytes := []
  outbuf : Bytes := []
  tcp_outbuf : Bytes := []
  write_events : Bool
  arrived : Nat := 0
  given : Bytes := []

/-- How the loop around `SSL_read` ends: the engine, what has been read, and whether the last read wants more. -/
structure ReadEnd where
  ssl : Ssl
  data : Bytes
  read_blocked : Bool
  failed : Bool := false

/-- `while ( BIO_pending(p_bio_read_) )`, for `n` turns at most. -/
def readLoop (o : OpenSsl) : Nat → Ssl → Bytes → Bool → Option ReadEnd
  | 0, _, _, _ => none
  | n + 1, ssl, data, blocked =>
    if ssl.rbio = [] then some ⟨ssl, data, blocked, false⟩
    else
      match ssl.read o kBufferSize with
      | (.bytes more, ssl) => readLoop o n ssl (data ++ more) false
      | (.wantRead, ssl) => some ⟨ssl, data, true, false⟩
      | (.failed, ssl) => some ⟨ssl, data, false, true⟩

namespace SslConnection

def sslHandshake (o : OpenSsl) (c : SslConnection) : SslConnection :=
  if c.handshake_finished_ then c
  else if c.ssl.IsInitFinished then
    if c.ssl.wbio ≠ [] then { c with write_events := true }
    else { c with handshake_finished_ := true, state := .connected }
  else
    match c.ssl.doHandshake o with
    | (.failed, ssl) => { c with ssl := ssl, state := .disconnected }
    | (.wantRead, ssl) => { c with ssl := ssl, write_events := true }
    | (.done, ssl) => { c with ssl := ssl, write_events := true }

/-- `InvokeReadHandler`: the application takes bytes of `inbuf` and writes an answer. -/
def invokeReadHandler (data : Bytes) (take : Nat) (answer : Bytes) (c : SslConnection) : SslConnection :=
  { c with
    given := c.given ++ data
    inbuf := c.inbuf.drop take
    outbuf := c.outbuf ++ answer
    write_events := c.write_events || answer ≠ [] }

/-- `TcpConnectionReadHandler` behind the loop that reads. -/
def afterRead (e : ReadEnd) (take : Nat) (answer : Bytes) (c : SslConnection) : SslConnection :=
  let c := { c with ssl := e.ssl, read_blocked_ := e.read_blocked, inbuf := c.inbuf ++ e.data }
  if e.failed then { c with state := .disconnected }
  else
    let c := { c with write_events := c.write_events || (!e.read_blocked && c.outbuf ≠ []) }
    if c.inbuf = [] then c else c.invokeReadHandler e.data take answer

/-- `TcpConnectionReadHandler`, on what has been read from the socket. A turn of the loop takes a record out of the queue
or some of its text out of the engine, unless it goes on for ever. -/
def tcpConnectionReadHandler (o : OpenSsl) (input : Bytes) (take : Nat) (answer : Bytes) (c : SslConnection) :
    Option SslConnection :=
  let c := { c with ssl := { c.ssl with rbio := c.ssl.rbio ++ input } }
  if c.state = .connecting then some (c.sslHandshake o)
  else
    let turns := c.ssl.rbio.length * (kMaxPlain + 1) + c.ssl.pending.length + 1
    (readLoop o turns c.ssl [] c.read_blocked_).map fun e => c.afterRead e take answer

/-- What `TcpConnectionWriteHandler` writes to OpenSSL: what the write handler of the application adds, and all there
is. While a read wants more, nothing is written. -/
def sslWrite (o : OpenSsl) (more : Bytes) (c : SslConnection) : SslConnection :=
  if c.read_blocked_ then c
  else
    { c with
      ssl := { c.ssl with wbio := c.ssl.wbio ++ ((c.outbuf ++ more).toChunks kBufferSize).flatMap o.sealed }
      outbuf := [] }

def tcpConnectionWriteHandler (o : OpenSsl) (more : Bytes) (c : SslConnection) : SslConnection :=
  let c := if c.state = .connecting then c.sslHandshake o else c.sslWrite o more
  { c with tcp_outbuf := c.tcp_outbuf ++ c.ssl.wbio, ssl := { c.ssl with wbio := [] } }

/-! ## Events -/

end SslConnection

/-- What the peer sends, and how the handshake begins. -/
structure TlsPeer where
  handshake : List Bytes
  data : List (Bytes × Bytes)
  closing : Option (Bytes × Bytes) := none

namespace TlsPeer

/-- Messages of the handshake, records with data, and a close alert or none. -/
def records (peer : TlsPeer) : List (Bytes × Content) :=
  peer.handshake.map (fun w => (w, .handshake)) ++ peer.data.map (fun x => (x.1, .data x.2)) ++
    peer.closing.toList.map fun x => (x.1, .closeAlert)

/-- What follows on a close alert. -/
def trailing (peer : TlsPeer) : Bytes := (peer.closing.map Prod.snd).getD []

/-- All bytes that the peer sends. -/
def stream (peer : TlsPeer) : Bytes := symbols peer.records ++ peer.trailing

end TlsPeer

/-- What happens to a connection: `n` more bytes are read, and the application takes bytes of its buffer and answers; the
socket takes bytes, and the application has more to write; or the application writes. -/
inductive TlsEvent where
  | read (n take : Nat) (answer : Bytes)
  | write (taken : Nat) (more : Bytes)
  | send (data : Bytes)

namespace SslConnection

/-- A connection whose handshake is to begin. -/
def new (peer : TlsPeer) (write_events : Bool) : SslConnection where
  ssl := { left := peer.handshake.length }
  write_events := write_events

/-- `HandleWriteEvent` of the `TcpConnection`. -/
def handleWriteEvent (o : OpenSsl) (taken : Nat) (more : Bytes) (c : SslConnection) : SslConnection :=
  let c := { c with tcp_outbuf := c.tcp_outbuf.drop taken }
  let c := c.tcpConnectionWriteHandler o more
  if c.tcp_outbuf = [] then { c with write_events := false } else c

/-- One event. A write event comes only when it is asked for. -/
def step (o : OpenSsl) (peer : TlsPeer) (c : SslConnection) : TlsEvent → Option SslConnection
  | .read n take answer =>
    if c.state = .disconnected ∨ n = 0 ∨ peer.stream.length < c.arrived + n then none
    else
      let input := (peer.stream.drop c.arrived).take n
      { c with arrived := c.arrived + n }.tcpConnectionReadHandler o input take answer
  | .write taken more =>
    if c.state = .disconnected ∨ c.write_events = false then none else some (c.handleWriteEvent o taken more)
  | .send data =>
    if c.state = .disconnected then none else some { c with outbuf := c.outbuf ++ data, write_events := true }

end SslConnection

end Whispercast.Net
