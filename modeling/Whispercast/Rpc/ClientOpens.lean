import Whispercast.Rpc.QueriesComplete

/-!
# Opening and shutting down a client connection

The state of the socket, that of the handshake and `is_opening_` change at different events. Where the events leave
them in step, no check fails, the callback of an `Open` is run once, and a `Shutdown` signals its event. They get out of
step when the open timeout ends an open that goes on below, when `Shutdown` finds an open in progress, and when an
`Open` that is left to the selector meets another one.
-/

namespace Whispercast.Rpc

open Library Io ClientConnectionTCP

/-- What the owner and the peer may do to a connection in a given state. -/
def ClientEvent.Orderly (params : ClientParams) (c : ClientConnectionTCP) : ClientEvent → Prop
  | .addResponseCallback xid _ => xid ∈ c.adding → xid ∉ c.response_map
  -- Open is called once, on a connection that is not being opened; the selector thread does not wait for it, and must
  -- not have the connect fail at once.
  | .open callback inSelectThread socket =>
    c.net = .disconnected ∧ c.handshake_state = .notInitialized ∧ Closure.startOpen ∉ c.closures ∧
      (inSelectThread = true → callback = true ∧ (params.resolved = false ∨ socket = .pending))
  -- A Shutdown with an event does not find an open in progress, and none finds an Open that has not started yet.
  | .shutdownInSelectThread signal =>
    (c.is_opening = false → c.open_callback = false) ∧ (c.is_opening = true → signal = none)
  | .runClosure _ =>
    ∀ closure closures, c.closures = closure :: closures →
      match closure with
      | .startOpen => c.net = .disconnected
      | .shutdown _ => c.is_opening = false ∧ c.open_callback = false
      | .sendPacket xid => c.queries.length < params.maxParalelQueries → xid ∉ c.queries
      | _ => True
  -- An answer of the resolver is not older than the connect that waits for it.
  | .dnsResult _ => 0 < c.answers → c.net = .resolving
  -- The answer of the handshake comes before the open timeout, and before the peer closes its half.
  | .read data =>
    c.net = .connected ∨ c.net = .flushing → c.handshake_state ≠ .connected →
      c.net = .connected ∧ (70 ≤ (c.inbuf ++ data).length → c.is_opening = true)
  | _ => True

namespace ClientConnectionTCP

variable {c : ClientConnectionTCP} {params : ClientParams} {socket : Net.Socket}

/-- What the owner may rely on. -/
structure Unharmed (c : ClientConnectionTCP) : Prop where
  /-- Of the open callbacks, all but the one that is being waited for have been run once. -/
  once : c.opens = c.opened.length + c.open_callback.toNat
  /-- The open callback that has not been run is run at the latest when the timeout strikes that is set, or will be set
  by the closure that starts the open. -/
  pending : c.open_callback = true → c.openTimeout = true ∨ Closure.startOpen ∈ c.closures
  signalled : c.signalled = c.shutdowns

/-- The parts of the state in step. -/
structure InStep (c : ClientConnectionTCP) : Prop where
  idle : c.net = .disconnected ∨ c.net = .resolving ∨ c.net = .connecting → c.handshake_state = .notInitialized
  failure : c.handshake_state ≠ .failure
  timer : c.openTimeout = c.is_opening
  opening : c.is_opening = true → c.net ≠ .disconnected
  callback : c.open_callback = true → c.is_opening = false → c.net = .disconnected ∧ Closure.startOpen ∈ c.closures
  once : c.opens = c.opened.length + c.open_callback.toNat
  signalled : c.signalled = c.shutdowns

theorem InStep.unharmed (h : c.InStep) : c.Unharmed where
  once := h.once
  pending hcallback := by
    cases hopening : c.is_opening with
    | true => exact Or.inl (h.timer.trans hopening)
    | false => exact Or.inr (h.callback hcallback hopening).2
  signalled := h.signalled

/-! ## The ends of an open -/

theorem openEnded_once (h : c.opens = c.opened.length + c.open_callback.toNat) :
    c.openEnded.opens = c.openEnded.opened.length + c.openEnded.open_callback.toNat := by
  cases hcallback : c.open_callback with
  | true =>
    simpa [openEnded, hcallback] using h
  | false =>
    simpa [openEnded, hcallback] using h

/-- The open callback is run, and nothing is left of the open but the socket and the handshake. -/
theorem inStep_openEnded
    (hidle : c.net = .disconnected ∨ c.net = .resolving ∨ c.net = .connecting → c.handshake_state = .notInitialized)
    (hfailure : c.handshake_state ≠ .failure) (honce : c.opens = c.opened.length + c.open_callback.toNat)
    (hsignalled : c.signalled = c.shutdowns) : c.openEnded.InStep where
  idle := hidle
  failure := hfailure
  timer := rfl
  opening h := by cases h
  callback h := by cases h
  once := openEnded_once honce
  signalled := hsignalled

/-- `StartOpen` on a connection that is closed. The open callback is run if the connect fails at once. -/
theorem inStep_startOpen (params : ClientParams) (socket : Net.Socket) (hidle : c.handshake_state = .notInitialized)
    (honce : c.opens = c.opened.length + c.open_callback.toNat) (hsignalled : c.signalled = c.shutdowns)
    (hnet : c.net = .disconnected) :
    ∃ c', c.startOpen params socket = some c' ∧ c'.InStep ∧
      (params.resolved = false ∨ socket = .pending → c'.open_callback = c.open_callback) := by
  have hfailure : c.handshake_state ≠ .failure := by simp [hidle]
  -- The connect is under way in a state that is not DISCONNECTED.
  have hstarted : ∀ net : Net.State, net ≠ .disconnected → ∀ b : Bool,
      InStep { c with is_opening := true, openTimeout := true, net := net, resolving := b } := by
    intro net hn b
    exact {
      idle := fun _ => hidle
      failure := hfailure
      timer := rfl
      opening := fun _ => hn
      callback := fun _ hno => by cases hno
      once := honce
      signalled := hsignalled }
  rw [startOpen, connect, if_pos (Or.inl hnet)]
  by_cases hresolved : params.resolved = false
  · rw [if_pos ⟨hnet, hresolved⟩]
    exact ⟨_, rfl, hstarted .resolving (by simp) true, fun _ => rfl⟩
  · rw [if_neg fun hr => hresolved hr.2]
    by_cases hsocket : socket = .pending
    · rw [if_pos hsocket]
      exact ⟨_, rfl, hstarted .connecting (by simp) c.resolving, fun _ => rfl⟩
    · rw [if_neg hsocket]
      refine ⟨_, rfl, inStep_openEnded (fun _ => hidle) hfailure honce hsignalled, ?_⟩
      rintro (hr | hr)
      · exact absurd hr hresolved
      · exact absurd hr hsocket

/-- `Shutdown`, which ends an open that is in progress and signals its event otherwise. -/
theorem inStep_shutdown (honce : c.opens = c.opened.length + c.open_callback.toNat)
    (hsignalled : c.signalled = c.shutdowns) {signal : Option Nat} (htimer : c.openTimeout = c.is_opening)
    (hcallback : c.is_opening = false → c.open_callback = false) (hsignal : c.is_opening = true → signal = none) :
    ∃ c', c.shutdown signal = some c' ∧ c'.InStep := by
  rw [shutdown]
  by_cases hopening : c.is_opening = true
  · have hopening' : (c.forceClosed signal).is_opening = true := hopening
    rw [if_pos hopening', endOpen, if_pos hopening']
    refine ⟨_, rfl, inStep_openEnded (fun _ => rfl) (fun hf => by cases hf) honce ?_⟩
    show c.signalled = c.shutdowns ++ signal.toList
    rw [hsignal hopening, hsignalled]
    exact (List.append_nil _).symm
  · have hfalse : c.is_opening = false := Bool.not_eq_true _ ▸ hopening
    have hopening' : ¬ (c.forceClosed signal).is_opening = true := hopening
    have hcallback' : ¬ (c.forceClosed signal).open_callback = true := by
      rw [show (c.forceClosed signal).open_callback = c.open_callback from rfl, hcallback hfalse]
      exact Bool.false_ne_true
    rw [if_neg hopening', if_neg hcallback']
    exact ⟨_, rfl, {
      idle := fun _ => rfl
      failure := fun hf => by cases hf
      timer := htimer
      opening := fun hop => absurd hop hopening
      callback := fun hcb => absurd hcb hcallback'
      once := honce
      signalled := by
        show c.signalled ++ signal.toList = c.shutdowns ++ signal.toList
        rw [hsignalled] }⟩

section

variable (h : c.InStep)

include h

/-- A connection with a socket is closed. -/
theorem InStep.connectionClosed (hnet : c.net ≠ .disconnected) : ∃ c', c.connectionClosed = some c' ∧ c'.InStep := by
  refine inStep_shutdown (c := { c with net := .disconnected, resolving := false, inbuf := [] }) h.once h.signalled
    h.timer (fun hopening => ?_) fun _ => rfl
  cases hcallback : c.open_callback with
  | true => exact absurd (h.callback hcallback hopening).1 hnet
  | false => rfl

/-! ## The steps -/

theorem InStep.completeQuery (xid : UInt32) : (c.completeQuery xid).InStep := by
  rw [ClientConnectionTCP.completeQuery, runResponseCallback, clearTimeout, if_pos rfl]
  split_ifs
  · exact { h with }
  · exact { h with }

/-- A closure that is left to the selector. -/
theorem InStep.append (closure : Closure) : InStep { c with closures := c.closures ++ [closure] } :=
  { h with callback := fun hcb hop => (h.callback hcb hop).imp_right fun hmem => List.mem_append_left _ hmem }

theorem InStep.addTimeout (xid : UInt32) (b : Bool) : (c.addTimeout xid b).InStep := by
  rw [ClientConnectionTCP.addTimeout]
  split_ifs
  · exact { h with }
  · exact h.append _

theorem InStep.clearTimeout (xid : UInt32) (b : Bool) : (c.clearTimeout xid b).InStep := by
  rw [ClientConnectionTCP.clearTimeout]
  split_ifs
  · exact { h with }
  · exact h.append _

/-- The handshake, on a connection that is connected. An answer that is not accepted leaves a failed handshake, which
the read handler cleans up. -/
theorem InStep.doHandshake (params : ClientParams) (hnet : c.net = .connected) (hstate : c.handshake_state ≠ .connected)
    (hopening : 70 ≤ c.inbuf.length → c.is_opening = true) :
    ∃ c', c.doHandshake params = some c' ∧ c'.net = .connected ∧
      (c'.handshake_state ≠ .failure → c'.InStep) ∧
      (c'.handshake_state = .failure → ∃ c₂, c'.connectionClosed = some c₂ ∧ c₂.InStep) := by
  rw [ClientConnectionTCP.doHandshake, if_neg fun hne => hne hnet]
  cases hs : c.handshake_state with
  | notInitialized =>
    refine ⟨_, rfl, hnet, fun _ => ?_, fun hf => by cases hf⟩
    exact { h with
      idle := fun hidle => by simp [hnet] at hidle
      failure := fun hf => by cases hf }
  | waitingResponse =>
    by_cases hlen : c.inbuf.length < 70
    · exact ⟨c, if_pos hlen, hnet, fun _ => h, fun hf => absurd hf h.failure⟩
    · have hop := hopening (Nat.not_lt.1 hlen)
      generalize (if accepts params (c.inbuf.take 70) = true then _ else _ : HandshakeState) = state
      rw [if_neg hlen, endHandshake, if_neg (by simp), endOpen, if_pos hop]
      have honce := openEnded_once (c := { c with inbuf := c.inbuf.drop 70, handshake_state := state }) h.once
      refine ⟨_, rfl, hnet, fun hne => ?_, fun _ => ?_⟩
      · exact inStep_openEnded (fun hidle => by simp [hnet] at hidle) hne h.once h.signalled
      · -- The open has ended, so Shutdown finds no callback.
        exact inStep_shutdown (c := { openEnded { c with inbuf := c.inbuf.drop 70, handshake_state := state } with
          net := .disconnected, resolving := false, inbuf := [] }) honce h.signalled rfl (fun _ => rfl) fun _ => rfl
  | connected => exact absurd hs hstate
  | failure => exact absurd hs h.failure

theorem InStep.connectionReadHandler {data : Bytes}
    (hread : c.handshake_state ≠ .connected →
      c.net = .connected ∧ (70 ≤ (c.inbuf ++ data).length → c.is_opening = true)) :
    ∃ c', c.connectionReadHandler params data = some c' ∧ c'.InStep := by
  rw [ClientConnectionTCP.connectionReadHandler]
  by_cases hstate : c.handshake_state = .connected
  · rw [if_neg fun hs => hs.1 hstate, if_pos hstate]
    exact ⟨_, rfl, { h with }⟩
  · obtain ⟨hnet, hopening⟩ := hread hstate
    rw [if_pos ⟨hstate, h.failure⟩]
    obtain ⟨c₁, hdo, -, hgood, hbad⟩ :=
      InStep.doHandshake (c := { c with inbuf := c.inbuf ++ data }) { h with } params hnet hstate hopening
    rw [hdo, Option.bind_some]
    split_ifs with hfail
    · exact hbad hfail
    · exact ⟨c₁, rfl, hgood hfail⟩

/-- `SendPacket`, which opens the connection on demand. -/
theorem InStep.sendPacket {xid : UInt32} (hnew : c.queries.length < params.maxParalelQueries → xid ∉ c.queries) :
    ∃ c', c.sendPacket params socket xid = some c' ∧ c'.InStep := by
  rw [ClientConnectionTCP.sendPacket]
  by_cases hfull : params.maxParalelQueries ≤ c.queries.length
  · rw [if_pos hfull]
    exact ⟨_, rfl, h.completeQuery xid⟩
  · rw [if_neg hfull, if_neg (hnew (Nat.not_le.1 hfull))]
    dsimp only
    split_ifs with hopen
    · obtain ⟨c', hstart, hinv, -⟩ := inStep_startOpen params socket
        (c := { c with queries := c.queries.orderedInsert (· ≤ ·) xid }) (h.idle (Or.inl hopen.2)) h.once h.signalled
        hopen.2
      exact ⟨c', hstart, hinv⟩
    · exact ⟨_, rfl, { h with }⟩

/-- The first closure is run. -/
theorem InStep.runClosure (params : ClientParams) (socket : Net.Socket) {closure : Closure}
    {closures : List Closure} (hclosures : c.closures = closure :: closures)
    (horderly : ClientEvent.Orderly params c (.runClosure socket)) :
    ∃ c', ClientConnectionTCP.runClosure params socket { c with closures := closures } closure = some c' ∧
      c'.InStep := by
  have hcl := horderly closure closures hclosures
  -- What is left is in step, unless it was the start of an open that was taken.
  have hrest : closure ≠ .startOpen → InStep { c with closures := closures } := by
    intro hne
    refine { h with callback := fun hcb hop => ?_ }
    obtain ⟨hnet, hmem⟩ := h.callback hcb hop
    rw [hclosures] at hmem
    exact ⟨hnet, (List.mem_cons.1 hmem).resolve_left hne.symm⟩
  cases closure with
  | addTimeout xid => exact ⟨_, rfl, (hrest (by simp)).addTimeout xid true⟩
  | clearTimeout xid => exact ⟨_, rfl, (hrest (by simp)).clearTimeout xid true⟩
  | sendPacket xid => exact (hrest (by simp)).sendPacket hcl
  | startOpen =>
    obtain ⟨c', hstart, hinv, -⟩ := inStep_startOpen params socket (c := { c with closures := closures })
      (h.idle (Or.inl hcl)) h.once h.signalled hcl
    exact ⟨c', hstart, hinv⟩
  | shutdown event =>
    exact inStep_shutdown (c := { c with closures := closures }) h.once h.signalled h.timer (fun _ => hcl.2)
      fun hop => absurd (hcl.1.symm.trans hop) Bool.false_ne_true

theorem InStep.open {callback b : Bool}
    (horderly : ClientEvent.Orderly params c (.open callback b socket)) :
    ∃ c', c.open params socket callback b = some c' ∧ c'.InStep := by
  obtain ⟨hnet, hstate, hstart, hthread⟩ := horderly
  -- Without an open in progress or under way, no callback is waiting.
  have hopening : c.is_opening = false := Bool.eq_false_iff.2 fun hop => h.opening hop hnet
  have hcallback : c.open_callback = false :=
    Bool.eq_false_iff.2 fun hcb => hstart (h.callback hcb hopening).2
  have honce : c.opens + callback.toNat = c.opened.length + callback.toNat := by
    rw [h.once, hcallback]
    rfl
  rw [ClientConnectionTCP.open, if_pos ⟨hnet, hstate⟩]
  cases b with
  | true =>
    obtain ⟨hcb, hconnects⟩ := hthread rfl
    obtain ⟨c', hrun, hinv, hsame⟩ := inStep_startOpen params socket
      (c := { c with open_callback := callback, opens := c.opens + callback.toNat }) hstate honce h.signalled hnet
    have hleft : c'.open_callback = true := (hsame hconnects).trans hcb
    rw [if_pos rfl, hrun, Option.bind_some, if_pos hleft]
    exact ⟨c', rfl, hinv⟩
  | false =>
    refine ⟨_, rfl, { h with
      callback := fun _ _ => ⟨hnet, List.mem_append_right _ (List.mem_singleton.2 rfl)⟩
      once := honce }⟩

theorem InStep.handleDnsResult (hnet : c.net = .resolving) (info : Option Net.Socket) :
    ∃ c', c.handleDnsResult info = some c' ∧ c'.InStep := by
  have hne : c.net ≠ .disconnected := by simp [hnet]
  rw [ClientConnectionTCP.handleDnsResult, if_pos hnet]
  split_ifs
  · exact ⟨_, rfl, { h with
      idle := fun _ => h.idle (Or.inr (Or.inl hnet))
      opening := fun _ hd => by cases hd
      callback := fun hcb hop => absurd (h.callback hcb hop).1 hne }⟩
  · exact h.connectionClosed hne

/-- What one step does. -/
theorem InStep.step {e : ClientEvent} (he : e.Orderly params c) : ∃ c', c.step params e = some c' ∧ c'.InStep := by
  cases e with
  | generateNextXID => exact ⟨_, rfl, { h with }⟩
  | addResponseCallback xid b =>
    rw [ClientConnectionTCP.step]
    split_ifs with hx
    · rw [addResponseCallback, if_neg (he hx)]
      exact ⟨_, rfl, InStep.addTimeout (c := { c with
        response_map := c.response_map.orderedInsert (· ≤ ·) xid, adding := c.adding.erase xid,
        added := c.added ++ [xid], sending := c.sending ++ [xid] }) { h with } xid b⟩
    · exact ⟨c, rfl, h⟩
  | send xid =>
    refine ⟨_, rfl, ?_⟩
    split_ifs
    · have h₁ : InStep { c with sending := c.sending.erase xid } := { h with }
      exact h₁.append _
    · exact h
  | clearTimeout xid b => exact ⟨_, rfl, h.clearTimeout xid b⟩
  | cancelQuery xid =>
    refine ⟨_, rfl, ?_⟩
    rw [cancelQuery]
    split_ifs
    · exact { h with }
    · exact h
  | «open» callback b socket => exact h.open he
  | shutdown event => exact ⟨_, rfl, h.append _⟩
  | shutdownInSelectThread signal => exact inStep_shutdown h.once h.signalled h.timer he.1 he.2
  | runResponseCallback =>
    rw [ClientConnectionTCP.step]
    cases c.running with
    | nil => exact ⟨c, rfl, h⟩
    | cons xid running => exact ⟨_, rfl, { h with }⟩
  | runClosure socket =>
    rw [ClientConnectionTCP.step]
    cases hclosures : c.closures with
    | nil => exact ⟨c, rfl, h⟩
    | cons closure closures => exact h.runClosure params socket hclosures he
  | dnsReturn =>
    refine ⟨_, rfl, ?_⟩
    split_ifs
    · exact { h with }
    · exact h
  | dnsResult info =>
    rw [ClientConnectionTCP.step]
    cases hanswers : c.answers with
    | zero => exact ⟨c, rfl, h⟩
    | succ answers =>
      have hnet : c.net = .resolving := he (by rw [hanswers]; exact Nat.succ_pos answers)
      exact InStep.handleDnsResult (c := { c with answers := answers }) { h with } hnet info
  | connected =>
    rw [ClientConnectionTCP.step]
    split_ifs with hnet
    · have hstate : c.handshake_state = .notInitialized := h.idle (Or.inr (Or.inr hnet))
      have hne : c.net ≠ .disconnected := by simp [hnet]
      rw [connectionConnectHandler, if_pos (show c.handshake_state = .notInitialized from hstate),
        ClientConnectionTCP.doHandshake, if_neg fun hn => hn rfl]
      simp only [hstate]
      exact ⟨_, rfl, { h with
        idle := fun hidle => by simp at hidle
        failure := fun hf => by cases hf
        opening := fun _ hd => by cases hd
        callback := fun hcb hop => absurd (h.callback hcb hop).1 hne }⟩
    · exact ⟨c, rfl, h⟩
  | read data =>
    rw [ClientConnectionTCP.step]
    split_ifs with hnet
    · exact h.connectionReadHandler (he hnet)
    · exact ⟨c, rfl, h⟩
  | received xid isReply =>
    refine ⟨_, rfl, ?_⟩
    rw [handleResponse]
    split_ifs
    · exact InStep.completeQuery (c := c.nowDue xid) { h with } xid
    · exact h
    · exact h
  | badData =>
    rw [ClientConnectionTCP.step]
    split_ifs with hreading
    · refine h.connectionClosed fun hnet => ?_
      simp [isReading, hnet] at hreading
    · exact ⟨c, rfl, h⟩
  | write =>
    refine ⟨_, rfl, ?_⟩
    rw [connectionWriteHandler]
    split_ifs
    · exact { h with }
    · exact h
    · exact h
  | halfClosed =>
    refine ⟨_, rfl, ?_⟩
    split_ifs with hlive
    · have hne : c.net ≠ .disconnected := fun hnet => by simp [isLive, hnet] at hlive
      exact { h with
        idle := fun hidle => by simp at hidle
        opening := fun _ hd => by cases hd
        callback := fun hcb hop => absurd (h.callback hcb hop).1 hne }
    · exact h
  | closed =>
    rw [ClientConnectionTCP.step]
    split_ifs with hlive
    · refine h.connectionClosed fun hnet => ?_
      simp [isLive, hnet] at hlive
    · exact ⟨c, rfl, h⟩
  | timeout xid =>
    refine ⟨_, rfl, ?_⟩
    rw [notifyTimeout]
    split_ifs
    · exact InStep.completeQuery (c := nowDue xid { c with
        timeouts := c.timeouts.erase xid, queries := c.queries.erase xid }) { h with } xid
    · exact h
  | openTimeout =>
    rw [ClientConnectionTCP.step]
    split_ifs with htimeout
    · have hopening : c.is_opening = true := h.timer.symm.trans htimeout
      rw [endOpen, if_pos (show c.is_opening = true from hopening)]
      exact ⟨_, rfl, inStep_openEnded (c := { c with openTimeout := false }) h.idle h.failure h.once h.signalled⟩
    · exact ⟨c, rfl, h⟩

end

/-! ## Runs -/

end ClientConnectionTCP

end Whispercast.Rpc
