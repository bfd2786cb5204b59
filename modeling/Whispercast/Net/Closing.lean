import Whispercast.Net.TcpConnection

/-!
# How connections end

A connection is closed once, with one `CLOSE_READ_WRITE` after which no handler runs, as long as nothing is asked of a
connection that the selector does not know. The functions that run a handler and go on do not look whether the handler
has closed the connection; `Event.Careful` leaves these cases out, step by step.
-/

namespace Whispercast.Net

open Library Io List Script State TcpConnection

/-! ## What a script asks for -/

/-- What the selector and the resolver have of a connection. -/
inductive Phase where
  | resolving
  | live
  | closed

def State.phase : State → Phase
  | .disconnected => .closed
  | .resolving => .resolving
  | .connecting => .live
  | .connected => .live
  | .flushing => .live

theorem State.phase_eq_closed {s : State} : s.phase = .closed ↔ s = .disconnected := by
  cases s <;> simp [phase]

theorem State.phase_eq_resolving {s : State} : s.phase = .resolving ↔ s = .resolving := by
  cases s <;> simp [phase]

namespace Script

/-- What a handler with this script returns. -/
def result : Script → Bool
  | .ret result => result
  | .take _ k => k.result
  | .write _ k => k.result
  | .flushAndClose k => k.result
  | .forceClose _ k => k.result

/-- `ForceClose` is called. -/
def closes : Script → Bool
  | .ret _ => false
  | .take _ k => k.closes
  | .write _ k => k.closes
  | .flushAndClose k => k.closes
  | .forceClose _ _ => true

/-- `FlushAndClose` is called. -/
def flushes : Script → Bool
  | .ret _ => false
  | .take _ k => k.flushes
  | .write _ k => k.flushes
  | .flushAndClose _ => true
  | .forceClose _ k => k.flushes

/-- The bytes that are put into `outbuf`. -/
def writes : Script → Bytes
  | .ret _ => []
  | .take _ k => k.writes
  | .write data k => data ++ k.writes
  | .flushAndClose k => k.writes
  | .forceClose _ k => k.writes

/-- Write events are requested only while the connection is registered, and `FlushAndClose` is not called while its
address is being resolved. -/
def Careful : Script → Phase → Prop
  | .ret _, _ => True
  | .take _ k, p => k.Careful p
  | .write _ k, p => p = .live ∧ k.Careful p
  | .flushAndClose k, p => p ≠ .resolving ∧ k.Careful p
  | .forceClose onClose k, p => (p ≠ .closed → onClose.Careful .closed) ∧ k.Careful .closed

end Script

/-! ## The invariant -/

/-- The notification that the connection is closed. -/
abbrev closedNotification : Notification := .close .closeReadWrite

/-- What holds of a connection whenever the application or the selector has a hand on it. -/
structure TcpConnection.Inv (c : TcpConnection) : Prop where
  fd : c.fd = true ↔ c.state.phase = .live
  registered : c.registered = true ↔ c.state.phase = .live
  lingering : c.lingering = true → c.state.phase = .live
  put : c.state ≠ .disconnected → c.put = c.sent ++ c.outbuf
  given : c.sent <+: c.put
  flushed : ∀ p, c.flushed = some p → p <+: c.sent
  quiet : c.state ≠ .disconnected → closedNotification ∉ c.notified
  notified : c.state = .disconnected →
    ∃ before, c.notified = before ++ [closedNotification] ∧ closedNotification ∉ before
  ended : c.state ≠ .disconnected → c.ended = none
  why : c.state = .disconnected → ∃ why, c.ended = some why
  unasked : c.state = .resolving → c.asked = false
  complete : c.ended = some .handler ∨ c.ended = some .unresolved → c.hungUp = false → c.asked = true → c.sent = c.put

/-- What is left of `c` behind a script. -/
structure Script.Leaves (script : Script) (c c' : TcpConnection) : Prop where
  inv : c'.Inv
  closed : script.closes = true → c'.state = .disconnected
  phase : script.closes = false → c'.state.phase = c.state.phase
  outbuf : script.closes = false → c'.outbuf = c.outbuf ++ script.writes
  asked : c'.asked = true → c.asked = true ∨ (c.state ≠ .disconnected ∧ script.flushes = true)
  hungUp : c'.hungUp = c.hungUp
  connecting : c.state ≠ .connecting → c'.state ≠ .connecting

namespace TcpConnection

variable {c : TcpConnection}

theorem Inv.fd_false (h : c.Inv) (hc : c.state.phase ≠ .live) : c.fd = false :=
  Bool.eq_false_iff.2 fun hfd => hc (h.fd.1 hfd)

theorem updateDesire_of (h : c.registered = true) : c.updateDesire = some c := if_pos h

/-- The connection is closed, and its handler has been told. -/
theorem Inv.closed (h : c.Inv) (hc : c.state ≠ .disconnected) (why : Cause)
    (hwhy : why = .handler ∨ why = .unresolved → c.hungUp = false → c.asked = true → c.sent = c.put) :
    Inv { c.closed why with notified := c.notified ++ [closedNotification] } where
  fd := by simp [TcpConnection.closed, State.phase]
  registered := by simp [TcpConnection.closed, State.phase]
  lingering := by simp [TcpConnection.closed]
  put hne := absurd rfl hne
  given := h.given
  flushed := h.flushed
  quiet hne := absurd rfl hne
  notified _ := ⟨c.notified, rfl, h.quiet hc⟩
  ended hne := absurd rfl hne
  why _ := ⟨why, rfl⟩
  unasked hres := by cases hres
  complete hended := by
    refine hwhy ?_
    simpa [TcpConnection.closed] using hended

/-- What `InternalClose` does, with the run of the close handler left to its caller. -/
theorem Inv.internalClose (h : c.Inv) (why : Cause) (onClose : TcpConnection → Option (Bool × TcpConnection)) :
    c.internalClose onClose why true =
      if c.state = .disconnected then some c
      else (onClose { c.closed why with notified := c.notified ++ [closedNotification] }).map Prod.snd := by
  rw [TcpConnection.internalClose]
  split_ifs with hstate hfd hunreg hcall
  · rfl
  · exact absurd (h.fd_false (by rw [hstate]; simp [phase])) hfd
  · have hlive := h.fd.1 hunreg.1
    rw [h.registered.2 hlive] at hunreg
    cases hunreg.2
  · rfl
  · exact absurd rfl hcall

/-- `Close(CLOSE_WRITE)` leaves a live connection live. -/
theorem Inv.close (h : c.Inv) (hc : c.state ≠ .resolving) :
    ∃ c', c.close = some c' ∧ c'.Inv ∧ c' = { c with state := c'.state } ∧ c'.state.phase = c.state.phase ∧
      (c.state ≠ .connecting → c'.state ≠ .connecting) := by
  rw [TcpConnection.close]
  split_ifs with hfd hstate hclosed
  · exact ⟨c, rfl, h, rfl, rfl, id⟩
  · exfalso
    cases hs : c.state with
    | disconnected => exact hstate hs
    | resolving => exact hc hs
    | connecting => rw [h.fd.2 (by rw [hs]; rfl)] at hfd; cases hfd
    | connected => rw [h.fd.2 (by rw [hs]; rfl)] at hfd; cases hfd
    | flushing => rw [h.fd.2 (by rw [hs]; rfl)] at hfd; cases hfd
  · exact ⟨c, rfl, h, rfl, rfl, id⟩
  · have hlive : c.state.phase = .live := h.fd.1 (Bool.not_eq_false _ ▸ hfd)
    have hne : c.state ≠ .disconnected := fun hs => by rw [hs] at hlive; cases hlive
    refine ⟨{ c with state := .flushing }, updateDesire_of (h.registered.2 hlive), ?_, rfl, hlive.symm, ?_⟩
    · exact {
        fd := ⟨fun _ => rfl, fun _ => h.fd.2 hlive⟩
        registered := ⟨fun _ => rfl, fun _ => h.registered.2 hlive⟩
        lingering := fun _ => rfl
        put := fun _ => h.put hne
        given := h.given
        flushed := h.flushed
        quiet := fun _ => h.quiet hne
        notified := fun hs => by cases hs
        ended := fun _ => h.ended hne
        why := fun hs => by cases hs
        unasked := fun hs => by cases hs
        complete := h.complete }
    · exact fun _ hs => by cases hs

/-- Bytes that are written go into `outbuf`. -/
theorem Inv.write (h : c.Inv) (hc : c.state.phase = .live) (data : Bytes) :
    c.write data = some { c with outbuf := c.outbuf ++ data, put := c.put ++ data } ∧
      Inv { c with outbuf := c.outbuf ++ data, put := c.put ++ data } := by
  have hne : c.state ≠ .disconnected := fun hs => by rw [hs] at hc; cases hc
  have hended := h.ended hne
  refine ⟨updateDesire_of (h.registered.2 hc), { h with
    put := fun _ => ?_
    given := h.given.trans (prefix_append _ _)
    complete := fun hwhy => ?_ }⟩
  · rw [h.put hne, append_assoc]
  · rw [hended] at hwhy
    rcases hwhy with hwhy | hwhy <;> cases hwhy

/-- `FlushAndClose` does nothing to a connection that is closed. -/
theorem Inv.flushAndClose (h : c.Inv) (hc : c.state ≠ .resolving) :
    ∃ c', c.flushAndClose = some c' ∧ c'.Inv ∧ c' = { c with state := c'.state, asked := c.asked || c.fd } ∧
      c'.state.phase = c.state.phase ∧ (c.state ≠ .connecting → c'.state ≠ .connecting) := by
  have hinv : Inv { c with asked := c.asked || c.fd } := { h with
    unasked := fun hs => absurd hs hc
    complete := fun hwhy hup hasked => by
      refine h.complete hwhy hup ?_
      have hfd : c.fd = false := by
        refine h.fd_false fun hlive => ?_
        have hended := h.ended fun hs => by rw [hs] at hlive; cases hlive
        rcases hwhy with hwhy | hwhy <;> exact absurd (hended.symm.trans hwhy) (by simp)
      simpa [hfd] using hasked }
  obtain ⟨c', hclose, hinv', hsame, hphase, hconn⟩ := hinv.close hc
  exact ⟨c', hclose, hinv', hsame, hphase, hconn⟩

end TcpConnection

namespace Script

variable {script : Script} {c c' : TcpConnection}

/-- A closed connection stays closed. -/
theorem Leaves.disconnected (h : script.Leaves c c') (hc : c.state = .disconnected) : c'.state = .disconnected := by
  cases hcloses : script.closes with
  | true => exact h.closed hcloses
  | false =>
    have hphase := h.phase hcloses
    rw [hc] at hphase
    exact phase_eq_closed.1 hphase

/-- A careful script is carried out on every connection, and it returns what it says. -/
theorem run_careful (h : c.Inv) (hscript : script.Careful c.state.phase) :
    ∃ c', script.run c = some (script.result, c') ∧ script.Leaves c c' := by
  -- The induction is over the script; the close handler that `ForceClose` runs is a part of it.
  induction script generalizing c with
  | ret result =>
    exact ⟨c, rfl, h, (nomatch ·), fun _ => rfl, fun _ => (append_nil _).symm, Or.inl, rfl, id⟩
  | take n k ih =>
    obtain ⟨c', hrun, hleaves⟩ := ih (c := { c with inbuf := c.inbuf.drop n }) { h with } hscript
    exact ⟨c', hrun, { hleaves with }⟩
  | write data k ih =>
    obtain ⟨hlive, hk⟩ := hscript
    obtain ⟨hwrite, hinv⟩ := h.write hlive data
    obtain ⟨c', hrun, hleaves⟩ := ih hinv hk
    refine ⟨c', ?_, { hleaves with outbuf := fun hcl => ?_ }⟩
    · rw [Script.run, hwrite]
      exact hrun
    · rw [hleaves.outbuf hcl]
      exact append_assoc _ _ _
  | flushAndClose k ih =>
    obtain ⟨hres, hk⟩ := hscript
    obtain ⟨c₁, hclose, hinv, hsame, hphase, hconn⟩ :=
      h.flushAndClose fun hs => hres (phase_eq_resolving.2 hs)
    obtain ⟨c', hrun, hleaves⟩ := ih hinv (hphase ▸ hk)
    refine ⟨c', ?_, hleaves.inv, hleaves.closed, fun hcl => (hleaves.phase hcl).trans hphase, fun hcl => ?_,
      fun hasked => ?_, ?_, fun hne => hleaves.connecting (hconn hne)⟩
    · rw [Script.run, hclose]
      exact hrun
    · rw [hleaves.outbuf hcl, hsame]
      rfl
    · by_cases hstate : c.state = .disconnected
      · have hstate₁ : c₁.state = .disconnected := by
          rw [hstate] at hphase
          exact phase_eq_closed.1 hphase
        have hasked₁ := (hleaves.asked hasked).resolve_right fun hne => hne.1 hstate₁
        rw [hsame] at hasked₁
        refine Or.inl ?_
        simpa [h.fd_false (by rw [hstate]; simp [State.phase])] using hasked₁
      · exact Or.inr ⟨hstate, rfl⟩
    · rw [hleaves.hungUp, hsame]
  | forceClose onClose k ihClose ih =>
    obtain ⟨hclose, hk⟩ := hscript
    have hinternal := h.internalClose .forceClose onClose.run
    by_cases hstate : c.state = .disconnected
    · rw [if_pos hstate] at hinternal
      obtain ⟨c', hrun, hleaves⟩ := ih h (by rw [hstate]; exact hk)
      refine ⟨c', ?_, { hleaves with
        closed := fun _ => hleaves.disconnected hstate
        phase := fun hcl => by cases hcl
        outbuf := fun hcl => by cases hcl }⟩
      rw [Script.run, hinternal]
      exact hrun
    · rw [if_neg hstate] at hinternal
      have hinv := h.closed hstate .forceClose fun hwhy => by rcases hwhy with hwhy | hwhy <;> cases hwhy
      obtain ⟨c₁, hrun₁, hleaves₁⟩ := ihClose hinv (hclose fun hs => hstate (phase_eq_closed.1 hs))
      have hstate₁ := hleaves₁.disconnected rfl
      obtain ⟨c', hrun, hleaves⟩ := ih hleaves₁.inv (by rw [hstate₁]; exact hk)
      refine ⟨c', ?_, hleaves.inv, fun _ => hleaves.disconnected hstate₁, (nomatch ·), (nomatch ·), fun hasked => ?_,
        hleaves.hungUp.trans hleaves₁.hungUp, fun _ hs => ?_⟩
      · rw [Script.run, hinternal, hrun₁]
        exact hrun
      · have hasked₁ := (hleaves.asked hasked).resolve_right fun hne => hne.1 hstate₁
        exact Or.inl ((hleaves₁.asked hasked₁).resolve_right fun hne => hne.1 rfl)
      · rw [hleaves.disconnected hstate₁] at hs
        cases hs

end Script

/-! ## What the application and the selector may do -/

/-- A read or a write handler, run with `out` in `outbuf`: after `ForceClose` it returns false, since the function
that runs it goes on otherwise; and it does not have a connection closed, by returning false, that is to be flushed and
has bytes left. -/
structure Script.CarefulHandler (script : Script) (c : TcpConnection) (out : Bytes) : Prop where
  careful : script.Careful .live
  stops : script.closes = true → script.result = false
  nothing_left : script.result = false → script.closes = false → c.hungUp = false →
    c.asked = true ∨ script.flushes = true → out ++ script.writes = []

/-- What the handlers that the event runs may do. A close handler does not request write events. An answer of the
resolver must find the connection resolving still, and lead to a socket that the selector has. -/
def Event.Careful (c : TcpConnection) : Event → Prop
  | .application script => script.Careful c.state.phase
  | .error _ h => c.registered = true → h.close.Careful .closed
  | .read r h => c.registered = true → h.close.Careful .closed ∧
      (c.state = .connecting → h.connect.Careful .live) ∧
      (c.state ≠ .connecting → h.closeRead.Careful .live ∧ (r.data ≠ [] → h.read.CarefulHandler c c.outbuf))
  | .write w h => c.registered = true → h.close.Careful .closed ∧
      (c.state = .connecting → h.connect.Careful .live) ∧
      (c.state = .connected → w.failed = false → h.write.CarefulHandler c (c.outbuf.drop w.taken))
  | .timeout h => c.lingering = true → h.close.Careful .closed
  | .dnsReturn => True
  | .dnsResult info h => c.query = .returned → h.close.Careful .closed ∧
      c.state = .resolving ∧ info ≠ some .failed ∧ info ≠ some .notAdded

namespace TcpConnection

variable {c : TcpConnection} {h : Handlers}

/-- A handler is about to be run. -/
theorem Inv.notify (hinv : c.Inv) (hc : c.state ≠ .disconnected) {n : Notification} (hn : n ≠ closedNotification) :
    Inv { c with notified := c.notified ++ [n] } :=
  { hinv with
    quiet := fun hs => by
      refine fun hmem => (mem_append.1 hmem).elim (hinv.quiet hs) fun hmem => ?_
      exact hn (mem_singleton.1 hmem).symm
    notified := fun hs => absurd hs hc }

theorem ne_disconnected_of_live (hc : c.state.phase = .live) : c.state ≠ .disconnected := by
  intro hs
  rw [hs] at hc
  cases hc

/-- `InternalClose` on a connection that may be closed already. -/
theorem Inv.internalClose_careful (hinv : c.Inv) {onClose : Script} (hclose : onClose.Careful .closed) (why : Cause)
    (hwhy : c.state ≠ .disconnected → why = .handler ∨ why = .unresolved → c.hungUp = false → c.asked = true →
      c.sent = c.put) : ∃ c', c.internalClose onClose.run why true = some c' ∧ c'.Inv := by
  have hinternal := hinv.internalClose why onClose.run
  by_cases hstate : c.state = .disconnected
  · rw [if_pos hstate] at hinternal
    exact ⟨c, hinternal, hinv⟩
  · rw [if_neg hstate] at hinternal
    obtain ⟨c', hrun, hleaves⟩ := run_careful (hinv.closed hstate why (hwhy hstate)) hclose
    refine ⟨c', ?_, hleaves.inv⟩
    rw [hinternal, hrun]
    rfl

/-- A close that is not due to a handler or the resolver. -/
theorem Inv.internalClose_forced (hinv : c.Inv) {onClose : Script} (hclose : onClose.Careful .closed) {why : Cause}
    (hhandler : why ≠ .handler) (hresolver : why ≠ .unresolved) :
    ∃ c', c.internalClose onClose.run why true = some c' ∧ c'.Inv :=
  hinv.internalClose_careful hclose why fun _ hwhy => (hwhy.elim hhandler hresolver).elim

/-- The function goes on to its end, and the invariant holds there. -/
def Completes (x : Option (Bool × TcpConnection)) : Prop := ∃ b c', x = some (b, c') ∧ c'.Inv

theorem Completes.map {x : Option TcpConnection} (h : ∃ c', x = some c' ∧ c'.Inv) (b : Bool) :
    Completes (x.map fun c => (b, c)) := by
  obtain ⟨c', rfl, hinv⟩ := h
  exact ⟨b, c', rfl, hinv⟩

theorem Completes.snd {x : Option (Bool × TcpConnection)} (h : Completes x) :
    ∃ c', x.map Prod.snd = some c' ∧ c'.Inv := by
  obtain ⟨b, c', rfl, hinv⟩ := h
  exact ⟨c', rfl, hinv⟩

section

variable (hinv : c.Inv) (hc : c.state.phase = .live)

include hinv hc

theorem Inv.of_live {s : State} (hs : s.phase = .live) : Inv { c with state := s } := by
  have hne := ne_disconnected_of_live hc
  exact { hinv with
    fd := by rw [hinv.fd, hc, hs]
    registered := by rw [hinv.registered, hc, hs]
    lingering := fun _ => hs
    put := fun _ => hinv.put hne
    quiet := fun _ => hinv.quiet hne
    notified := fun h => absurd h (ne_disconnected_of_live (c := { c with state := s }) hs)
    ended := fun _ => hinv.ended hne
    why := fun h => absurd h (ne_disconnected_of_live (c := { c with state := s }) hs)
    unasked := fun h => by
      have hres := phase_eq_resolving.2 h
      rw [hs] at hres
      cases hres }

theorem handleConnected_careful (hconnect : h.connect.Careful .live) : Completes (c.handleConnected h) := by
  have hinv' : Inv { c with state := .connected, notified := c.notified ++ [.connect] } :=
    (hinv.of_live (s := .connected) hc rfl).notify (by simp) (by simp)
  obtain ⟨c', hrun, hleaves⟩ := run_careful hinv' hconnect
  rw [handleConnected, hrun]
  -- The state is one of the three that the function checks for: the script leaves a closed or a live connection.
  have hstate : c'.state = .connected ∨ c'.state = .disconnected ∨ c'.state = .flushing := by
    cases hcl : h.connect.closes with
    | true => exact Or.inr (Or.inl (hleaves.closed hcl))
    | false =>
      have hphase := hleaves.phase hcl
      have hconn := hleaves.connecting (by simp)
      cases hs : c'.state with
      | disconnected => exact Or.inr (Or.inl rfl)
      | resolving => rw [hs] at hphase; cases hphase
      | connecting => exact absurd hs hconn
      | connected => exact Or.inl rfl
      | flushing => exact Or.inr (Or.inr rfl)
  exact ⟨_, c', if_pos hstate, hleaves.inv⟩

theorem afterRead_careful (hclose : h.closeRead.Careful .live) : Completes (c.afterRead h) := by
  rw [afterRead]
  split_ifs with hread
  · obtain ⟨c₁, hrun, hleaves⟩ := run_careful (c := { c with notified := c.notified ++ [.close .closeRead] })
      (hinv.notify (ne_disconnected_of_live hc) (by simp)) (hc ▸ hclose)
    rw [invokeCloseHandler, hrun]
    by_cases hfd : c₁.fd = true
    · have hlive := hleaves.inv.fd.1 hfd
      have hreg := hleaves.inv.registered.2 hlive
      obtain ⟨c₂, hcl, hinv₂, -⟩ := hleaves.inv.close fun hs => by rw [hs] at hlive; cases hlive
      refine ⟨true, c₂, ?_, hinv₂⟩
      show (if c₁.fd = true then _ else _) = _
      rw [if_pos hfd, updateDesire_of hreg, Option.bind_some, hcl]
      rfl
    · exact ⟨true, c₁, if_neg hfd, hleaves.inv⟩
  · exact ⟨true, c, rfl, hinv⟩

/-- Behind a read or a write handler: it returns false and the connection is closed, or it is still live. -/
theorem handler_careful {script : Script}
    (hscript : script.CarefulHandler c c.outbuf) {n : Notification} (hn : n ≠ closedNotification)
    (hclose : h.close.Careful .closed) {k : TcpConnection → Option (Bool × TcpConnection)}
    (hk : ∀ c', c'.Inv → c'.state.phase = .live → Completes (k c')) :
    Completes ((script.run { c with notified := c.notified ++ [n] }).bind fun (more, c) =>
      if more = false then (c.internalClose h.close.run .handler true).map fun c => (false, c) else k c) := by
  have hinv' := hinv.notify (ne_disconnected_of_live hc) hn
  obtain ⟨c₁, hrun, hleaves⟩ := run_careful hinv' (hc ▸ hscript.careful)
  rw [hrun]
  show Completes (if script.result = false then _ else _)
  split_ifs with hresult
  · refine Completes.map (hleaves.inv.internalClose_careful hclose .handler fun hne _ hup hasked => ?_) false
    -- The connection is open, so the handler has not closed it, and nothing is left in its outbuf.
    have hcl : script.closes = false := by
      cases hcl : script.closes with
      | true => exact absurd (hleaves.closed hcl) hne
      | false => rfl
    have hnothing := hscript.nothing_left hresult hcl (hleaves.hungUp ▸ hup)
      ((hleaves.asked hasked).imp_right And.right)
    have hput := hleaves.inv.put hne
    rw [hleaves.outbuf hcl, hnothing, append_nil] at hput
    exact hput.symm
  · have hcl : script.closes = false := by
      cases hcl : script.closes with
      | true => exact absurd (hscript.stops hcl) hresult
      | false => rfl
    exact hk c₁ hleaves.inv ((hleaves.phase hcl).trans hc)

end

/-- A live connection that is not being connected passes the check of the event functions. -/
theorem connected_or_flushing (hc : c.state.phase = .live) (hconn : c.state ≠ .connecting) :
    c.state = .connected ∨ c.state = .flushing := by
  cases hs : c.state with
  | disconnected => rw [hs] at hc; cases hc
  | resolving => rw [hs] at hc; cases hc
  | connecting => exact absurd hs hconn
  | connected => exact Or.inl rfl
  | flushing => exact Or.inr rfl

section

variable (hinv : c.Inv) (hc : c.state.phase = .live)

include hinv hc

theorem handleReadEvent_careful {r : ReadResult}
    (hclose : h.close.Careful .closed) (hconnect : c.state = .connecting → h.connect.Careful .live)
    (hread : c.state ≠ .connecting → h.closeRead.Careful .live ∧ (r.data ≠ [] → h.read.CarefulHandler c c.outbuf)) :
    Completes (c.handleReadEvent r h) := by
  rw [handleReadEvent, if_neg (ne_disconnected_of_live hc)]
  dsimp only
  split_ifs with hconn hstate hdata
  · exact handleConnected_careful hinv hc (hconnect hconn)
  · obtain ⟨hcloseRead, hhandler⟩ := hread hconn
    refine handler_careful (c := { c with inbuf := c.inbuf ++ r.data }) { hinv with } hc
      { hhandler hdata with } (by simp) hclose fun c' hinv' hlive => ?_
    exact afterRead_careful hinv' hlive hcloseRead
  · refine afterRead_careful { hinv with } hc (hread hconn).1
  · exact afterRead_careful { hinv with } hc (hread hconn).1
  · exact absurd (connected_or_flushing hc hconn) hstate

theorem afterWrite_careful {w : WriteResult} (hclose : h.close.Careful .closed) : Completes (c.afterWrite w h) := by
  rw [afterWrite]
  by_cases hout : c.outbuf = []
  · rw [if_pos hout, updateDesire_of (hinv.registered.2 hc), Option.bind_some]
    split_ifs
    · exact Completes.map (hinv.internalClose_forced hclose (by simp) (by simp)) false
    · -- The flush has come to its end: all that was put into outbuf has been sent.
      have hput : c.put = c.sent := by rw [hinv.put (ne_disconnected_of_live hc), hout, append_nil]
      refine ⟨true, _, rfl, { hinv with
        lingering := fun _ => hc
        flushed := fun p hp => ?_ }⟩
      cases hp
      exact hput ▸ prefix_refl _
    · exact ⟨true, c, rfl, hinv⟩
  · exact ⟨true, c, if_neg hout, hinv⟩

theorem Inv.send (n : Nat) : Inv { c with sent := c.sent ++ c.outbuf.take n, outbuf := c.outbuf.drop n } := by
  have hne := ne_disconnected_of_live hc
  have hput : c.put = c.sent ++ c.outbuf.take n ++ c.outbuf.drop n := by
    rw [append_assoc, take_append_drop]
    exact hinv.put hne
  exact { hinv with
    put := fun _ => hput
    given := ⟨_, hput.symm⟩
    flushed := fun p hp => (hinv.flushed p hp).trans (prefix_append _ _)
    complete := fun hwhy => by
      rw [hinv.ended hne] at hwhy
      rcases hwhy with hwhy | hwhy <;> cases hwhy }

theorem handleWriteEvent_careful {w : WriteResult}
    (hclose : h.close.Careful .closed) (hconnect : c.state = .connecting → h.connect.Careful .live)
    (hwrite : c.state = .connected → w.failed = false → h.write.CarefulHandler c (c.outbuf.drop w.taken)) :
    Completes (c.handleWriteEvent w h) := by
  have hinv' := hinv.send hc w.taken
  rw [handleWriteEvent, if_neg (ne_disconnected_of_live hc)]
  dsimp only
  split_ifs with hconn hstate hfailed hflushing
  · exact handleConnected_careful hinv hc (hconnect hconn)
  · exact Completes.map (hinv'.internalClose_forced hclose (by simp) (by simp)) false
  · have hconnected := hstate.resolve_right hflushing
    refine handler_careful hinv' hc { hwrite hconnected (Bool.not_eq_true _ ▸ hfailed) with } (by simp) hclose
      fun c' hinv₁ hlive => ?_
    exact afterWrite_careful hinv₁ hlive hclose
  · exact afterWrite_careful hinv' hc hclose
  · exact absurd (connected_or_flushing hc hconn) hstate

theorem handleErrorEvent_careful {e : ErrorEvents}
    (hclose : h.close.Careful .closed) : Completes (c.handleErrorEvent e h) := by
  have hhup : Inv { c with write_closed := true, hungUp := true } :=
    { hinv with complete := fun _ hup => by cases hup }
  have hrdhup : Inv { c with state := .flushing } := hinv.of_live hc rfl
  rw [handleErrorEvent, if_neg (ne_disconnected_of_live hc)]
  dsimp only
  split_ifs
  · exact Completes.map (hinv.internalClose_forced hclose (by simp) (by simp)) false
  · exact ⟨true, _, rfl, hhup⟩
  · exact Completes.map (hhup.internalClose_forced hclose (by simp) (by simp)) false
  · exact ⟨true, _, rfl, hrdhup⟩
  · exact Completes.map (hrdhup.internalClose_forced hclose (by simp) (by simp)) false
  · exact ⟨true, c, rfl, hinv⟩

end

/-- The connection with a socket that is being connected. -/
abbrev connectingState (c : TcpConnection) : TcpConnection :=
  { c with fd := true, registered := true, state := .connecting, read_closed := false, write_closed := false }

theorem Inv.connecting (hinv : c.Inv) (hc : c.state = .resolving) : (connectingState c).Inv := by
  have hne : c.state ≠ .disconnected := by simp [hc]
  exact { hinv with
    fd := ⟨fun _ => rfl, fun _ => rfl⟩
    registered := ⟨fun _ => rfl, fun _ => rfl⟩
    lingering := fun _ => rfl
    put := fun _ => hinv.put hne
    quiet := fun _ => hinv.quiet hne
    notified := fun h => by cases h
    ended := fun _ => hinv.ended hne
    why := fun h => by cases h
    unasked := fun h => by cases h }

theorem handleDnsResult_careful (hinv : c.Inv) (hc : c.state = .resolving) (hclose : h.close.Careful .closed)
    {info : Option Socket} (hfailed : info ≠ some .failed) (hadded : info ≠ some .notAdded) :
    ∃ c', c.handleDnsResult info h = some c' ∧ c'.Inv := by
  have hne : c.state ≠ .disconnected := by simp [hc]
  have hfd := hinv.fd_false (by simp [hc, phase])
  have hreg : c.registered = false := by
    refine Bool.eq_false_iff.2 fun hreg => ?_
    have hlive := hinv.registered.1 hreg
    rw [hc] at hlive
    cases hlive
  unfold handleDnsResult
  rw [if_pos hc]
  cases info with
  | none =>
    have hinv' : Inv { c with
        state := .disconnected, ended := some .unresolved, notified := c.notified ++ [closedNotification] } :=
      { hinv with
        fd := by simp [hfd, phase]
        registered := by simp [hreg, phase]
        lingering := fun hl => by
          have hlive := hinv.lingering hl
          rw [hc] at hlive
          cases hlive
        put := fun h => absurd rfl h
        quiet := fun h => absurd rfl h
        notified := fun _ => ⟨c.notified, rfl, hinv.quiet hne⟩
        ended := fun h => absurd rfl h
        why := fun _ => ⟨_, rfl⟩
        unasked := fun h => by cases h
        complete := fun _ _ hasked => by cases (hinv.unasked hc).symm.trans hasked }
    obtain ⟨c', hrun, hleaves⟩ := run_careful hinv' hclose
    refine ⟨c', ?_, hleaves.inv⟩
    rw [invokeCloseHandler]
    exact congrArg (Option.map Prod.snd) hrun
  | some socket =>
    have hinv' := hinv.connecting hc
    have hfailed' : socket ≠ .failed := fun h => hfailed (by rw [h])
    have hadded' : socket ≠ .notAdded := fun h => hadded (by rw [h])
    have hconnect : c.connect true socket =
        if socket = .refused then some (false, closed .unresolved (connectingState c))
        else some (true, connectingState c) := by
      rw [connect, if_pos ⟨Or.inr hc, hfd⟩, if_neg (by simp [hc]), if_neg hfailed', if_neg (by simp [hreg]),
        if_neg hadded']
      rfl
    show ∃ c' : TcpConnection, (c.connect true socket).bind _ = some c' ∧ c'.Inv
    rw [hconnect]
    split_ifs
    · -- The connect has failed at once. The connection is closed without its handler, which is told here.
      obtain ⟨c', hrun, hleaves⟩ := run_careful (hinv'.closed (by simp) .unresolved
        fun _ _ hasked => by cases (hinv.unasked hc).symm.trans hasked) hclose
      refine ⟨c', ?_, hleaves.inv⟩
      show invokeCloseHandler h.close.run .closeReadWrite _ = some c'
      rw [invokeCloseHandler]
      exact congrArg (Option.map Prod.snd) hrun
    · exact ⟨_, rfl, hinv'⟩

/-- What one step does. -/
theorem step_careful {e : Event} (hinv : c.Inv) (he : e.Careful c) : ∃ c', c.step e = some c' ∧ c'.Inv := by
  cases e with
  | application script =>
    obtain ⟨c', hrun, hleaves⟩ := run_careful hinv he
    exact ⟨c', by rw [step, hrun]; rfl, hleaves.inv⟩
  | error e h =>
    rw [step]
    split_ifs with hreg
    · exact (handleErrorEvent_careful hinv (hinv.registered.1 hreg) (he hreg)).snd
    · exact ⟨c, rfl, hinv⟩
  | read r h =>
    rw [step]
    split_ifs with hreg
    · obtain ⟨hclose, hconnect, hread⟩ := he hreg
      exact (handleReadEvent_careful hinv (hinv.registered.1 hreg) hclose hconnect hread).snd
    · exact ⟨c, rfl, hinv⟩
  | write w h =>
    rw [step]
    split_ifs with hreg
    · obtain ⟨hclose, hconnect, hwrite⟩ := he hreg
      exact (handleWriteEvent_careful hinv (hinv.registered.1 hreg) hclose hconnect hwrite).snd
    · exact ⟨c, rfl, hinv⟩
  | timeout h =>
    rw [step]
    split_ifs with hlinger
    · have hinv' : Inv { c with lingering := false } := { hinv with lingering := fun h => by cases h }
      exact hinv'.internalClose_forced (he hlinger) (by simp) (by simp)
    · exact ⟨c, rfl, hinv⟩
  | dnsReturn =>
    refine ⟨_, rfl, ?_⟩
    split_ifs
    · exact { hinv with }
    · exact hinv
  | dnsResult info h =>
    rw [step]
    split_ifs with hquery
    · obtain ⟨hclose, hres, hfailed, hadded⟩ := he hquery
      exact handleDnsResult_careful (c := { c with query := .none }) { hinv with } hres hclose hfailed hadded
    · exact ⟨c, rfl, hinv⟩

/-- A connection that has just been made. -/
theorem Made.inv (h : c.Made) : c.Inv := by
  have hmade : ∀ c : TcpConnection, c.state ≠ .disconnected → c.put = [] ∧ c.sent = [] ∧ c.outbuf = [] →
      c.notified = [] ∧ c.ended = none ∧ c.asked = false ∧ c.flushed = none ∧ c.lingering = false →
      (c.fd = true ↔ c.state.phase = .live) → (c.registered = true ↔ c.state.phase = .live) → c.Inv := by
    rintro c hstate ⟨hput, hsent, hout⟩ ⟨hnotified, hended, hasked, hflushed, hlinger⟩ hfd hreg
    exact {
      fd := hfd
      registered := hreg
      lingering := fun h => by rw [hlinger] at h; cases h
      put := fun _ => by simp [hput, hsent, hout]
      given := by simp [hput, hsent]
      flushed := fun p hp => by rw [hflushed] at hp; cases hp
      quiet := fun _ => by rw [hnotified]; exact not_mem_nil
      notified := fun h => absurd h hstate
      ended := fun _ => hended
      why := fun h => absurd h hstate
      unasked := fun _ => hasked
      complete := fun _ _ _ => by rw [hput, hsent] }
  rcases h with ⟨optionsSet, added, hwrap⟩ | ⟨resolved, socket, hconnect⟩
  · cases optionsSet <;> cases added <;> cases hwrap
    exact hmade _ (by simp) (by simp) (by simp) (by simp [phase]) (by simp [phase])
  · cases resolved <;> cases socket <;> cases hconnect <;>
      exact hmade _ (by simp) (by simp) (by simp) (by simp [phase]) (by simp [phase])

/-! ## The property -/

/-- What a connection does to its owner and its peer. -/
structure EndsCleanly (c : TcpConnection) : Prop where
  /-- The bytes given to the kernel are the first of those put into `outbuf`. -/
  given : c.sent <+: c.put
  /-- When the write half was shut down by a flush, everything had been given. -/
  flushed : ∀ p, c.flushed = some p → p <+: c.sent
  /-- Everything is given if the connection ends with `FlushAndClose`, and not with an error, a `HUP`, `ForceClose` or
  the linger timeout. -/
  complete : c.state = .disconnected → c.asked = true → c.hungUp = false →
    (∀ why ∈ [Cause.error, .hangUp, .forceClose, .lingerTimeout], c.ended ≠ some why) → c.sent = c.put
  closed_once : c.notified.count closedNotification = if c.state = .disconnected then 1 else 0
  closed_last : ∀ before after, c.notified = before ++ closedNotification :: after → after = []

theorem Inv.endsCleanly (hinv : c.Inv) : c.EndsCleanly where
  given := hinv.given
  flushed := hinv.flushed
  complete hstate hasked hup hwhy := by
    obtain ⟨why, hended⟩ := hinv.why hstate
    refine hinv.complete ?_ hup hasked
    cases why with
    | handler => exact Or.inl hended
    | unresolved => exact Or.inr hended
    | error => exact absurd hended (hwhy _ (by simp))
    | hangUp => exact absurd hended (hwhy _ (by simp))
    | forceClose => exact absurd hended (hwhy _ (by simp))
    | lingerTimeout => exact absurd hended (hwhy _ (by simp))
  closed_once := by
    split_ifs with hstate
    · obtain ⟨before, hnotified, hbefore⟩ := hinv.notified hstate
      rw [hnotified, count_append, count_eq_zero.2 hbefore, count_singleton_self]
    · exact count_eq_zero.2 (hinv.quiet hstate)
  closed_last before after hsplit := by
    by_cases hstate : c.state = .disconnected
    · obtain ⟨_, hnotified, hbefore⟩ := hinv.notified hstate
      rcases eq_nil_or_concat after with hnil | ⟨_, _, hlast⟩
      · exact hnil
      · -- With a handler behind it, the notification would be among those before the last one.
        rw [hnotified, hlast, concat_eq_append, ← cons_append, ← append_assoc] at hsplit
        obtain ⟨hbefore', -⟩ := append_inj' hsplit rfl
        refine absurd ?_ hbefore
        rw [hbefore']
        exact mem_append_right _ mem_cons_self
    · refine absurd ?_ (hinv.quiet hstate)
      rw [hsplit]
      exact mem_append_right _ mem_cons_self

/-- Connections end cleanly in every run in which each step is careful. -/
theorem ends_cleanly (hmade : c.Made) {es : List Event} (hes : Along step Event.Careful c es) :
    ∃ c', run step c es = some c' ∧ c'.EndsCleanly := by
  obtain ⟨c', hrun, hinv⟩ := run_along (fun c e hinv he => step_careful hinv he) hmade.inv hes
  exact ⟨c', hrun, hinv.endsCleanly⟩

/-- What `Wrap` makes. -/
def wrapped : TcpConnection :=
  { state := .connected, fd := true, registered := true, read_closed := false, write_closed := false }

theorem wrapped_made : wrapped.Made := Or.inl ⟨true, true, rfl⟩

/-- Handlers that only return. -/
def idle : Handlers := ⟨.ret true, .ret true, .ret true, .ret true, .ret true⟩

/-- Bytes are flushed, and the peer hangs up. -/
def flushRun : List Event :=
  [.application (.write [97, 98] (.flushAndClose (.ret true))), .write ⟨2, false, false⟩ idle,
    .error ⟨false, true, false, false⟩ idle]

theorem ends_cleanly_flush : ∃ c', run step wrapped flushRun = some c' ∧ c'.EndsCleanly := by
  refine ends_cleanly wrapped_made ⟨⟨rfl, (nomatch ·), trivial⟩, ?_⟩
  intro c hc
  cases hc
  refine ⟨fun _ => ⟨trivial, fun _ => trivial, fun h => by cases h⟩, ?_⟩
  intro c hc
  cases hc
  exact ⟨fun _ => trivial, fun _ _ => trivial⟩

/-- Read and write handlers that close the connection and return true. -/
def closing : Handlers :=
  { idle with read := .forceClose (.ret true) (.ret true), write := .forceClose (.ret true) (.ret true) }

/-- Behind such a write handler the process is aborted, and behind such a read handler the close handler is run again.
`FlushAndClose` aborts the process while the address is being resolved. -/
theorem does_not_end_cleanly : (wrapped.Made ∧ run step wrapped [.write ⟨0, false, false⟩ closing] = none) ∧
      (wrapped.Made ∧ ∃ c', run step wrapped [.read ⟨[97], false⟩ closing] = some c' ∧ ¬ c'.EndsCleanly) ∧
      ∃ c, connect false .pending {} = some (true, c) ∧
        run step c [.application (.flushAndClose (.ret true))] = none := by
  refine ⟨⟨wrapped_made, rfl⟩, ⟨wrapped_made, _, rfl, fun h => ?_⟩, _, rfl, rfl⟩
  exact absurd (h.closed_last [.read] [.close .closeRead] rfl) (cons_ne_nil _ _)

end TcpConnection

end Whispercast.Net
