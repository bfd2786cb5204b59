import Whispercast.Library.AssocList
import Whispercast.Library.Run
import Whispercast.Rtsp.Message

/-!
# Sessions of the RTSP server

Model of `ServerProcessor` (`rtsp_server_processor.cc`) and `Session` (`rtsp_session.cc`), as far as sessions come and
go. Connections are numbered as they come, so that one that has been closed is never open again. What the media
interface answers, and the id that is generated, are part of a SETUP; `none` is a failed `CHECK`, or what cannot happen.
Left out: the replies, RTP itself, and requests that touch no session.
-/

namespace Whispercast.Rtsp

open Io Library List Option
open Http (ascii)
open AssocList

/-- `Session`. `active_req_` is the connection of the request; `describing` says that `ContinueSetup` is to be called,
and `creator` is the connection of the SETUP that created the session. -/
structure Session where
  id_ : Bytes
  media_ : Bytes := []
  broadcaster_ : Bool := false
  timeouter_ : Bool := false
  active_req_ : Option Nat := none
  describing : Bool := false
  creator : Nat
  deriving DecidableEq

/-- `ServerProcessor`, with the `session_id_` of each open connection, the sessions that are to be deleted, and the
connections that `HandleConnectionClose` was called for. -/
structure ServerProcessor where
  sessions_ : List (Bytes × Session) := []
  connections : List (Nat × Bytes) := []
  connected : Nat := 0
  deleted : List Session := []
  closed : List Nat := []
  deriving DecidableEq

/-- What a SETUP has in its header. -/
structure SetupRequest where
  cSeq : Option Int := some 1
  transport : Option TransportHeaderField
  session : Option Bytes := none
  media : Bytes

/-- What `Describe` answers; it may call back at once. -/
inductive Described where
  | refused | pending | done

/-- What a SETUP is answered outside of the processor: by `UdpSender::Initialize`, `Attach` and `Describe`. -/
structure SetupOutcome where
  initialized : Bool := true
  attached : Bool := true
  described : Described := .pending

namespace SetupRequest

def isInterleaved (transport : TransportHeaderField) : Bool := transport.lower_transport_ = some (ascii "TCP")

/-- `CHECK`s of the channels. -/
def badChannels (channels : Int × Int) : Bool :=
  channels.1 < 0 ∨ channels.1 > 255 ∨ channels.2 < 0 ∨ channels.2 > 255

/-- The status of a SETUP that is refused for its header. -/
def refusal (req : SetupRequest) : Option StatusCode :=
  if req.cSeq = none then some .badRequest
  else match req.transport with
    | none => some .badRequest
    | some transport =>
      if transport.transport_ ≠ ascii "RTP" ∨ transport.profile_ ≠ ascii "AVP" ∨
          (transport.lower_transport_.isSome ∧ transport.lower_transport_ ≠ some (ascii "TCP") ∧
            transport.lower_transport_ ≠ some (ascii "UDP")) then some .unsupportedTransport
      else if transport.mode_.isSome ∧ transport.mode_ ≠ some (ascii "PLAY") then some .unsupportedTransport
      else if isInterleaved transport then
        if transport.interleaved_.any badChannels then some .badRequest else none
      else if transport.client_port_ = none then some .unsupportedTransport
      else none

/-- The SETUP is for RTP over UDP. -/
def isUdp (req : SetupRequest) : Bool := !req.transport.any isInterleaved

end SetupRequest

namespace ServerProcessor

variable (s : ServerProcessor)

/-! ## The map of the sessions -/

def findSession (id : Bytes) : Option Session := s.sessions_.lookup id

/-- The connection is there. -/
def IsOpen (conn : Nat) : Prop := s.connections.lookup conn ≠ none

instance decidableIsOpen (conn : Nat) : Decidable (s.IsOpen conn) := inferInstanceAs (Decidable (_ ≠ _))

/-- The session in the map is changed. -/
def update (id : Bytes) (f : Session → Session) : ServerProcessor :=
  { s with sessions_ := s.sessions_.map fun e => if e.1 = id then (e.1, f e.2) else e }

def addSession (session : Session) (conn : Nat) : Option ServerProcessor := do
  guard (s.findSession session.id_ = none)
  some { s with
    sessions_ := (session.id_, session) :: s.sessions_
    connections := AssocList.setSorted conn session.id_ s.connections }

def deleteSession (id : Bytes) : Option ServerProcessor := do
  let session ← s.findSession id
  some { s with
    sessions_ := s.sessions_.filter fun e => e.1 ≠ id
    deleted := s.deleted ++ [session] }

/-! ## What a session tells the processor, and what it is told -/

/-- `HandleSessionSetupCompleted`; the reply needs the connection of the request. -/
def handleSessionSetupCompleted (id : Bytes) : Option ServerProcessor := do
  let session ← s.findSession id
  let conn ← session.active_req_
  guard (s.IsOpen conn)
  some (s.update id fun session => { session with active_req_ := none })

/-- `HandleSessionClosed` for a session of the map. -/
def handleSessionClosed (id : Bytes) : Option ServerProcessor :=
  (s.update id fun session => { session with active_req_ := none }).deleteSession id

/-- `Session::Teardown` for a session of the map. -/
def teardown (id : Bytes) : Option ServerProcessor := do
  let session ← s.findSession id
  if session.broadcaster_ then
    (s.update id fun session => { session with broadcaster_ := false }).handleSessionClosed id
  else some s

def continueSetup (id : Bytes) : Option ServerProcessor := do
  let session ← s.findSession id
  guard (session.broadcaster_ = true)
  let s ← s.handleSessionSetupCompleted id
  some (s.update id fun session => { session with timeouter_ := true })

/-- The first `Session::Setup`, from the new `Broadcaster` on. -/
def attach (id : Bytes) (outcome : SetupOutcome) : Option ServerProcessor :=
  let s := s.update id fun session => { session with broadcaster_ := true }
  if outcome.attached then
    match outcome.described with
    | .refused => s.teardown id
    | .pending => some (s.update id fun session => { session with describing := true })
    | .done => s.continueSetup id
  else s.teardown id

def setup (id media : Bytes) (isUdp : Bool) (outcome : SetupOutcome) : Option ServerProcessor := do
  let session ← s.findSession id
  if session.media_ = [] then
    let s := s.update id fun session => { session with media_ := media }
    if isUdp ∧ outcome.initialized = false then s.handleSessionClosed id
    else do
      guard (session.broadcaster_ = false)
      s.attach id outcome
  else if media ≠ session.media_ then s.teardown id
  else do
    guard (session.broadcaster_ = true)
    let s ← s.handleSessionSetupCompleted id
    some (s.update id fun session => { session with timeouter_ := true })

/-! ## The requests -/

/-- `HandleSetup`; `generated` is what `GenerateSessionID` returns. -/
def handleSetup (conn : Nat) (req : SetupRequest) (generated : Bytes) (outcome : SetupOutcome) :
    Option ServerProcessor :=
  if req.refusal.isSome then some s
  else
    match req.session with
    | some id =>
      if s.findSession id = none then some s
      else (s.update id fun session => { session with active_req_ := some conn }).setup id req.media req.isUdp outcome
    | none => do
        let s ← s.addSession { id_ := generated, creator := conn } conn
        (s.update generated fun session => { session with active_req_ := some conn }).setup generated req.media
          req.isUdp outcome

/-- `HandlePlay` and `HandlePause` with a session. -/
def handlePlay (id : Bytes) : Option ServerProcessor :=
  match s.findSession id with
  | none => some s
  | some session => do
      guard (session.broadcaster_ = true)
      some (s.update id fun session => { session with timeouter_ := false })

/-- A session is torn down, if it is there: by `HandleTeardown`, or by the closure of `BroadcasterEosHandler`. -/
def handleTeardown (id : Bytes) : Option ServerProcessor :=
  if s.findSession id = none then some s else s.teardown id

/-- A connection is gone. -/
def disconnect (conn : Nat) : ServerProcessor :=
  { s with
    connections := s.connections.filter fun c => c.1 ≠ conn
    closed := conn :: s.closed }

def handleConnectionClose (conn : Nat) : Option ServerProcessor := do
  let session_id ← s.connections.lookup conn
  (s.disconnect conn).handleTeardown session_id

/-- What happens. -/
inductive Event where
  /-- A connection is accepted. -/
  | connect
  | setup (conn : Nat) (req : SetupRequest) (generated : Bytes) (outcome : SetupOutcome)
  /-- `Describe` calls back. -/
  | described (id : Bytes)
  | play (conn : Nat) (id : Bytes)
  | teardown (conn : Nat) (id : Bytes)
  /-- `Session::TimeoutHandler`. -/
  | timeout (id : Bytes)
  /-- The closure of `BroadcasterEosHandler`. -/
  | eos (id : Bytes)
  /-- The next session of `DeleteInSelectLoop` is destroyed. -/
  | delete
  | close (conn : Nat)

/-- One step. -/
def step : Event → Option ServerProcessor
  | .connect => some { s with
      connections := AssocList.setSorted s.connected [] s.connections
      connected := s.connected + 1 }
  | .setup conn req generated outcome => do
      guard (s.IsOpen conn)
      s.handleSetup conn req generated outcome
  | .described id => do
      let session ← s.findSession id
      guard (session.describing = true)
      (s.update id fun session => { session with describing := false }).continueSetup id
  | .play conn id => do
      guard (s.IsOpen conn)
      s.handlePlay id
  | .teardown conn id => do
      guard (s.IsOpen conn)
      s.handleTeardown id
  | .timeout id => do
      let session ← s.findSession id
      guard (session.timeouter_ = true)
      (s.update id fun session => { session with timeouter_ := false }).teardown id
  | .eos id => s.handleTeardown id
  | .delete =>
    match s.deleted with
    | [] => some s
    | session :: deleted =>
      let s := { s with deleted := deleted }
      -- `~Session` tears down a session that was closed with its broadcaster
      if session.broadcaster_ then s.deleteSession session.id_ else some s
  | .close conn => s.handleConnectionClose conn

/-! ## Sessions and their connections -/

/-- No session survives its connection, and each is stored under its own id, once. -/
structure NoneSurvives : Prop where
  nodup : (AssocList.keys s.sessions_).Nodup
  own : ∀ e ∈ s.sessions_, e.1 = e.2.id_
  alive : ∀ e ∈ s.sessions_, e.2.creator ∉ s.closed

/-- A SETUP creates a session only where no session of its connection is left. -/
def OneSession : Event → Prop
  | .setup conn req _ _ => req.refusal = none → req.session = none → ∀ e ∈ s.sessions_, e.2.creator ≠ conn
  | _ => True

instance decidableOneSession : ∀ e, Decidable (s.OneSession e)
  | .setup _ _ _ _ => inferInstanceAs (Decidable (_ → _ → _))
  | .connect => isTrue trivial
  | .described _ => isTrue trivial
  | .play _ _ => isTrue trivial
  | .teardown _ _ => isTrue trivial
  | .timeout _ => isTrue trivial
  | .eos _ => isTrue trivial
  | .delete => isTrue trivial
  | .close _ => isTrue trivial

/-- Each session is the one that its connection has the id of. -/
structure Linked : Prop where
  nodup : (AssocList.keys s.sessions_).Nodup
  own : ∀ e ∈ s.sessions_, e.1 = e.2.id_
  linked : ∀ e ∈ s.sessions_, s.connections.lookup e.2.creator = some e.1
  opened : ∀ conn, s.IsOpen conn → conn < s.connected ∧ conn ∉ s.closed
  closed : ∀ conn ∈ s.closed, conn < s.connected

/-- The sessions under other ids have their broadcasters. -/
def BroadcastBeside (id : Bytes) : Prop := ∀ e ∈ s.sessions_, e.1 ≠ id → e.2.broadcaster_ = true

/-- The invariant: each session is linked to its connection, and has its broadcaster. -/
structure Inv : Prop where
  linked : s.Linked
  broadcast : ∀ e ∈ s.sessions_, e.2.broadcaster_ = true

variable {s} {s' : ServerProcessor} {id : Bytes} {session : Session} {f : Session → Session}

/-! ## Sessions that are changed -/

@[simp] theorem keys_update : AssocList.keys (s.update id f).sessions_ = AssocList.keys s.sessions_ := by
  rw [update, AssocList.keys, List.map_map]
  apply List.map_congr_left
  intro e _
  by_cases he : e.1 = id <;> simp [he]

theorem mem_update {e : Bytes × Session} (he : e ∈ (s.update id f).sessions_) :
    ∃ e' ∈ s.sessions_, e.1 = e'.1 ∧ (e'.1 = id ∧ e.2 = f e'.2 ∨ e'.1 ≠ id ∧ e.2 = e'.2) := by
  obtain ⟨e', he', rfl⟩ := mem_map.1 he
  by_cases hid : e'.1 = id
  · exact ⟨e', he', by simp [hid]⟩
  · exact ⟨e', he', by simp [hid]⟩

theorem findSession_update (s : ServerProcessor) (id : Bytes) (f : Session → Session) :
    (s.update id f).findSession id = (s.findSession id).map f := by
  rw [findSession, findSession, update]
  induction s.sessions_ with
  | nil => rfl
  | cons e sessions ih =>
    by_cases he : id = e.1
    · subst he
      rw [map_cons, if_pos rfl, lookup_cons_self, lookup_cons_self, map_some]
    · rw [map_cons, if_neg (Ne.symm he), lookup_cons, lookup_cons, beq_false_of_ne he]
      exact ih

/-- The other sessions are not changed. -/
theorem filter_update (s : ServerProcessor) (id : Bytes) (f : Session → Session) :
    ((s.update id f).sessions_.filter fun e => e.1 ≠ id) = s.sessions_.filter fun e => e.1 ≠ id := by
  rw [update]
  induction s.sessions_ with
  | nil => rfl
  | cons e sessions ih =>
    by_cases he : e.1 = id
    · simp only [map_cons, if_pos he]
      rw [filter_cons_of_neg (by simp [he]), filter_cons_of_neg (by simp [he]), ih]
    · simp only [map_cons, if_neg he]
      rw [filter_cons_of_pos (by simp [he]), filter_cons_of_pos (by simp [he]), ih]

/-- A session changes neither its id nor its creator. -/
theorem Linked.update (h : s.Linked) (hid : ∀ session, (f session).id_ = session.id_)
    (hcreator : ∀ session, (f session).creator = session.creator) : (s.update id f).Linked where
  nodup := by
    rw [keys_update]
    exact h.nodup
  own := by
    intro e he
    obtain ⟨e', he', hkey, ⟨-, hvalue⟩ | ⟨-, hvalue⟩⟩ := mem_update he
    · rw [hkey, hvalue, hid]
      exact h.own e' he'
    · rw [hkey, hvalue]
      exact h.own e' he'
  linked := by
    intro e he
    obtain ⟨e', he', hkey, ⟨-, hvalue⟩ | ⟨-, hvalue⟩⟩ := mem_update he
    · rw [hkey, hvalue, hcreator]
      exact h.linked e' he'
    · rw [hkey, hvalue]
      exact h.linked e' he'
  opened := h.opened
  closed := h.closed

theorem BroadcastBeside.update (h : s.BroadcastBeside id) : (s.update id f).BroadcastBeside id := by
  intro e he hne
  obtain ⟨e', he', hkey, ⟨heq, -⟩ | ⟨-, hvalue⟩⟩ := mem_update he
  · exact absurd (hkey.trans heq) hne
  · rw [hvalue]
    exact h e' he' (hkey ▸ hne)

theorem Inv.beside (h : s.Inv) (id : Bytes) : s.BroadcastBeside id := fun e he _ => h.broadcast e he

theorem Inv.update (h : s.Inv) (hid : ∀ session, (f session).id_ = session.id_)
    (hcreator : ∀ session, (f session).creator = session.creator)
    (hbroadcaster : ∀ session, session.broadcaster_ = true → (f session).broadcaster_ = true) :
    (s.update id f).Inv where
  linked := h.linked.update hid hcreator
  broadcast := by
    intro e he
    obtain ⟨e', he', -, ⟨-, hvalue⟩ | ⟨-, hvalue⟩⟩ := mem_update he
    · rw [hvalue]
      exact hbroadcaster e'.2 (h.broadcast e' he')
    · rw [hvalue]
      exact h.broadcast e' he'

/-- The session that is found has its broadcaster, and so have all. -/
theorem inv_of_beside (hl : s.Linked) (hb : s.BroadcastBeside id)
    (hfind : ∀ session, s.findSession id = some session → session.broadcaster_ = true) : s.Inv where
  linked := hl
  broadcast := by
    intro e he
    by_cases hid : e.1 = id
    · subst hid
      exact hfind e.2 (lookup_of_mem hl.nodup he)
    · exact hb e he hid

/-! ## Sessions that are closed -/

/-- The map without a session. -/
def without (s : ServerProcessor) (id : Bytes) (session : Session) : ServerProcessor :=
  { s with sessions_ := s.sessions_.filter fun e => e.1 ≠ id, deleted := s.deleted ++ [session] }

theorem mem_without {e : Bytes × Session} (he : e ∈ (s.without id session).sessions_) :
    e ∈ s.sessions_ ∧ e.1 ≠ id := by
  simpa [without] using he

theorem Linked.without (h : s.Linked) (id : Bytes) (session : Session) : (s.without id session).Linked where
  nodup := h.nodup.sublist (filter_sublist.map Prod.fst)
  own e he := h.own e (mem_without he).1
  linked e he := h.linked e (mem_without he).1
  opened := h.opened
  closed := h.closed

theorem inv_without (hl : s.Linked) (hb : s.BroadcastBeside id) : (s.without id session).Inv where
  linked := hl.without id session
  broadcast e he := hb e (mem_without he).1 (mem_without he).2

theorem handleSessionClosed_of (hfind : s.findSession id = some session) :
    s.handleSessionClosed id = some (s.without id { session with active_req_ := none }) := by
  rw [handleSessionClosed, deleteSession, findSession_update, hfind]
  simp only [map_some, bind_eq_bind, bind_some, filter_update]
  rfl

theorem teardown_of (hfind : s.findSession id = some session) (hbroadcaster : session.broadcaster_ = true) :
    s.teardown id = some (s.without id { session with broadcaster_ := false, active_req_ := none }) := by
  have hfind' := findSession_update s id fun session => { session with broadcaster_ := false }
  rw [hfind, map_some] at hfind'
  rw [teardown, hfind]
  simp only [bind_eq_bind, bind_some, hbroadcaster, if_true]
  rw [handleSessionClosed_of hfind', ServerProcessor.without, filter_update]
  rfl

theorem inv_teardown (h : s.Inv) (hstep : s.teardown id = some s') : s'.Inv := by
  cases hfind : s.findSession id with
  | none => simp [teardown, hfind] at hstep
  | some session =>
    have hbroadcaster := h.broadcast _ (mem_of_lookup hfind)
    rw [teardown_of hfind hbroadcaster] at hstep
    cases hstep
    exact inv_without h.linked (h.beside id)

theorem inv_handleTeardown (h : s.Inv) (hstep : s.handleTeardown id = some s') : s'.Inv := by
  rw [handleTeardown] at hstep
  by_cases hfind : s.findSession id = none
  · rw [if_pos hfind] at hstep
    cases hstep
    exact h
  · rw [if_neg hfind] at hstep
    exact inv_teardown h hstep

/-! ## SETUP -/

theorem inv_handleSessionSetupCompleted (h : s.Inv) (hstep : s.handleSessionSetupCompleted id = some s') : s'.Inv := by
  simp only [handleSessionSetupCompleted, bind_eq_bind, bind_eq_some_iff] at hstep
  obtain ⟨-, -, -, -, -, -, hstep⟩ := hstep
  cases hstep
  exact h.update (fun _ => rfl) (fun _ => rfl) fun _ hb => hb

theorem inv_continueSetup (h : s.Inv) (hstep : s.continueSetup id = some s') : s'.Inv := by
  simp only [continueSetup, bind_eq_bind, bind_eq_some_iff] at hstep
  obtain ⟨_, -, -, -, _, hcompleted, hstep⟩ := hstep
  cases hstep
  exact (inv_handleSessionSetupCompleted h hcompleted).update (fun _ => rfl) (fun _ => rfl) fun _ hb => hb

/-- The new broadcaster is attached, or the session is torn down with it. -/
theorem inv_attach {outcome : SetupOutcome} (hl : s.Linked) (hb : s.BroadcastBeside id)
    (hstep : s.attach id outcome = some s') : s'.Inv := by
  have h : (s.update id fun session => { session with broadcaster_ := true }).Inv := by
    have hbeside := hb.update (f := fun session => { session with broadcaster_ := true })
    refine inv_of_beside (hl.update (fun _ => rfl) fun _ => rfl) hbeside ?_
    intro session hfind
    rw [findSession_update, map_eq_some_iff] at hfind
    obtain ⟨-, -, rfl⟩ := hfind
    rfl
  rw [attach] at hstep
  cases hattached : outcome.attached with
  | false =>
    rw [hattached, if_neg Bool.false_ne_true] at hstep
    exact inv_teardown h hstep
  | true =>
    rw [hattached, if_pos rfl] at hstep
    cases hdescribed : outcome.described with
    | refused =>
      rw [hdescribed] at hstep
      exact inv_teardown h hstep
    | pending =>
      rw [hdescribed] at hstep
      cases hstep
      exact h.update (fun _ => rfl) (fun _ => rfl) fun _ hb => hb
    | done =>
      rw [hdescribed] at hstep
      exact inv_continueSetup h hstep

/-- A session that has been set up before has its broadcaster. -/
theorem inv_setup {media : Bytes} {isUdp : Bool} {outcome : SetupOutcome} (hl : s.Linked) (hb : s.BroadcastBeside id)
    (hset : ∀ session, s.findSession id = some session → session.media_ = [] ∨ session.broadcaster_ = true)
    (hstep : s.setup id media isUdp outcome = some s') : s'.Inv := by
  cases hfind : s.findSession id with
  | none => simp [setup, hfind] at hstep
  | some session =>
    simp only [setup, hfind, bind_eq_bind, bind_some] at hstep
    by_cases hfirst : session.media_ = []
    · rw [if_pos hfirst] at hstep
      have hl' : (s.update id fun session => { session with media_ := media }).Linked :=
        hl.update (fun _ => rfl) fun _ => rfl
      by_cases hudp : isUdp = true ∧ outcome.initialized = false
      · rw [if_pos hudp] at hstep
        have hfind' := findSession_update s id fun session => { session with media_ := media }
        rw [hfind, map_some] at hfind'
        rw [handleSessionClosed_of hfind'] at hstep
        cases hstep
        exact inv_without hl' hb.update
      · rw [if_neg hudp, bind_eq_some_iff] at hstep
        obtain ⟨-, -, hstep⟩ := hstep
        exact inv_attach hl' hb.update hstep
    · rw [if_neg hfirst] at hstep
      have hbroadcaster := (hset session hfind).resolve_left hfirst
      have h : s.Inv := inv_of_beside hl hb fun other hother => by
        rw [hfind] at hother
        cases hother
        exact hbroadcaster
      by_cases hmedia : media ≠ session.media_
      · rw [if_pos hmedia] at hstep
        exact inv_teardown h hstep
      · rw [if_neg hmedia] at hstep
        simp only [bind_eq_some_iff] at hstep
        obtain ⟨-, -, _, hcompleted, hstep⟩ := hstep
        cases hstep
        exact (inv_handleSessionSetupCompleted h hcompleted).update (fun _ => rfl) (fun _ => rfl) fun _ hb => hb

/-- A new session is linked to its connection, which has no other. -/
theorem addSession_of {conn : Nat} (h : s.Inv) (hopen : s.IsOpen conn) (hnone : ∀ e ∈ s.sessions_, e.2.creator ≠ conn)
    (hstep : s.addSession { id_ := id, creator := conn } conn = some s') :
    s'.Linked ∧ s'.BroadcastBeside id ∧ s'.findSession id = some { id_ := id, creator := conn } := by
  have hnew : s.findSession id = none := by
    by_contra hfound
    rw [addSession, guard_of_not hfound] at hstep
    cases hstep
  rw [addSession, guard_of hnew] at hstep
  cases hstep
  refine ⟨⟨?_, ?_, ?_, ?_, h.linked.closed⟩, ?_, lookup_cons_self⟩
  · exact nodup_cons.2 ⟨lookup_eq_none.1 hnew, h.linked.nodup⟩
  · intro e he
    rcases mem_cons.1 he with rfl | he
    · rfl
    · exact h.linked.own e he
  · intro e he
    rw [lookup_setSorted]
    rcases mem_cons.1 he with rfl | he
    · rw [if_pos rfl]
    · rw [if_neg (hnone e he)]
      exact h.linked.linked e he
  · intro other hother
    rw [IsOpen, lookup_setSorted] at hother
    by_cases heq : other = conn
    · subst heq
      exact h.linked.opened other hopen
    · rw [if_neg heq] at hother
      exact h.linked.opened other hother
  · intro e he hne
    rcases mem_cons.1 he with rfl | he
    · exact absurd rfl hne
    · exact h.broadcast e he

theorem inv_handleSetup {conn : Nat} {req : SetupRequest} {generated : Bytes} {outcome : SetupOutcome} (h : s.Inv)
    (hopen : s.IsOpen conn) (hone : s.OneSession (.setup conn req generated outcome))
    (hstep : s.handleSetup conn req generated outcome = some s') : s'.Inv := by
  rw [handleSetup] at hstep
  cases hrefusal : req.refusal with
  | some status =>
    rw [hrefusal, isSome_some, if_pos rfl] at hstep
    cases hstep
    exact h
  | none =>
    rw [hrefusal, isSome_none, if_neg Bool.false_ne_true] at hstep
    cases hsession : req.session with
    | some id =>
      rw [hsession] at hstep
      dsimp only at hstep
      by_cases hfind : s.findSession id = none
      · rw [if_pos hfind] at hstep
        cases hstep
        exact h
      · rw [if_neg hfind] at hstep
        have h' : (s.update id fun session => { session with active_req_ := some conn }).Inv :=
          h.update (fun _ => rfl) (fun _ => rfl) fun _ hb => hb
        refine inv_setup h'.linked (h'.beside id) ?_ hstep
        intro session hfound
        exact Or.inr (h'.broadcast _ (mem_of_lookup hfound))
    | none =>
      rw [hsession] at hstep
      simp only [bind_eq_bind, bind_eq_some_iff] at hstep
      obtain ⟨s₁, hadd, hstep⟩ := hstep
      obtain ⟨hlinked, hbeside, hfind⟩ := addSession_of h hopen (hone hrefusal hsession) hadd
      have hlinked' : (s₁.update generated fun session => { session with active_req_ := some conn }).Linked :=
        hlinked.update (fun _ => rfl) fun _ => rfl
      refine inv_setup hlinked' hbeside.update ?_ hstep
      intro session hfound
      rw [findSession_update, hfind, map_some, Option.some.injEq] at hfound
      exact Or.inl (hfound ▸ rfl)

/-! ## The end of a connection -/

/-- The session of the connection goes with it. -/
theorem inv_handleConnectionClose {conn : Nat} (h : s.Inv) (hstep : s.handleConnectionClose conn = some s') :
    s'.Inv := by
  simp only [handleConnectionClose, bind_eq_bind, bind_eq_some_iff] at hstep
  obtain ⟨session_id, hconn, hstep⟩ := hstep
  have hopen : s.IsOpen conn := by rw [IsOpen, hconn]; exact nofun
  have hopened : ∀ other, (s.disconnect conn).IsOpen other → other < s.connected ∧ other ∉ conn :: s.closed := by
    intro other hother
    rw [IsOpen, disconnect, lookup_filter_ne] at hother
    by_cases heq : other = conn
    · rw [if_pos heq] at hother
      exact absurd rfl hother
    · rw [if_neg heq] at hother
      obtain ⟨hlt, hclosed⟩ := h.linked.opened other hother
      exact ⟨hlt, by simp [heq, hclosed]⟩
  have hclosed : ∀ other ∈ conn :: s.closed, other < s.connected := by
    intro other hother
    rcases mem_cons.1 hother with rfl | hother
    · exact (h.linked.opened other hopen).1
    · exact h.linked.closed other hother
  -- a session of this connection is under the id that the connection has
  have hsurvives : ∀ e ∈ s.sessions_, e.1 ≠ session_id →
      (s.disconnect conn).connections.lookup e.2.creator = some e.1 := by
    intro e he hne
    have hlinked := h.linked.linked e he
    rw [disconnect, lookup_filter_ne]
    by_cases heq : e.2.creator = conn
    · rw [heq, hconn] at hlinked
      exact absurd (Option.some.inj hlinked).symm hne
    · rw [if_neg heq]
      exact hlinked
  rw [handleTeardown] at hstep
  cases hfind : (s.disconnect conn).findSession session_id with
  | none =>
    rw [if_pos hfind] at hstep
    cases hstep
    refine ⟨⟨h.linked.nodup, h.linked.own, fun e he => hsurvives e he ?_, hopened, hclosed⟩, h.broadcast⟩
    rintro rfl
    exact lookup_eq_none.1 hfind (mem_map_of_mem he)
  | some session =>
    have hbroadcaster : session.broadcaster_ = true := h.broadcast _ (mem_of_lookup hfind)
    rw [if_neg (by simp [hfind]), teardown_of hfind hbroadcaster] at hstep
    cases hstep
    refine ⟨⟨?_, ?_, ?_, hopened, hclosed⟩, ?_⟩
    · exact (h.linked.without session_id session).nodup
    · exact fun e he => h.linked.own e (mem_without he).1
    · exact fun e he => hsurvives e (mem_without he).1 (mem_without he).2
    · exact fun e he => h.broadcast e (mem_without he).1

/-! ## Runs -/

theorem inv_init : ({} : ServerProcessor).Inv where
  linked := ⟨nodup_nil, by simp, by simp, fun conn h => absurd rfl h, by simp⟩
  broadcast := by simp

theorem inv_step (s : ServerProcessor) (e : Event) (s' : ServerProcessor) (h : s.Inv) (hone : s.OneSession e)
    (hstep : s.step e = some s') : s'.Inv := by
  cases e with
  | connect =>
    cases hstep
    have hfresh : ∀ conn, s.IsOpen conn → conn ≠ s.connected := fun conn hopen =>
      Nat.ne_of_lt (h.linked.opened conn hopen).1
    refine ⟨⟨h.linked.nodup, h.linked.own, ?_, ?_, ?_⟩, h.broadcast⟩
    · intro e he
      have hlinked := h.linked.linked e he
      have hopen : s.IsOpen e.2.creator := by rw [IsOpen, hlinked]; exact nofun
      rw [lookup_setSorted, if_neg (hfresh _ hopen)]
      exact hlinked
    · intro conn hopen
      rw [IsOpen, lookup_setSorted] at hopen
      by_cases heq : conn = s.connected
      · subst heq
        exact ⟨Nat.lt_succ_self _, fun hmem => Nat.lt_irrefl _ (h.linked.closed _ hmem)⟩
      · rw [if_neg heq] at hopen
        obtain ⟨hlt, hclosed⟩ := h.linked.opened conn hopen
        exact ⟨Nat.lt_succ_of_lt hlt, hclosed⟩
    · exact fun conn hmem => Nat.lt_succ_of_lt (h.linked.closed conn hmem)
  | setup conn req generated outcome =>
    by_cases hopen : s.IsOpen conn
    · rw [step, guard_of hopen] at hstep
      exact inv_handleSetup h hopen hone hstep
    · rw [step, guard_of_not hopen] at hstep
      cases hstep
  | described id =>
    simp only [step, bind_eq_bind, bind_eq_some_iff] at hstep
    obtain ⟨session, -, -, -, hstep⟩ := hstep
    have h' : (s.update id fun session => { session with describing := false }).Inv :=
      h.update (fun _ => rfl) (fun _ => rfl) fun _ hb => hb
    exact inv_continueSetup h' hstep
  | play conn id =>
    simp only [step, bind_eq_bind, bind_eq_some_iff] at hstep
    obtain ⟨-, -, hstep⟩ := hstep
    rw [handlePlay] at hstep
    cases hfind : s.findSession id with
    | none =>
      rw [hfind] at hstep
      cases hstep
      exact h
    | some session =>
      rw [hfind] at hstep
      simp only [bind_eq_bind, bind_eq_some_iff] at hstep
      obtain ⟨-, -, hstep⟩ := hstep
      cases hstep
      exact h.update (fun _ => rfl) (fun _ => rfl) fun _ hb => hb
  | teardown conn id =>
    simp only [step, bind_eq_bind, bind_eq_some_iff] at hstep
    obtain ⟨-, -, hstep⟩ := hstep
    exact inv_handleTeardown h hstep
  | timeout id =>
    simp only [step, bind_eq_bind, bind_eq_some_iff] at hstep
    obtain ⟨session, -, -, -, hstep⟩ := hstep
    have h' : (s.update id fun session => { session with timeouter_ := false }).Inv :=
      h.update (fun _ => rfl) (fun _ => rfl) fun _ hb => hb
    exact inv_teardown h' hstep
  | eos id => exact inv_handleTeardown h hstep
  | delete =>
    rw [step] at hstep
    cases hdeleted : s.deleted with
    | nil =>
      rw [hdeleted] at hstep
      cases hstep
      exact h
    | cons session deleted =>
      rw [hdeleted] at hstep
      dsimp only at hstep
      have h' : { s with deleted := deleted }.Inv := ⟨⟨h.linked.nodup, h.linked.own, h.linked.linked,
        h.linked.opened, h.linked.closed⟩, h.broadcast⟩
      by_cases hbroadcaster : session.broadcaster_ = true
      · rw [if_pos hbroadcaster, deleteSession] at hstep
        simp only [bind_eq_bind, bind_eq_some_iff] at hstep
        obtain ⟨found, -, hstep⟩ := hstep
        cases hstep
        have hwithout : ({ s with deleted := deleted }.without session.id_ found).Inv :=
          inv_without h'.linked (h'.beside session.id_)
        exact hwithout
      · rw [if_neg hbroadcaster] at hstep
        cases hstep
        exact h'
  | close conn => exact inv_handleConnectionClose h hstep

theorem Inv.noneSurvives (h : s.Inv) : s.NoneSurvives where
  nodup := h.linked.nodup
  own := h.linked.own
  alive := by
    intro e he
    have hopen : s.IsOpen e.2.creator := by rw [IsOpen, h.linked.linked e he]; exact nofun
    exact (h.linked.opened _ hopen).2

end ServerProcessor

open ServerProcessor

/-- In every run in which each connection has one session at a time, no session survives its connection. -/
theorem sessions_end_with_connections (es : List Event) (h : Along step OneSession {} es) (s : ServerProcessor)
    (hrun : run step {} es = some s) : s.NoneSurvives :=
  (run_invariant_along inv_step inv_init h hrun).noneSurvives

/-- A SETUP over TCP. -/
def interleavedSetup (session : Option Bytes) : SetupRequest where
  transport := some { transport_ := ascii "RTP", profile_ := ascii "AVP", lower_transport_ := some (ascii "TCP") }
  session := session
  media := [109]

/-- Two connections set up one session each, one of them for audio and video; the other one is closed. -/
def twoConnections : List Event :=
  [.connect, .connect, .setup 0 (interleavedSetup none) [1] {}, .setup 1 (interleavedSetup none) [2] {},
    .described [1], .described [2], .setup 0 (interleavedSetup (some [1])) [] {}, .play 0 [1], .play 1 [2], .close 1,
    .delete]

theorem sessions_end_with_connections_two : (run step {} twoConnections).isSome = true ∧
    ∀ s, run step {} twoConnections = some s → s.NoneSurvives :=
  ⟨by decide +kernel, sessions_end_with_connections twoConnections (by decide +kernel)⟩

/-- Two sessions of one connection: the first one survives it. -/
theorem session_survives : ¬ ∀ (es : List Event) (s : ServerProcessor), run step {} es = some s → s.NoneSurvives := by
  intro hclaim
  have hrun := hclaim [.connect, .setup 0 (interleavedSetup none) [1] {}, .described [1],
    .setup 0 (interleavedSetup none) [2] {}, .described [2], .play 0 [1], .close 0]
    { sessions_ := [([1], { id_ := [1], media_ := [109], broadcaster_ := true, creator := 0 })]
      connected := 1
      deleted := [{ id_ := [2], media_ := [109], timeouter_ := true, creator := 0 }]
      closed := [0] } (by decide +kernel)
  exact hrun.alive _ mem_cons_self mem_cons_self

end Whispercast.Rtsp
