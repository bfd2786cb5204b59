import Whispercast.Rpc.Connection

/-!
# Calls are delivered

In a run without replies the server queues the calls that the client has sent, each once and in the order in which
they were written, wherever their bytes are cut. What the server has not queued yet is under way: its bytes are in the
buffers of the two sides, and the first of them is not complete at the server. With a reply that is sent this ends,
since the client never sees it (`reply_is_lost`).
-/

namespace Whispercast.Rpc

open Io Library StateReader List

/-- The raw objects that the codec carries. -/
def CodecId.Encoded : CodecId → Bytes → Prop
  | .binary => fun obj => obj.length < 2 ^ 32
  | .json => fun obj => ∃ obj', JsonDecoder.SameTokens obj obj'

/-- Between two messages the decoder does not wait for a map key. -/
def CodecId.Idle : CodecId → DecoderState → Prop
  | .binary => fun _ => True
  | .json => JsonDecoder.At false []

/-- A call that the codec carries. -/
def CodecId.Sends (c : CodecId) (m : Message) : Prop :=
  m.header.msgType = .call ∧ m.Strings c.Text ∧ c.Encoded m.object

/-- A message ends with the end of a struct, or has at least the bytes of a count. -/
theorem serializeSave_last (c : CodecId) (m : Message) :
    ∃ u b, m.serializeSave c.encoder = u ++ [b] ∧ ¬ c.Blank b := by
  cases c with
  | binary =>
    have hne : m.serializeSave binaryEncoder ≠ [] := by
      intro h
      have hlen := congrArg length h
      rw [Message.serializeSave, Encoder.encodeStruct, length_append] at hlen
      change (leBytes 4 _).length + _ = 0 at hlen
      rw [leBytes_length] at hlen
      omega
    refine ⟨_, _, (dropLast_append_getLast hne).symm, ?_⟩
    exact fun h => h
  | json =>
    rw [Message.serializeSave, Encoder.encodeStruct, ← append_assoc]
    exact ⟨_, 125, rfl, show ¬ charAttr 125 = .space by decide⟩

/-- Both codecs can read the calls that they carry. -/
theorem call_messages (c : CodecId) : Messages (Message.serializeLoad c.decoder) .notEnoughData c.Blank c.Idle
    (Message.serializeSave c.encoder) c.Sends (Message.Same c.Carries) := by
  cases c with
  | binary =>
    refine ⟨regular_message BinaryDecoder.messageRegular, ?_, fun w _ => serializeSave_last .binary w, ?_⟩
    · rintro m ⟨-, hstr, hobj⟩
      obtain ⟨m', hsame, hgets⟩ := gets_message (C := CodecId.binary.Carries) binary_messageLaws hstr rfl
        (fun _ => BinaryDecoder.gets_rawObject hobj) []
      refine ⟨m', hsame, hgets.consequence (fun s _ => ?_) (fun _ _ => trivial) fun _ _ => trivial⟩
      exact ⟨fun _ h => (not_mem_nil h).elim, s.itemsStack, rfl⟩
    · exact ⟨{}, rfl, ⟨Nat.zero_lt_succ _, Nat.zero_lt_succ _⟩, Nat.zero_lt_succ _⟩
  | json =>
    refine ⟨regular_message (JsonDecoder.messageRegular false), ?_, fun w _ => serializeSave_last .json w, ?_⟩
    · rintro m ⟨-, hstr, obj, hobj⟩
      obtain ⟨m', hsame, hgets⟩ := gets_message (C := CodecId.json.Carries) json_messageLaws hstr hobj
        (fun _ => JsonDecoder.gets_rawObject hobj) []
      exact ⟨m', hsame, hgets⟩
    · obtain ⟨obj, -, htokens⟩ := JsonDecoder.raw_value .void (v := ()) trivial
      refine ⟨nullCall, rfl, ⟨?_, ?_⟩, _, htokens⟩
      · exact fun _ h => (not_mem_nil h).elim
      · exact fun _ h => (not_mem_nil h).elim

/-! ## The property -/

/-- The query is the call, with the parameters as the codec carries them. -/
structure CodecId.Queues (c : CodecId) (m : Message) (q : Query) : Prop where
  qid : q.qid = m.header.xid.toUInt32
  service : q.service = m.cbody.service
  method : q.method = m.cbody.method
  params : c.Carries m.cbody.params q.params

/-- The queued queries are calls that were sent, each once; `transit` has been written and not been queued yet, and
the others wait at the client. No reply has been sent or seen. -/
structure Link.Delivers (l : Link) (received transit : List Message) : Prop where
  sent : l.sent.Perm (received ++ (transit ++ l.client.queries.map fun q => q.2.msg))
  queued : List.Forall₂ l.codec.Queues received l.server.queued
  /-- What has been written and has arrived has been queued. -/
  arrived : l.client.outbuf = [] → transit = []
  connected : l.client.connected = true ∧ l.server.connected = true
  replies : l.server.outbuf = [] ∧ l.client.inbuf = [] ∧ l.client.completed = []

/-- What every step keeps. -/
structure Link.Inv (l : Link) (received transit : List Message) : Prop where
  sent : l.sent.Perm (received ++ (transit ++ l.client.queries.map fun q => q.2.msg))
  queued : List.Forall₂ l.codec.Queues received l.server.queued
  connected : l.client.connected = true ∧ l.server.connected = true
  replies : l.server.outbuf = [] ∧ l.client.inbuf = [] ∧ l.client.completed = []
  sends : ∀ m ∈ transit, l.codec.Sends m
  waiting : ∀ q ∈ l.client.queries, l.codec.Sends q.2.msg ∧ q.2.buf = q.2.msg.serializeSave l.codec.encoder
  idle : l.codec.Idle l.server.decoder
  bytes : ∃ t, Blanks l.codec.Blank t ∧
    l.server.inbuf ++ l.client.outbuf = t ++ transit.flatMap (Message.serializeSave l.codec.encoder)
  short : (Message.serializeLoad l.codec.decoder l.server.decoder l.server.inbuf).1 = .error .notEnoughData

namespace Link

variable {l l' : Link} {received transit : List Message}

theorem Inv.delivers (h : l.Inv received transit) : l.Delivers received transit where
  sent := h.sent
  queued := h.queued
  arrived := by
    intro houtbuf
    obtain ⟨t, ht, hbytes⟩ := h.bytes
    rw [houtbuf, append_nil] at hbytes
    exact (call_messages l.codec).eq_nil_of_short h.idle ht h.sends hbytes h.short
  connected := h.connected
  replies := h.replies

/-! ## Steps -/

/-- The condition: the codec carries what is sent, the executor takes every query, and no reply is written. -/
def Meets (codec : CodecId) : Event → Prop
  | .sendQuery xid service method params => codec.Sends (callMessage xid service method params)
  | .serverRead _ executor => ∀ query, executor.queueRPC query = true
  | .serverCallback => False
  | _ => True

theorem inv_sendQuery {xid : Int32} {service method params : Bytes}
    (hsends : l.codec.Sends (callMessage xid service method params)) (h : l.Inv received transit)
    (hstep : l.step (.sendQuery xid service method params) = some l') : l'.Inv received transit := by
  rw [Link.step, ClientConnection.sendPacket] at hstep
  by_cases hmany : l.maxParalelQueries ≤ l.client.queries.length
  · -- Too many queries: nothing is sent.
    rw [if_pos hmany, if_pos hmany] at hstep
    cases hstep
    exact { h with }
  · rw [if_neg hmany, if_neg hmany] at hstep
    by_cases hkey : (callMessage xid service method params).header.xid.toUInt32 ∈ AssocList.keys l.client.queries
    · rw [guard_of_not (not_not.2 hkey)] at hstep
      cases hstep
    · rw [guard_of hkey] at hstep
      cases hstep
      have hperm := AssocList.setSorted_perm (callMessage xid service method params).header.xid.toUInt32
        (ClientQuery.mk (callMessage xid service method params)
          ((callMessage xid service method params).serializeSave l.codec.encoder)) hkey
      refine { h with sent := ?_, waiting := ?_ }
      · -- The call is a new one among those that wait.
        have hmap := (hperm.map fun q => q.2.msg).symm
        refine (h.sent.append_right _).trans ?_
        rw [append_assoc, append_assoc]
        refine (Perm.append_left received (Perm.append_left transit ?_))
        exact (perm_append_singleton _ _).trans hmap
      · intro q hq
        rcases mem_cons.1 (hperm.mem_iff.1 hq) with rfl | hq
        · exact ⟨hsends, rfl⟩
        · exact h.waiting q hq

theorem inv_clientWrite (h : l.Inv received transit) :
    ({ l with client := l.client.connectionWriteHandler } : Link).Inv received
      (transit ++ l.client.queries.map fun q => q.2.msg) := by
  refine { h with sent := ?_, sends := ?_, waiting := ?_, bytes := ?_ }
  · exact h.sent.trans (by rw [ClientConnection.connectionWriteHandler, map_nil, append_nil])
  · intro m hm
    rcases mem_append.1 hm with hm | hm
    · exact h.sends m hm
    · obtain ⟨q, hq, rfl⟩ := mem_map.1 hm
      exact (h.waiting q hq).1
  · exact fun q hq => (not_mem_nil hq).elim
  · obtain ⟨t, ht, hbytes⟩ := h.bytes
    refine ⟨t, ht, ?_⟩
    have hbufs : (l.client.queries.flatMap fun q => q.2.buf) =
        (l.client.queries.map fun q => q.2.msg).flatMap (Message.serializeSave l.codec.encoder) := by
      rw [flatMap_map]
      exact flatMap_congr fun q hq => (h.waiting q hq).2
    change l.server.inbuf ++ (l.client.outbuf ++ _) = _
    rw [hbufs, ← append_assoc, hbytes, flatMap_append, append_assoc]

/-- The server queues a call that it has read. -/
theorem queues_of_same {c : CodecId} {m m' : Message} (hcall : m.header.msgType = .call) (hsame : m.Same c.Carries m') :
    c.Queues m ⟨m'.header.xid.toUInt32, m'.cbody.service, m'.cbody.method, m'.cbody.params⟩ := by
  obtain ⟨hheader, hbody⟩ := hsame
  rw [hcall] at hbody
  exact ⟨by rw [hheader], hbody.1, hbody.2.1, hbody.2.2⟩

/-- All calls that are read are queued. -/
theorem foldl_protocolHandleMessage {c : CodecId} {executor : Executor} (haccepts : ∀ q, executor.queueRPC q = true)
    {calls values : List Message} (hcalls : ∀ m ∈ calls, m.header.msgType = .call)
    (hback : List.Forall₂ (Message.Same c.Carries) calls values) (s : ServerConnection) :
    ∃ queries, List.Forall₂ c.Queues calls queries ∧
      values.foldl (ServerConnection.protocolHandleMessage c executor) s = { s with queued := s.queued ++ queries } := by
  induction hback generalizing s with
  | nil => exact ⟨[], .nil, by rw [append_nil]; rfl⟩
  | @cons m m' calls values hsame hback ih =>
    have hcall := hcalls m mem_cons_self
    have hcall' : m'.header.msgType = .call := by rw [hsame.1, hcall]
    obtain ⟨queries, hqueries, heq⟩ := ih (fun m hm => hcalls m (mem_cons_of_mem _ hm))
      { s with queued := s.queued ++
        [⟨m'.header.xid.toUInt32, m'.cbody.service, m'.cbody.method, m'.cbody.params⟩] }
    refine ⟨_ :: queries, .cons (queues_of_same hcall hsame) hqueries, ?_⟩
    rw [foldl_cons, ServerConnection.protocolHandleMessage, hcall']
    rw [if_pos (haccepts _), heq, append_assoc]
    rfl

theorem inv_serverRead {size : Nat} {executor : Executor} (haccepts : ∀ q, executor.queueRPC q = true)
    (h : l.Inv received transit) (hstep : l.step (.serverRead size executor) = some l') :
    ∃ received' transit', l'.Inv received' transit' := by
  rw [Link.step, guard_of h.connected.2] at hstep
  cases hstep
  obtain ⟨t, ht, hbytes⟩ := h.bytes
  have harrive : (l.server.inbuf ++ l.client.outbuf.take size) ++ l.client.outbuf.drop size =
      t ++ transit.flatMap (Message.serializeSave l.codec.encoder) := by
    rw [append_assoc, take_append_drop, hbytes]
  obtain ⟨here, there, _, _, t', inbuf, rfl, hback, hidle, ht', hreceive, hrest, hshort⟩ :=
    (call_messages l.codec).receive_stream (ServerConnection.protocolHandleMessage l.codec executor)
      (x := { l.server with inbuf := l.server.inbuf ++ l.client.outbuf.take size }) h.idle ht h.sends (Nat.le_refl _)
      harrive
  obtain ⟨_, hqueries, hfold⟩ := foldl_protocolHandleMessage haccepts
    (fun m hm => (h.sends m (mem_append_left _ hm)).1) hback
    { l.server with inbuf := l.server.inbuf ++ l.client.outbuf.take size }
  rw [hfold] at hreceive
  refine ⟨received ++ here, there, ?_⟩
  rw [ServerConnection.connectionReadHandler, hreceive]
  exact
    { sent := by
        have hassoc := h.sent
        rw [append_assoc, ← append_assoc received] at hassoc
        exact hassoc
      queued := rel_append h.queued hqueries
      connected := ⟨h.connected.1, (Bool.and_true _).trans h.connected.2⟩
      replies := h.replies
      sends := fun m hm => h.sends m (mem_append_right _ hm)
      waiting := h.waiting
      idle := hidle
      bytes := ⟨t', ht', hrest⟩
      short := hshort }

theorem decode_nil_short (c : CodecId) (s : DecoderState) (hs : c.Idle s) :
    (Message.serializeLoad c.decoder s []).1 = .error .notEnoughData :=
  (call_messages c).short_of_blanks hs (blanks_nil _)

/-- The client reads nothing when nothing arrives. -/
theorem inv_clientRead {size : Nat} (h : l.Inv received transit) (hstep : l.step (.clientRead size) = some l') :
    l'.Inv received transit := by
  obtain ⟨houtbuf, hinbuf, hcompleted⟩ := h.replies
  rw [Link.step, guard_of h.connected.1, houtbuf, hinbuf, take_nil, drop_nil] at hstep
  cases hstep
  exact { h with
    connected := ⟨(Bool.and_true _).trans h.connected.1, h.connected.2⟩
    replies := ⟨rfl, rfl, hcompleted⟩ }

/-- What one event does to the invariant. -/
theorem inv_step {codec : CodecId} {e : Event} (hcodec : l.codec = codec) (he : Meets codec e)
    (h : l.Inv received transit) (hstep : l.step e = some l') :
    l'.codec = codec ∧ ∃ received' transit', l'.Inv received' transit' := by
  subst hcodec
  cases e with
  | sendQuery xid service method params =>
    have hinv := inv_sendQuery he h hstep
    refine ⟨?_, received, transit, hinv⟩
    rw [Link.step, Option.bind_eq_bind, Option.bind_eq_some_iff] at hstep
    obtain ⟨_, -, heq⟩ := hstep
    cases heq
    rfl
  | clientWrite =>
    cases hstep
    exact ⟨rfl, received, _, inv_clientWrite h⟩
  | serverRead size executor =>
    refine ⟨?_, inv_serverRead he h hstep⟩
    rw [Link.step, guard_of h.connected.2] at hstep
    cases hstep
    rfl
  | handleRPCResult qid status result =>
    cases hstep
    exact ⟨rfl, received, transit, { h with }⟩
  | serverCallback => exact he.elim
  | clientRead size =>
    refine ⟨?_, received, transit, inv_clientRead h hstep⟩
    rw [Link.step, guard_of h.connected.1] at hstep
    cases hstep
    rfl

/-- Every run that meets the condition delivers the calls that were sent. -/
theorem calls_are_delivered (codec : CodecId) (maxParalelQueries : Nat) {events : List Event} {l : Link}
    (hevents : ∀ e ∈ events, Meets codec e) (hrun : run Link.step (start codec maxParalelQueries) events = some l) :
    ∃ received transit, l.Delivers received transit := by
  have hstart : (start codec maxParalelQueries).codec = codec ∧
      ∃ received transit, (start codec maxParalelQueries).Inv received transit := by
    refine ⟨rfl, [], [], ?_⟩
    have hidle : codec.Idle {} := by
      cases codec with
      | binary => trivial
      | json => rfl
    exact
      { sent := Perm.refl _
        queued := .nil
        connected := ⟨rfl, rfl⟩
        replies := ⟨rfl, rfl, rfl⟩
        sends := fun _ hm => (not_mem_nil hm).elim
        waiting := fun _ hq => (not_mem_nil hq).elim
        idle := hidle
        bytes := ⟨[], blanks_nil _, rfl⟩
        short := decode_nil_short codec {} hidle }
  have hinv := run_invariant (I := fun l => l.codec = codec ∧ ∃ received transit, l.Inv received transit)
    (fun l e l' h he hstep => by
      obtain ⟨hcodec, received, transit, hinv⟩ := h
      exact inv_step hcodec he hinv hstep) hstart hevents hrun
  obtain ⟨-, received, transit, hinv⟩ := hinv
  exact ⟨received, transit, hinv.delivers⟩

/-- One call, which the server queues while the executor takes everything. -/
def oneCall : List Event :=
  [.sendQuery 1 [97] [98] [0, 0, 0, 0], .clientWrite, .serverRead 60 ⟨fun _ => true, []⟩, .serverRead 60 ⟨fun _ => true, []⟩]

/-- The call that is sent is delivered. -/
theorem calls_are_delivered_one : ∃ l, run Link.step (start .binary 100) oneCall = some l ∧
      l.server.queued = [⟨1, [97], [98], [0, 0, 0, 0]⟩] ∧ ∃ received transit, l.Delivers received transit := by
  have hqueued : ((run Link.step (start .binary 100) oneCall).map fun l => l.server.queued) =
      some [⟨1, [97], [98], [0, 0, 0, 0]⟩] := by decide +kernel
  obtain ⟨l, hrun, hl⟩ := Option.map_eq_some_iff.1 hqueued
  refine ⟨l, hrun, hl, calls_are_delivered .binary 100 ?_ hrun⟩
  intro e he
  simp only [oneCall, mem_cons, not_mem_nil, or_false] at he
  rcases he with rfl | rfl | rfl | rfl
  · exact ⟨rfl, ⟨(by decide : [97].length < 2 ^ 31), (by decide : [98].length < 2 ^ 31)⟩,
      (by decide : [0, 0, 0, 0].length < 2 ^ 32)⟩
  · trivial
  · exact fun _ => rfl
  · exact fun _ => rfl

/-- The executor completes the call, the reply is written and all its bytes arrive, and the client completes nothing. -/
theorem reply_is_lost : ∃ l, run Link.step (start .binary 100)
        (oneCall ++ [.handleRPCResult 1 .success [0xff], .serverCallback, .clientRead 60]) = some l ∧
      l.server.callbacks = [] ∧ l.server.outbuf = [] ∧ ¬ (1, .success, [0xff]) ∈ l.client.completed := by
  have hlengths : ((run Link.step (start .binary 100)
      (oneCall ++ [.handleRPCResult 1 .success [0xff], .serverCallback, .clientRead 60])).map fun l =>
        (l.server.callbacks.length, l.server.outbuf.length, l.client.completed.length)) = some (0, 0, 0) := by
    decide +kernel
  obtain ⟨l, hrun, hl⟩ := Option.map_eq_some_iff.1 hlengths
  rw [Prod.mk.injEq, Prod.mk.injEq] at hl
  refine ⟨l, hrun, eq_nil_of_length_eq_zero hl.1, eq_nil_of_length_eq_zero hl.2.1, ?_⟩
  rw [eq_nil_of_length_eq_zero hl.2.2]
  exact not_mem_nil

end Link

end Whispercast.Rpc
