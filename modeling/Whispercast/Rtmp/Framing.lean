import Whispercast.Rtmp.Interleave

/-!
# Events in sequence

A writer encodes one event after the other, and a reader is given the bytes in pieces. Between two events
both are `Ready`: they remember the same headers, use the same chunk size, and the reader has no unfinished
body. Sending an event leads to the next such pair (`transfer_event`), and a run is a chain of these
transfers.

An event may be sent when its channel is one of those that are used, its stream id is not the invalid one,
its body is shorter than 2^24 bytes and fits the memory of the reader, and a chunk size is between 4 and
`kMaxChunkSize` (`Sendable`). It is received when the class of events that is created for its type can
decode its body (`Framable`).
-/

namespace Whispercast.Rtmp

open Library Io Amf List NumStreamer

/-- An event and the stream that its body is sent from. -/
abbrev Message : Type := Event × Bytes

/-- An event that `Encode` is called with. -/
def Event.message (e : Event) : Message := (e, e.body.encodeBody)

/-- What may be sent to a reader with this memory limit. -/
structure Sendable (limit : Int) (m : Message) : Prop where
  channel : Header.IsChannel m.1.header_.channel_id_
  stream : m.1.header_.stream_id_ ≠ kInvalidStreamId
  size : m.2.length < 2 ^ 24
  room : (m.2.length : Int) ≤ limit
  chunk : ∀ n, m.1.body = .chunkSize n → 4 ≤ n.toNat ∧ n ≤ kMaxChunkSize ∧ m.2 = m.1.body.encodeBody

/-- What is sent can be decoded by the class that is created for the event type. -/
structure Framable (limit : Int) (m : Message) : Prop extends Sendable limit m where
  decodable : ∃ body left, decodeBody m.1.header_.event_type_ m.2 = (.ok body, left)

/-- The chunk size that an event with this body is written with, after events that have set it to `size`. -/
def chunkSizeWith (size : Nat) : EventBody → Nat
  | .chunkSize n => n.toNat
  | _ => size

/-- What has been sent, as far as the header and the chunks of the next event depend on it: the chunk size,
and the stream of the last event on each channel. -/
structure Sent where
  chunk_size : Nat
  stream : UInt32 → UInt32

namespace Sent

/-- Nothing has been sent. -/
def start : Sent := ⟨kDefaultChunkSize, fun _ => kInvalidStreamId⟩

/-- One more event has been sent. -/
def after (sent : Sent) (m : Message) : Sent where
  chunk_size := chunkSizeWith sent.chunk_size m.1.body
  stream := Function.update sent.stream m.1.header_.channel_id_ m.1.header_.stream_id_

/-- What has been sent with the first `n` of the events. -/
def before (sent : Sent) (ms : List Message) (n : Nat) : Sent := (ms.take n).foldl after sent

/-- The event is sent in one chunk. -/
def Single (sent : Sent) (m : Message) : Prop := m.2.length ≤ chunkSizeWith sent.chunk_size m.1.body

instance (sent : Sent) (m : Message) : Decidable (sent.Single m) := inferInstanceAs (Decidable (_ ≤ _))

/-- The last event on the channel was from the same stream. -/
def SameStream (sent : Sent) (m : Message) : Prop :=
  m.1.header_.stream_id_ = sent.stream m.1.header_.channel_id_

instance (sent : Sent) (m : Message) : Decidable (sent.SameStream m) := inferInstanceAs (Decidable (_ = _))

/-- The header that is received. -/
def received (sent : Sent) (m : Message) : Header :=
  receivedHeader (sent.Single m) { m.1.header_ with stream_id_ := sent.stream m.1.header_.channel_id_ } m.1.header_

theorem received_single {sent : Sent} {m : Message} (h : sent.Single m) :
    sent.received m = { m.1.header_ with
      is_timestamp_relative_ := m.1.header_.is_timestamp_relative_ &&
        m.1.header_.stream_id_ == sent.stream m.1.header_.channel_id_ } := by
  rw [received, decide_eq_true h, receivedHeader_true]
  rfl

theorem received_multiple {sent : Sent} {m : Message} (h : ¬ sent.Single m) :
    sent.received m = laterReceived m.1.header_ := by
  rw [received, decide_eq_false h, receivedHeader_false]

/-- The reader does not wait for more than the last chunk of the event. -/
def Prompt (sent : Sent) (m : Message) : Prop :=
  0xffffff ≤ m.1.header_.timestamp_ms_ ∨ 4 ≤ lastLoad (chunkSizeWith sent.chunk_size m.1.body) m.2.length

end Sent

namespace Coder

/-- What a writer has sent. -/
def sent (w : Coder) : Sent := ⟨w.write_chunk_size_, fun id => (w.last_write_event_header_ id).stream_id_⟩

/-- The chunk size that an event is written with. -/
def chunkSizeFor (w : Coder) (body : EventBody) : Nat := chunkSizeWith w.write_chunk_size_ body

/-- The writer with the chunk size for an event. -/
def sizedFor (w : Coder) (body : EventBody) : Coder := { w with write_chunk_size_ := w.chunkSizeFor body }

end Coder

/-- The writer and the reader remember the same. -/
structure InStep (w r : Coder) : Prop where
  chunk_size : w.write_chunk_size_ = r.read_chunk_size_
  channels : ∀ id, Header.IsChannel id →
    ChannelSync (w.last_write_event_header_ id) (w.last_write_event_size_ id) (r.channel id)

/-- The writer and the reader between two events. -/
structure Ready (w r : Coder) : Prop where
  inStep : InStep w r
  chunk_size : 4 ≤ w.write_chunk_size_
  bodies : ∀ id, (r.channel id).body = []
  memory : r.memory_used_ = 0

theorem ready_new (limit limit' : Int) (sizes sizes' sizes'' sizes''' : UInt32 → UInt32) :
    Ready (Coder.new limit sizes sizes') (Coder.new limit' sizes'' sizes''') where
  inStep := ⟨rfl, fun _ _ => ⟨rfl, rfl, rfl, rfl, fun h => absurd rfl h⟩⟩
  chunk_size := by
    show 4 ≤ kDefaultChunkSize
    decide
  bodies := fun _ => rfl
  memory := rfl

/-! ## What is received of an event -/

/-- The event that is received of a message after what has been sent. -/
structure Received (sent : Sent) (m : Message) (got : Event) : Prop where
  header : got.header_ = sent.received m
  body : ∃ b left, decodeBody m.1.header_.event_type_ m.2 = (.ok b, left) ∧ got.body = b.1

/-- An event goes from a writer to a reader, as the frames `fs`. -/
structure Transfer (s : Coder × Coder) (x : Message × List (Frame UInt8 Event)) (s' : Coder × Coder) :
    Prop where
  encoded : ∃ ks, s.1.encodeWithAuxBuffer x.1.1 x.1.2 = some (s'.1, ks) ∧
    Session.bytesOf x.2 = (ks.map Chunk.bytes).flatten
  chain : Session.Chain (Session.Steps Coder.decodeChunk) s.2 x.2 s'.2
  ready : Ready s'.1 s'.2
  sent : s'.1.sent = s.1.sent.after x.1
  limit : s'.2.memory_limit_ = s.2.memory_limit_
  between : ∀ pre post r, x.2 = pre ++ post → pre ≠ [] →
    Session.Chain (Session.Steps Coder.decodeChunk) s.2 pre r → InStep s'.1 r
  frames : ∃ init t got, x.2 = init ++ [t] ∧ t.out = some got ∧ Received s.1.sent x.1 got ∧
    (∀ u ∈ init, u.out = none ∧ u.wants ≤ u.bytes.length) ∧
    (t.wants ≤ t.bytes.length ↔ s.1.sent.Prompt x.1)

/-! ## The chunks of one event in sequence -/

section OneChannel

variable {size len : Nat} {h : Header} {id : UInt32} {ts : List SentChunk} {r : Coder} {s s' : ChannelState}

/-- The chunks of an event before its last one. -/
theorem chain_of_event (hr : r.channel id = s) (hchain : Session.Chain (TakesOf size h len) s ts s')
    (hid : ∀ t ∈ ts, t.wire.channel = id) (hnone : ∀ t ∈ ts, t.frame.out = none)
    (hsize : r.read_chunk_size_ = size)
    (hmem : r.memory_used_ + (ts.map fun t => t.wire.chunk.data.length).sum ≤ r.memory_limit_) :
    ∃ r', Session.Chain (Session.Steps Coder.decodeChunk) r (ts.map SentChunk.frame) r' ∧
      r'.channel id = s' ∧ (∀ d, d ≠ id → r'.channel d = r.channel d) ∧
      r'.memory_used_ = r.memory_used_ + (ts.map fun t => t.wire.chunk.data.length).sum ∧
      r'.memory_used_ = r.memory_used_ + s'.body.length - s.body.length ∧
      r'.read_chunk_size_ = size ∧ r'.memory_limit_ = r.memory_limit_ := by
  induction hchain generalizing r with
  | nil s =>
    refine ⟨r, .nil r, hr, fun _ _ => rfl, ?_, ?_, hsize, rfl⟩
    · rw [map_nil, sum_nil]
      exact (Int.add_zero _).symm
    · omega
  | @cons s s₁ s' t ts ht _ ih =>
    have hout := hnone t mem_cons_self
    have htid := hid t mem_cons_self
    obtain ⟨⟨hstep, hbody⟩, -⟩ := ht
    simp only [map_cons, sum_cons] at hmem ⊢
    rw [htid] at hstep
    obtain ⟨r₁, htake⟩ := hstep r hr hsize (by omega)
    have hlast : t.wire.last = false := by rw [t.last_eq, hout]; rfl
    rw [hlast, if_neg Bool.false_ne_true] at hbody
    have hmem₁ := htake.memory
    rw [hr, hbody] at hmem₁
    have hsize₁ : r₁.read_chunk_size_ = size := by
      rw [htake.chunk_size, hout]
      exact hsize
    obtain ⟨r', hchain, hch, hothers, _, _, hsize', hlim⟩ := ih htake.channel
      (fun u hu => hid u (mem_cons_of_mem _ hu)) (fun u hu => hnone u (mem_cons_of_mem _ hu)) hsize₁
      (by rw [htake.limit]; omega)
    refine ⟨r', .cons htake.steps hchain, hch, ?_, by omega, by omega, hsize', hlim.trans htake.limit⟩
    intro d hd
    rw [hothers d hd, htake.others d hd]

theorem sync_of_chain (hchain : Session.Chain (TakesOf size h len) s ts s') (hne : ts ≠ []) :
    ChannelSync h (UInt32.ofNat len) s' := by
  induction hchain with
  | nil s => exact absurd rfl hne
  | @cons s s₁ s' t ts ht hrest ih =>
    cases ts with
    | nil =>
      obtain rfl := hrest.nil_inv
      exact ht.2
    | cons u ts => exact ih (cons_ne_nil _ _)

end OneChannel

/-! ## One event -/

section Event

variable {w r : Coder} {m : Message}

/-- The writer takes the chunk size of an event before it writes the event. -/
theorem setWriteChunkSize_eq (hw : 4 ≤ w.write_chunk_size_)
    (hchunk : ∀ n, m.1.body = .chunkSize n → 4 ≤ n.toNat ∧ n ≤ kMaxChunkSize ∧ m.2 = m.1.body.encodeBody) :
    w.setWriteChunkSize m.1.body = some (w.sizedFor m.1.body) ∧
      4 ≤ w.chunkSizeFor m.1.body := by
  cases hbody : m.1.body with
  | chunkSize n =>
    obtain ⟨hlow, hhigh, -⟩ := hchunk n hbody
    have hlt : n.toNat < 2 ^ 31 :=
      Nat.lt_of_le_of_lt (UInt32.le_iff_toNat_le.1 hhigh) (by decide)
    have hint : n.toInt32.toInt = n.toNat := by
      have hval := Int32.toInt_ofNat_of_lt hlt
      rwa [← UInt32.toInt32_ofNat', UInt32.ofNat_toNat] at hval
    have hpos : 0 < n.toInt32.toInt := by omega
    exact ⟨if_pos hpos, hlow⟩
  | _ => exact ⟨rfl, hw⟩

/-- A chunk size is read as it was written. -/
theorem decodeBody_chunkSize (n : UInt32) :
    decodeBody .chunkSize (EventBody.chunkSize n).encodeBody = (.ok ⟨.chunkSize n, rfl⟩, []) := by
  have hread : Reader.Gets (readInt32 .bigEndian : Decoder Int32)
      (writeInt32 n.toInt32 .bigEndian) n.toInt32 := readInt32_gets _ _
  have hget := Reader.Gets.need (n := 4) (Stop.status ReadStatus.noData)
    (hread.bind_pure fun v => (⟨.chunkSize v.toUInt32, rfl⟩ :
      {body : EventBody // body.eventType = .chunkSize})) (writeNumber_length 4 _ _).ge
  have hrun := hget []
  exact hrun

theorem exists_of_eventType {b : EventBody} (h : b.eventType = .chunkSize) : ∃ n, b = .chunkSize n := by
  cases b with
  | chunkSize n => exact ⟨n, rfl⟩
  | bulkData subclass _ => cases subclass <;> cases h
  | _ => cases h

theorem chunkSizeAfter_of_ne (size : Nat) {b : EventBody} (h : b.eventType ≠ .chunkSize) :
    Coder.chunkSizeAfter size b = size := by
  cases b with
  | chunkSize n => exact absurd rfl h
  | _ => rfl

theorem chunkSizeFor_of_ne (w : Coder) {b : EventBody} (h : b.eventType ≠ .chunkSize) :
    w.chunkSizeFor b = w.write_chunk_size_ := by
  cases b with
  | chunkSize n => exact absurd rfl h
  | _ => rfl

/-- After an event the reader uses the chunk size that the event was written with. -/
theorem chunkSizeAfter_eq {e : EventBody} {t : EventType} {stream left : Bytes}
    (hsize : w.write_chunk_size_ = r.read_chunk_size_) (ht : t = e.eventType)
    (hchunk : ∀ n, e = .chunkSize n → 4 ≤ n.toNat ∧ n ≤ kMaxChunkSize ∧ stream = e.encodeBody)
    {body : {body : EventBody // body.eventType = t}} (hdecode : decodeBody t stream = (.ok body, left)) :
    Coder.chunkSizeAfter r.read_chunk_size_ body.1 = w.chunkSizeFor e := by
  subst ht
  by_cases htype : e.eventType = .chunkSize
  · obtain ⟨n, rfl⟩ := exists_of_eventType htype
    obtain ⟨-, hhigh, rfl⟩ := hchunk n rfl
    have hok := (decodeBody_chunkSize n).symm.trans hdecode
    injection hok with hok
    injection hok with hok
    rw [← hok]
    exact if_neg (UInt32.not_lt.2 hhigh)
  · have hne : body.1.eventType ≠ .chunkSize := body.2.symm ▸ htype
    rw [chunkSizeAfter_of_ne _ hne, chunkSizeFor_of_ne w htype, hsize]

/-- What the two sides remember after chunks of an event on one channel. -/
theorem inStep_after {w' rm : Coder} {h : Header} {len : Nat} (hstep : InStep w r)
    (hlast : w'.last_write_event_header_ h.channel_id_ = h)
    (hlastSize : w'.last_write_event_size_ h.channel_id_ = UInt32.ofNat len)
    (hothers : ∀ id, id ≠ h.channel_id_ → w'.last_write_event_header_ id = w.last_write_event_header_ id ∧
      w'.last_write_event_size_ id = w.last_write_event_size_ id ∧ rm.channel id = r.channel id)
    (hsize : w'.write_chunk_size_ = rm.read_chunk_size_)
    (hsync : ChannelSync h (UInt32.ofNat len) (rm.channel h.channel_id_)) : InStep w' rm := by
  refine ⟨hsize, ?_⟩
  intro id hid
  by_cases heq : id = h.channel_id_
  · rw [heq, hlast, hlastSize]
    exact hsync
  · obtain ⟨h₁, h₂, h₃⟩ := hothers id heq
    rw [h₁, h₂, h₃]
    exact hstep.channels id hid

/-- Chunks of an event, the last one not among them, when there are several. -/
theorem transfer_part {size len : Nat} {h : Header} {ts us : List SentChunk} {s' : ChannelState}
    (hready : Ready w r) (hsize : r.read_chunk_size_ = size)
    (hchain : Session.Chain (TakesOf size h len) (r.channel h.channel_id_) (ts ++ us) s')
    (hid : ∀ t ∈ ts, t.wire.channel = h.channel_id_) (hnone : ∀ t ∈ ts, t.frame.out = none)
    (hmem : (((ts.map fun t => t.wire.chunk.data.length).sum : Nat) : Int) ≤ r.memory_limit_) :
    ∃ r₁ s₁, Session.Chain (Session.Steps Coder.decodeChunk) r (ts.map SentChunk.frame) r₁ ∧
      Session.Chain (TakesOf size h len) s₁ us s' ∧ r₁.channel h.channel_id_ = s₁ ∧
      (∀ d, d ≠ h.channel_id_ → r₁.channel d = r.channel d) ∧
      r₁.memory_used_ = (ts.map fun t => t.wire.chunk.data.length).sum ∧
      r₁.memory_used_ = s₁.body.length ∧ r₁.read_chunk_size_ = size ∧
      r₁.memory_limit_ = r.memory_limit_ ∧ (ts ≠ [] → ChannelSync h (UInt32.ofNat len) s₁) := by
  obtain ⟨s₁, hfirst, hrest⟩ := hchain.split
  obtain ⟨r₁, hsteps, hch, hothers, hused, hbody, hsize₁, hlim⟩ := chain_of_event rfl hfirst hid hnone hsize
    (by rw [hready.memory, Int.zero_add]; exact hmem)
  rw [hready.memory, Int.zero_add] at hused
  rw [hready.memory, hready.bodies, Int.zero_add] at hbody
  refine ⟨r₁, s₁, hsteps, hrest, hch, hothers, hused, ?_, hsize₁, hlim, fun hne => sync_of_chain hfirst hne⟩
  rw [hbody]
  exact Int.sub_zero _

/-- The chunk sizes of the two sides differ only for an event that fits both. -/
theorem chunkSizes_of_ready (hready : Ready w r) (hm : Framable r.memory_limit_ m) :
    r.read_chunk_size_ = w.chunkSizeFor m.1.body ∨
      (m.2.length ≤ r.read_chunk_size_ ∧ m.2.length ≤ w.chunkSizeFor m.1.body) := by
  by_cases htype : m.1.body.eventType = .chunkSize
  · obtain ⟨n, hn⟩ := exists_of_eventType htype
    obtain ⟨hlow, -, hstream⟩ := hm.chunk n hn
    have hlen : m.2.length = 4 := by
      rw [hstream, hn, EventBody.encodeBody, writeInt32]
      exact writeNumber_length 4 _ _
    rw [hlen, ← hready.inStep.chunk_size, hn]
    exact Or.inr ⟨hready.chunk_size, hlow⟩
  · rw [chunkSizeFor_of_ne w htype]
    exact Or.inl hready.inStep.chunk_size.symm

/-- The frames of an event have the bytes of its chunks. -/
theorem bytesOf_wireChunks {id : UInt32} {ks : List Chunk} {ts : List SentChunk}
    (hwire : ts.map SentChunk.wire = wireChunks id ks) :
    Session.bytesOf (ts.map SentChunk.frame) = (ks.map Chunk.bytes).flatten ∧
      (ts.map fun t => t.wire.chunk.data.length) = ks.map fun k => k.data.length := by
  have hks : ks = ts.map fun t => t.wire.chunk := by
    rw [← wireChunks_map_chunk id ks, ← hwire, map_map]
    rfl
  subst hks
  constructor
  · rw [Session.bytesOf, flatMap_map, map_map, flatMap_def]
    exact congrArg flatten (map_congr_left fun t _ => t.bytes_eq)
  · rw [map_map]
    rfl

/-- An event that may be sent is received. -/
theorem transfer_event (hready : Ready w r) (hm : Framable r.memory_limit_ m) :
    ∃ fs w' r', Transfer (w, r) (m, fs) (w', r') := by
  obtain ⟨hsized, hfour⟩ := setWriteChunkSize_eq hready.chunk_size hm.chunk
  obtain ⟨body, left, hdecode⟩ := hm.decodable
  have hsizes := chunkSizes_of_ready hready hm
  have hsending : Sending (w.sizedFor m.1.body) m.1.header_ 0 [] m.2 (r.channel m.1.header_.channel_id_) :=
    ⟨hready.inStep.channels _ hm.channel, hready.bodies _, fun _ => rfl,
      fun hbad => absurd hbad (Nat.lt_irrefl 0)⟩
  obtain ⟨ks, ts, _, hloop, hevent, hsingle⟩ := encodeLoop_steps hsending hm.channel hm.stream hm.size
    (Nat.lt_of_lt_of_le (by decide) hfour) hsizes hdecode (Nat.lt_succ_self _)
  obtain ⟨hlast, hlastSize, -⟩ := hsending.after hm.channel
  obtain ⟨hbytes, hloads⟩ := bytesOf_wireChunks hevent.wire
  have hload := hevent.load
  rw [← hloads] at hload
  have hid : ∀ t ∈ ts, t.wire.channel = m.1.header_.channel_id_ := by
    intro t ht
    exact channel_of_mem_wireChunks (hevent.wire ▸ mem_map_of_mem ht)
  obtain ⟨init, t, rfl, hout, hinit, hprompt⟩ := hevent.frames
  rw [map_append, sum_append, map_singleton, sum_singleton] at hload
  have hroom := hm.room
  -- All chunks but the last one leave the reader inside the event.
  obtain ⟨r₁, _, hsteps, hrest, hch, hothers, _, hbody, hsize₁, hlim, -⟩ :=
    transfer_part hready rfl hevent.chain (fun u hu => hid u (mem_append_left _ hu))
      (fun u hu => (hinit u hu).1) (by omega)
  obtain ⟨_, ⟨⟨hstep, -⟩, hsync⟩, hnil⟩ := hrest.cons_inv
  obtain rfl := hnil.nil_inv
  rw [hid t (mem_append_right _ (mem_singleton_self t))] at hstep
  obtain ⟨r', htake⟩ := hstep r₁ hch hsize₁ (by rw [hlim]; omega)
  have hchain : Session.Chain (Session.Steps Coder.decodeChunk) r ((init ++ [t]).map SentChunk.frame) r' := by
    rw [map_append]
    exact hsteps.append (.single htake.steps)
  have hothers' : ∀ d, d ≠ m.1.header_.channel_id_ → r'.channel d = r.channel d := by
    intro d hd
    rw [htake.others d hd, hothers d hd]
  have hread : r'.read_chunk_size_ = w.chunkSizeFor m.1.body := by
    rw [htake.chunk_size, hout, hsize₁]
    exact chunkSizeAfter_eq hready.inStep.chunk_size m.1.type_eq hm.chunk hdecode
  have hwrites : ∀ id, id ≠ m.1.header_.channel_id_ →
      ((w.sizedFor m.1.body).afterChunk m.1.header_ 0 m.2).last_write_event_header_ id =
          w.last_write_event_header_ id ∧
        ((w.sizedFor m.1.body).afterChunk m.1.header_ 0 m.2).last_write_event_size_ id =
          w.last_write_event_size_ id :=
    fun id hne => ⟨Function.update_of_ne hne _ _, Function.update_of_ne hne _ _⟩
  have hafter : InStep ((w.sizedFor m.1.body).afterChunk m.1.header_ 0 m.2) r' := by
    refine inStep_after hready.inStep hlast hlastSize ?_ hread.symm ?_
    · intro id hne
      exact ⟨(hwrites id hne).1, (hwrites id hne).2, hothers' id hne⟩
    · rw [htake.channel]
      exact hsync
  refine ⟨(init ++ [t]).map SentChunk.frame, (w.sizedFor m.1.body).afterChunk m.1.header_ 0 m.2, r',
    ⟨ks, ?_, hbytes⟩, hchain, ⟨hafter, hfour, ?_, ?_⟩, ?_, htake.limit.trans hlim, ?_, ?_⟩
  · rw [Coder.encodeWithAuxBuffer, hsized]
    exact hloop
  · intro id
    by_cases heq : id = m.1.header_.channel_id_
    · rw [heq, htake.channel]
      exact hevent.body
    · rw [hothers' id heq]
      exact hready.bodies id
  · rw [htake.memory, hch, hbody, hevent.body, length_nil]
    omega
  · rw [Sent.after, Coder.sent, Sent.mk.injEq]
    refine ⟨rfl, funext fun id => ?_⟩
    by_cases heq : id = m.1.header_.channel_id_
    · rw [heq, hlast, Function.update_self]
    · rw [(hwrites id heq).1, Function.update_of_ne heq]
      rfl
  · intro pre post rm hsplit hne hpre
    obtain ⟨a, b, hab, rfl, rfl⟩ := map_eq_append_iff.1 hsplit
    rcases eq_nil_or_concat b with rfl | ⟨b, _, rfl⟩
    · -- The reader has taken the event.
      rw [append_nil] at hab
      rw [← hab] at hpre
      obtain rfl := hpre.unique Session.Steps.unique hchain
      exact hafter
    · -- The reader has taken a part of the event, which needs more than one chunk then.
      rw [concat_eq_append, ← append_assoc] at hab
      obtain ⟨rfl, -⟩ := append_inj' hab rfl
      have hsame : r.read_chunk_size_ = w.chunkSizeFor m.1.body := by
        refine hsizes.resolve_right fun hboth => hne ?_
        have hone := hsingle hboth.2
        rw [length_append, length_append, length_singleton] at hone
        rw [length_eq_zero_iff.1 (show a.length = 0 by omega), map_nil]
      have hwhole := hevent.chain
      rw [append_assoc] at hwhole
      rw [map_append, sum_append] at hload
      obtain ⟨_, _, hsteps₂, -, hch₂, hothers₂, -, -, hsize₂, -, hsync₂⟩ := transfer_part hready rfl hwhole
        (fun u hu => hid u (mem_append_left _ (mem_append_left _ hu)))
        (fun u hu => (hinit u (mem_append_left _ hu)).1) (by omega)
      obtain rfl := hpre.unique Session.Steps.unique hsteps₂
      refine inStep_after hready.inStep hlast hlastSize ?_ (by rw [hsize₂, hsame]; rfl) ?_
      · intro id hid'
        exact ⟨(hwrites id hid').1, (hwrites id hid').2, hothers₂ id hid'⟩
      · rw [hch₂]
        exact hsync₂ fun hnil => hne (by rw [hnil, map_nil])
  · refine ⟨init.map SentChunk.frame, t.frame, _, map_append, hout, ?_, ?_, ?_⟩
    · refine ⟨?_, body, left, hdecode, rfl⟩
      have hflag : decide (0 = 0 ∧ m.2.length ≤ w.chunkSizeFor m.1.body) =
          decide (m.2.length ≤ w.chunkSizeFor m.1.body) := by
        rw [decide_eq_decide]
        exact and_iff_right rfl
      exact congrArg (fun first => receivedHeader first _ _) hflag
    · intro u hu
      obtain ⟨v, hv, rfl⟩ := mem_map.1 hu
      obtain ⟨hnone, hwants⟩ := hinit v hv
      exact ⟨hnone, hwants (by rw [← hready.inStep.chunk_size]; exact hready.chunk_size)⟩
    · change _ ↔ _ ∨ 4 ≤ lastLoad (w.chunkSizeFor m.1.body) m.2.length
      rw [hprompt]
      rcases hsizes with hsame | ⟨hr, hw⟩
      · rw [hsame]
      · rw [lastLoad_of_le hr, lastLoad_of_le hw]

end Event

end Whispercast.Rtmp
