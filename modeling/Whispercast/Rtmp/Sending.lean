import Whispercast.Rtmp.Chunk

/-!
# One event between two coders

While a writer is inside an event, it has sent a part of the body in chunks. `Sending` relates the writer
to the state that a reader keeps for the channel. Each chunk of the writer is a frame that the reader takes
(`encodeChunk_steps`), and so all chunks of an event are a series of frames that completes exactly one
event (`encodeLoop_steps`).

What the reader knows of the header when the last chunk has come is `receivedHeader`.
-/

namespace Whispercast.Rtmp

open Library Io Amf Coder List Header

/-! ## What is received -/

/-- The header that an event is created with: the one of its last chunk. -/
def receivedHeader (first : Bool) (last h : Header) : Header :=
  { h with
    timestamp_ms_ := if first then h.timestamp_ms_ else (laterReceived h).timestamp_ms_
    is_timestamp_relative_ := if first then (firstReceived last h).is_timestamp_relative_ else true }

theorem received_type {h : Header} (body : {body : EventBody // body.eventType = h.event_type_}) :
    h.event_type_ = body.1.eventType := body.2.symm

/-- The event that is created for a body. -/
def receivedEvent (first : Bool) (last h : Header)
    (body : {body : EventBody // body.eventType = h.event_type_}) : Event :=
  ⟨receivedHeader first last h, body.1, received_type body⟩

theorem receivedHeader_true (last h : Header) : receivedHeader true last h = firstReceived last h := rfl

theorem receivedHeader_false (last h : Header) : receivedHeader false last h = laterReceived h := rfl

/-! ## Inside an event -/

/-- The writer has sent the part `sent` of the body of an event in `num_chunks` chunks, and `left` is not
sent yet; `s` is what the reader has of the channel. -/
structure Sending (w : Coder) (h : Header) (num_chunks : Nat) (sent left : Bytes) (s : ChannelState) :
    Prop where
  sync : ChannelSync (w.last_write_event_header_ h.channel_id_) (w.last_write_event_size_ h.channel_id_) s
  body : s.body = sent
  first : num_chunks = 0 → sent = []
  later : 0 < num_chunks → sent ≠ [] ∧ left ≠ [] ∧ w.last_write_event_header_ h.channel_id_ = h ∧
    w.last_write_event_size_ h.channel_id_ = UInt32.ofNat (sent ++ left).length

namespace Coder

/-- The writer after a chunk. -/
def afterChunk (w : Coder) (h : Header) (num_chunks : Nat) (event_stream : Bytes) : Coder :=
  if num_chunks = 0 then w.setLastWrite h (UInt32.ofNat event_stream.length) else w

theorem toRead_eq (c : Coder) {total initial : Nat} (htotal : total < 2 ^ 24) (hle : initial ≤ total) :
    c.toRead (UInt32.ofNat total) initial = (min c.read_chunk_size_ (total - initial) : Nat) := by
  have hlt : total - initial < 2 ^ 31 := by omega
  rw [toRead, ← UInt32.ofNat_sub hle, UInt32.toInt32_ofNat', Int32.toInt_ofNat_of_lt hlt]
  omega

theorem toNat_ofNat_size {n : Nat} (h : n < 2 ^ 24) : (UInt32.ofNat n).toNat = n := by
  rw [UInt32.toNat_ofNat', Nat.mod_eq_of_lt (Nat.lt_trans h (by decide))]

end Coder

/-! ## A chunk of the writer is taken by the reader -/

/-- A chunk as it is sent, with what it does to the channel on the side of the reader. -/
structure ChunkSent (id : UInt32) (size : Nat) (h : Header) (payload : Bytes) (s : ChannelState)
    (f : Frame UInt8 Event) (s' : ChannelState) : Prop where
  steps : Coder.ChannelSteps id size payload.length s f s'
  prompt : f.wants ≤ f.bytes.length ↔ 0xffffff ≤ h.timestamp_ms_ ∨ 4 ≤ payload.length
  wants : f.wants ≤ f.bytes.length + 4

section

variable {w : Coder} {h : Header} {num_chunks : Nat} {sent left : Bytes} {s : ChannelState}
  {body : {body : EventBody // body.eventType = h.event_type_}} {rest : Bytes}

/-- How long a chunk is, and how much of the input the reader waits for. -/
theorem chunkFrame_prompt (header_type : HeaderType) (b : UInt8) {fields : Bytes} {extended : Bool}
    (payload : Bytes) (out : Option Event) (hlen : fields.length = header_type.length + if extended then 4 else 0) :
    ((Coder.chunkFrame header_type b fields payload out).wants ≤
        (Coder.chunkFrame header_type b fields payload out).bytes.length ↔
      extended = true ∨ 4 ≤ payload.length) ∧
    (Coder.chunkFrame header_type b fields payload out).wants ≤
      (Coder.chunkFrame header_type b fields payload out).bytes.length + 4 := by
  have hbytes : (chunkFrame header_type b fields payload out).bytes.length =
      fields.length + 1 + payload.length := by
    change (b :: fields ++ payload).length = _
    rw [length_append, length_cons]
  have hwants : (chunkFrame header_type b fields payload out).wants =
      max (header_type.length + 5) (fields.length + 1 + payload.length) := by
    change max _ (b :: fields ++ payload).length = _
    rw [length_append, length_cons]
  rw [hbytes, hwants, hlen]
  cases extended with
  | true =>
    rw [if_pos rfl]
    exact ⟨⟨fun _ => Or.inl rfl, fun _ => by omega⟩, by omega⟩
  | false =>
    rw [if_neg Bool.false_ne_true]
    refine ⟨⟨fun hle => Or.inr (by omega), ?_⟩, by omega⟩
    rintro (hbad | hle)
    · exact absurd hbad (by decide)
    · omega

/-- The header of the next chunk, and what is read of it. -/
theorem Sending.header (hs : Sending w h num_chunks sent left s) (hch : Header.IsChannel h.channel_id_)
    (hstream : h.stream_id_ ≠ kInvalidStreamId) :
    ∃ header_type ts, HeaderSent h (UInt32.ofNat left.length) s
      (h.encode w (UInt32.ofNat left.length) (decide (0 < num_chunks))) header_type ts
      (receivedHeader (num_chunks = 0) (w.last_write_event_header_ h.channel_id_) h,
        UInt32.ofNat (sent ++ left).length) := by
  rcases Nat.eq_zero_or_pos num_chunks with hzero | hpos
  · have hflag : decide (0 < num_chunks) = false := by rw [hzero]; rfl
    have hfirst : decide (num_chunks = 0) = true := decide_eq_true hzero
    rw [hflag, hfirst, receivedHeader_true, hs.first hzero, nil_append]
    exact ⟨_, _, encode_first hch hstream hs.sync⟩
  · obtain ⟨-, -, hlast, hsize⟩ := hs.later hpos
    have hsync := hs.sync
    rw [hlast] at hsync
    have hfirst : decide (num_chunks = 0) = false := decide_eq_false (Nat.pos_iff_ne_zero.1 hpos)
    rw [decide_eq_true hpos, hfirst, receivedHeader_false, ← hsize, ← (hsync.known hstream).2]
    exact ⟨_, _, encode_later hch hlast hsync⟩

/-- What the chunk makes of the channel. -/
def channelAfter (w : Coder) (h : Header) (num_chunks : Nat) (sent left : Bytes) (s : ChannelState) :
    ChannelState :=
  let noted := s.noted (receivedHeader (num_chunks = 0) (w.last_write_event_header_ h.channel_id_) h)
    (UInt32.ofNat (sent ++ left).length) (left.take w.write_chunk_size_)
  if left.length ≤ w.write_chunk_size_ then { noted with body := [] } else noted

/-- The event that the chunk completes. -/
def chunkOut (w : Coder) (h : Header) (num_chunks : Nat) (left : Bytes)
    (body : {body : EventBody // body.eventType = h.event_type_}) : Option Event :=
  if left.length ≤ w.write_chunk_size_
  then some (receivedEvent (num_chunks = 0) (w.last_write_event_header_ h.channel_id_) h body) else none

variable {size : Nat}

/-- A chunk that the writer sends is a frame for a reader that takes as much of the body from it. -/
theorem encodeChunk_steps (hs : Sending w h num_chunks sent left s)
    (hch : Header.IsChannel h.channel_id_) (hstream : h.stream_id_ ≠ kInvalidStreamId)
    (hlen : (sent ++ left).length < 2 ^ 24)
    (hmin : min size left.length = min w.write_chunk_size_ left.length)
    (hbody : left.length ≤ w.write_chunk_size_ →
      decodeBody h.event_type_ (sent ++ left) = (.ok body, rest)) :
    ∃ (k : Chunk) (f : Frame UInt8 Event),
      w.encodeChunk h num_chunks left =
        some (w.afterChunk h num_chunks left, k, left.drop w.write_chunk_size_) ∧
      k.data = left.take w.write_chunk_size_ ∧ f.bytes = k.bytes ∧ f.out = chunkOut w h num_chunks left body ∧
      ChunkSent h.channel_id_ size h (left.take w.write_chunk_size_) s f
        (channelAfter w h num_chunks sent left s) := by
  obtain ⟨header_type, ts, hsent⟩ := hs.header hch hstream
  have htotal : (UInt32.ofNat (sent ++ left).length).toNat = (sent ++ left).length :=
    toNat_ofNat_size hlen
  have hleft : left.length < 2 ^ 24 := by
    rw [length_append] at hlen
    omega
  have hlength := writeFields_length h header_type ts (UInt32.ofNat left.length)
    (extendedFor header_type ts s.header.timestamp_ms_)
  rw [hsent.extended] at hlength
  have hprompt := chunkFrame_prompt header_type (headerByte header_type h.channel_id_)
    (left.take w.write_chunk_size_) (chunkOut w h num_chunks left body) hlength
  rw [decide_eq_true_iff, ← hsent.extended] at hprompt
  refine ⟨⟨headerByte header_type h.channel_id_ :: h.writeFields header_type ts
      (UInt32.ofNat left.length) (extendedFor header_type ts s.header.timestamp_ms_),
      left.take w.write_chunk_size_⟩,
    chunkFrame header_type (headerByte header_type h.channel_id_)
      (h.writeFields header_type ts (UInt32.ofNat left.length)
        (extendedFor header_type ts s.header.timestamp_ms_))
      (left.take w.write_chunk_size_) (chunkOut w h num_chunks left body),
    ?_, rfl, rfl, rfl, ⟨?_, hprompt.1, hprompt.2⟩⟩
  · -- What the writer does.
    rw [encodeChunk, hsent.bytes_eq]
    change some (afterChunk w h num_chunks left,
      Chunk.mk _ (left.take (min left.length w.write_chunk_size_)),
      left.drop (min left.length w.write_chunk_size_)) = _
    rw [Nat.min_comm, ← take_eq_take_min, ← drop_eq_drop_min]
  · -- What the reader does.
    intro r hr hsize hmem
    have hheader : r.last_read_event_header_ h.channel_id_ = s.header := congrArg ChannelState.header hr
    have hlast : r.last_read_event_size_ h.channel_id_ = s.size := congrArg ChannelState.size hr
    have hbodies : r.partial_bodies_ h.channel_id_ = sent := (congrArg ChannelState.body hr).trans hs.body
    have hread : r.toRead (UInt32.ofNat (sent ++ left).length) (r.partial_bodies_ h.channel_id_).length =
        (left.take w.write_chunk_size_).length := by
      rw [hbodies, toRead_eq r hlen (by rw [length_append]; exact Nat.le_add_right _ _), hsize,
        length_append, Nat.add_sub_cancel_left, length_take, hmin]
    have hnoted : (r.noted (receivedHeader (num_chunks = 0) (w.last_write_event_header_ h.channel_id_) h)
        (UInt32.ofNat (sent ++ left).length) (left.take w.write_chunk_size_)).channel h.channel_id_ =
        s.noted (receivedHeader (num_chunks = 0) (w.last_write_event_header_ h.channel_id_) h)
          (UInt32.ofNat (sent ++ left).length) (left.take w.write_chunk_size_) := by
      rw [← hr]
      exact channel_noted_self r _ _ _
    by_cases hle : left.length ≤ w.write_chunk_size_
    · -- The last chunk of the event.
      have htake : left.take w.write_chunk_size_ = left := take_of_length_le hle
      rw [channelAfter, chunkOut, if_pos hle, if_pos hle]
      rw [htake] at hread hmem hnoted ⊢
      have hdone : ∀ behind input, r.takeChunk
          (receivedHeader (num_chunks = 0) (w.last_write_event_header_ h.channel_id_) h)
          (UInt32.ofNat (sent ++ left).length) left behind input =
          .out (some (receivedEvent (num_chunks = 0) (w.last_write_event_header_ h.channel_id_) h body))
            (((r.noted (receivedHeader (num_chunks = 0) (w.last_write_event_header_ h.channel_id_) h)
              (UInt32.ofNat (sent ++ left).length) left).releaseBody h.channel_id_
              (sent ++ left) []).setReadChunkSize body.1) behind := by
        intro behind input
        refine takeChunk_last hbodies hmem ?_ (hbody hle)
        rw [htotal]
        exact Nat.lt_irrefl _
      have hsteps := decodeChunk_steps hch
        (by rw [hheader]; exact hsent.known) (by rwa [toNat_ofNat_size hleft])
        (by rw [hheader, hlast]; exact hsent.readBack_eq) (by exact hread) hdone
      rw [hheader] at hsteps
      refine ⟨_, hsteps, ?_, ?_, ?_, ?_, ?_⟩
      · rw [channel_setReadChunkSize, channel_releaseBody_self, hnoted]
      · intro d hd
        rw [channel_setReadChunkSize, channel_releaseBody_of_ne _ _ _ _ hd]
        exact channel_noted_of_ne _ _ _ _ hd
      · rw [setReadChunkSize_eq]
        exact noted_limit _ _ _ _
      · rw [setReadChunkSize_eq, hr, hs.body]
        change (noted _ _ _ _).memory_used_ - ((sent ++ left).length : Int) = _
        rw [noted_memory, length_append, length_nil]
        omega
      · rw [setReadChunkSize_eq]
        change chunkSizeAfter (noted _ _ _ _).read_chunk_size_ body.1 = _
        rw [noted_chunk_size]
        rfl
    · -- More chunks follow.
      rw [channelAfter, chunkOut, if_neg hle, if_neg hle]
      have hdone : ∀ behind input, r.takeChunk
          (receivedHeader (num_chunks = 0) (w.last_write_event_header_ h.channel_id_) h)
          (UInt32.ofNat (sent ++ left).length) (left.take w.write_chunk_size_) behind input =
          .out none (r.noted (receivedHeader (num_chunks = 0) (w.last_write_event_header_ h.channel_id_) h)
            (UInt32.ofNat (sent ++ left).length) (left.take w.write_chunk_size_)) behind := by
        intro behind input
        refine takeChunk_more hbodies hmem ?_
        rw [htotal, length_append, length_append, length_take]
        omega
      have hsteps := decodeChunk_steps hch
        (by rw [hheader]; exact hsent.known) (by rwa [toNat_ofNat_size hleft])
        (by rw [hheader, hlast]; exact hsent.readBack_eq) (by exact hread) hdone
      rw [hheader] at hsteps
      refine ⟨_, hsteps, hnoted, ?_, ?_, ?_, ?_⟩
      · intro d hd
        exact channel_noted_of_ne _ _ _ _ hd
      · exact noted_limit _ _ _ _
      · rw [noted_memory, noted_body, hr, length_append]
        omega
      · exact noted_chunk_size _ _ _ _

/-! ## All chunks of an event -/

/-- A chunk on its way: its channel, and whether it is the last one of its event. -/
structure WireChunk where
  channel : UInt32
  chunk : Chunk
  last : Bool

/-- The chunks of an event on a channel. -/
def wireChunks (id : UInt32) : List Chunk → List WireChunk
  | [] => []
  | [k] => [⟨id, k, true⟩]
  | k :: k' :: ks => ⟨id, k, false⟩ :: wireChunks id (k' :: ks)

/-- A chunk on its way, and the frame that it is for the reader. -/
structure SentChunk where
  wire : WireChunk
  frame : Frame UInt8 Event
  bytes_eq : frame.bytes = wire.chunk.bytes
  last_eq : wire.last = frame.out.isSome

/-- A channel takes a chunk. -/
def Takes (size : Nat) (s : ChannelState) (t : SentChunk) (s' : ChannelState) : Prop :=
  Coder.ChannelSteps t.wire.channel size t.wire.chunk.data.length s t.frame s' ∧
    s'.body.length = if t.wire.last then 0 else s.body.length + t.wire.chunk.data.length

/-- How much of a body of the given length is in its last chunk. -/
def lastLoad (size len : Nat) : Nat := if len = 0 then 0 else (len - 1) % size + 1

theorem lastLoad_of_le {len : Nat} (h : len ≤ size) : lastLoad size len = len := by
  rw [lastLoad]
  split
  · omega
  · rw [Nat.mod_eq_of_lt (by omega)]
    omega

theorem lastLoad_sub {len : Nat} (h : size < len) : lastLoad size (len - size) = lastLoad size len := by
  have hmod : (len - size - 1) % size = (len - 1) % size := by
    have heq : len - 1 = len - size - 1 + size := by omega
    rw [heq, Nat.add_mod_right]
  rw [lastLoad, lastLoad, if_neg (by omega), if_neg (by omega), hmod]

/-- A channel takes a chunk of an event with the header `h` and a body of `len` bytes, and remembers the
header. -/
def TakesOf (size : Nat) (h : Header) (len : Nat) (s : ChannelState) (t : SentChunk) (s' : ChannelState) :
    Prop :=
  Takes size s t s' ∧ ChannelSync h (UInt32.ofNat len) s'

/-- The rest of an event as it is sent: the chunks `ks` are frames `ts` for the reader, of which the last
one completes the event `out`. -/
structure EventSent (size : Nat) (h : Header) (sent left : Bytes) (s : ChannelState) (out : Event)
    (ks : List Chunk) (ts : List SentChunk) (s' : ChannelState) : Prop where
  wire : ts.map SentChunk.wire = wireChunks h.channel_id_ ks
  chain : Session.Chain (TakesOf size h (sent ++ left).length) s ts s'
  frames : ∃ init t, ts = init ++ [t] ∧ t.frame.out = some out ∧
    (∀ u ∈ init, u.frame.out = none ∧ (4 ≤ size → u.frame.wants ≤ u.frame.bytes.length)) ∧
    (t.frame.wants ≤ t.frame.bytes.length ↔ 0xffffff ≤ h.timestamp_ms_ ∨ 4 ≤ lastLoad size left.length)
  late : ∀ u ∈ ts, u.frame.wants ≤ u.frame.bytes.length + 4
  load : (ks.map fun k => k.data.length).sum = left.length
  body : s'.body = []

theorem wireChunks_cons (id : UInt32) (k : Chunk) {ks : List Chunk} (hne : ks ≠ []) :
    wireChunks id (k :: ks) = ⟨id, k, false⟩ :: wireChunks id ks := by
  cases ks with
  | nil => exact absurd rfl hne
  | cons k' ks => rfl

theorem channel_of_mem_wireChunks {id : UInt32} {ks : List Chunk} {k : WireChunk}
    (h : k ∈ wireChunks id ks) : k.channel = id := by
  induction ks with
  | nil => exact absurd h not_mem_nil
  | cons c ks ih =>
    by_cases hne : ks = []
    · subst hne
      rw [mem_singleton.1 h]
    · rw [wireChunks_cons id c hne] at h
      rcases mem_cons.1 h with rfl | h
      · rfl
      · exact ih h

@[simp] theorem wireChunks_map_chunk (id : UInt32) (ks : List Chunk) :
    (wireChunks id ks).map WireChunk.chunk = ks := by
  induction ks with
  | nil => rfl
  | cons c ks ih =>
    by_cases hne : ks = []
    · subst hne
      rfl
    · rw [wireChunks_cons id c hne, map_cons, ih]

/-- The first chunk leaves a header and a size on the channel. -/
theorem channelAfter_first (hzero : num_chunks = 0) (hs : Sending w h num_chunks sent left s) :
    (channelAfter w h num_chunks sent left s).header =
        firstReceived (w.last_write_event_header_ h.channel_id_) h ∧
      (channelAfter w h num_chunks sent left s).size = UInt32.ofNat (sent ++ left).length := by
  have hempty : s.body.length = 0 := by rw [hs.body, hs.first hzero, length_nil]
  rw [channelAfter, decide_eq_true hzero, receivedHeader_true, ChannelState.noted, if_pos hempty]
  constructor
  · split <;> rfl
  · split <;> rfl

/-- The other chunks leave them as they are. -/
theorem channelAfter_later (hpos : 0 < num_chunks) (hs : Sending w h num_chunks sent left s) :
    (channelAfter w h num_chunks sent left s).header = s.header ∧
      (channelAfter w h num_chunks sent left s).size = s.size := by
  have hne : s.body.length ≠ 0 := by
    rw [hs.body]
    exact fun hlen => (hs.later hpos).1 (length_eq_zero_iff.1 hlen)
  rw [channelAfter, ChannelState.noted, if_neg hne]
  constructor
  · split <;> rfl
  · split <;> rfl

section

variable (hs : Sending w h num_chunks sent left s)

include hs

/-- The writer and the reader remember the same after a chunk. -/
theorem Sending.after (hch : Header.IsChannel h.channel_id_) :
    (w.afterChunk h num_chunks left).last_write_event_header_ h.channel_id_ = h ∧
      (w.afterChunk h num_chunks left).last_write_event_size_ h.channel_id_ =
        UInt32.ofNat (sent ++ left).length ∧
      ChannelSync h (UInt32.ofNat (sent ++ left).length) (channelAfter w h num_chunks sent left s) := by
  have hvalid := isChannel_ne_invalid hch
  rcases Nat.eq_zero_or_pos num_chunks with hzero | hpos
  · obtain ⟨hheader, hsize⟩ := channelAfter_first hzero hs
    rw [afterChunk, if_pos hzero]
    refine ⟨Function.update_self .., ?_, ?_⟩
    · rw [hs.first hzero]
      exact Function.update_self ..
    · exact ⟨by rw [hheader]; rfl, by rw [hheader]; rfl, by rw [hheader]; rfl, by rw [hheader]; rfl,
        fun _ => ⟨hvalid, hsize⟩⟩
  · obtain ⟨-, -, hlast, hlen⟩ := hs.later hpos
    obtain ⟨hheader, hsize⟩ := channelAfter_later hpos hs
    have hsync := hs.sync
    rw [hlast, hlen] at hsync
    rw [afterChunk, if_neg (Nat.pos_iff_ne_zero.1 hpos)]
    refine ⟨hlast, hlen, ?_⟩
    exact ⟨hheader ▸ hsync.channel, hheader ▸ hsync.stream, hheader ▸ hsync.type,
      hheader ▸ hsync.timestamp, fun hst => ⟨hvalid, hsize.trans (hsync.known hst).2⟩⟩

/-- The body on the side of the reader after a chunk. -/
theorem channelAfter_body : (channelAfter w h num_chunks sent left s).body =
      if left.length ≤ w.write_chunk_size_ then [] else sent ++ left.take w.write_chunk_size_ := by
  rw [channelAfter]
  by_cases hle : left.length ≤ w.write_chunk_size_
  · rw [if_pos hle, if_pos hle]
  · rw [if_neg hle, if_neg hle, noted_body, hs.body]

/-- The writer goes on with the rest. -/
theorem Sending.next (hch : Header.IsChannel h.channel_id_)
    (hsize : 0 < w.write_chunk_size_) (hlt : ¬ left.length ≤ w.write_chunk_size_) :
    Sending (w.afterChunk h num_chunks left) h (num_chunks + 1) (sent ++ left.take w.write_chunk_size_)
      (left.drop w.write_chunk_size_) (channelAfter w h num_chunks sent left s) := by
  obtain ⟨hlast, hlen, _⟩ := hs.after hch
  refine ⟨by rwa [hlast, hlen], by rw [channelAfter_body hs, if_neg hlt], fun hbad => absurd hbad (Nat.succ_ne_zero _),
    fun _ => ⟨?_, ?_, hlast, ?_⟩⟩
  · intro hnil
    have hzero := congrArg length hnil
    rw [length_append, length_take, length_nil] at hzero
    omega
  · intro hnil
    exact hlt (drop_eq_nil_iff.1 hnil)
  · rw [hlen, append_assoc, take_append_drop]

end

theorem afterChunk_chunk_size (w : Coder) (h : Header) (num_chunks : Nat) (left : Bytes) :
    (w.afterChunk h num_chunks left).write_chunk_size_ = w.write_chunk_size_ := by
  rw [afterChunk]
  split <;> rfl

/-- The rest of an event is sent in chunks that the reader takes, and the reader gets the event with the
last of them. The chunk sizes on the two sides are the same, or do not matter for what is left. -/
theorem encodeLoop_steps {n : Nat} (hs : Sending w h num_chunks sent left s)
    (hch : Header.IsChannel h.channel_id_) (hstream : h.stream_id_ ≠ kInvalidStreamId)
    (hlen : (sent ++ left).length < 2 ^ 24) (hsize : 0 < w.write_chunk_size_)
    (hsizes : size = w.write_chunk_size_ ∨ (left.length ≤ size ∧ left.length ≤ w.write_chunk_size_))
    (hbody : decodeBody h.event_type_ (sent ++ left) = (.ok body, rest)) (hn : left.length < n) :
    ∃ ks ts s', Coder.encodeLoop h n w num_chunks left = some (w.afterChunk h num_chunks left, ks) ∧
      EventSent size h sent left s
        (receivedEvent (num_chunks = 0 ∧ left.length ≤ w.write_chunk_size_)
          (w.last_write_event_header_ h.channel_id_) h body) ks ts s' ∧
      (left.length ≤ w.write_chunk_size_ → ts.length = 1) := by
  induction n generalizing w num_chunks sent left s with
  | zero => exact absurd hn (Nat.not_lt_zero _)
  | succ n ih =>
    have hmin : min size left.length = min w.write_chunk_size_ left.length := by
      rcases hsizes with heq | ⟨hr, hw⟩
      · rw [heq]
      · rw [Nat.min_eq_right hr, Nat.min_eq_right hw]
    obtain ⟨k, f, hencode, hdata, hbytes, hout, hsent⟩ :=
      encodeChunk_steps hs hch hstream hlen hmin (fun _ => hbody)
    obtain ⟨-, -, hsync⟩ := hs.after hch
    have hafter := channelAfter_body hs
    by_cases hle : left.length ≤ w.write_chunk_size_
    · -- This is the last chunk.
      have hnil : left.drop w.write_chunk_size_ = [] := drop_eq_nil_of_le hle
      have htake : left.take w.write_chunk_size_ = left := take_of_length_le hle
      rw [if_pos hle] at hafter
      have hsome : f.out = some (receivedEvent (num_chunks = 0 ∧ left.length ≤ w.write_chunk_size_)
          (w.last_write_event_header_ h.channel_id_) h body) := by
        rw [hout, chunkOut, if_pos hle]
        simp only [hle, and_true]
      refine ⟨[k], [⟨⟨h.channel_id_, k, true⟩, f, hbytes, by rw [hsome]; rfl⟩],
        channelAfter w h num_chunks sent left s, ?_,
        ⟨rfl, .single ⟨⟨?_, ?_⟩, hsync⟩, ⟨[], _, rfl, hsome, ?_, ?_⟩, ?_, ?_, hafter⟩, fun _ => rfl⟩
      · rw [encodeLoop, hencode]
        change (if left.drop w.write_chunk_size_ = [] then _ else _) = _
        rw [if_pos hnil]
      · rw [hdata]
        exact hsent.steps
      · rw [hafter]
        rfl
      · intro u hu
        exact absurd hu not_mem_nil
      · have hread : left.length ≤ size := hsizes.elim (fun heq => heq ▸ hle) fun hboth => hboth.1
        rw [hsent.prompt, htake, lastLoad_of_le hread]
      · intro u hu
        rw [mem_singleton.1 hu]
        exact hsent.wants
      · rw [map_singleton, sum_singleton, hdata, htake]
    · -- More chunks follow.
      obtain rfl : size = w.write_chunk_size_ := hsizes.elim id fun hboth => absurd hboth.2 hle
      have hne : left.drop w.write_chunk_size_ ≠ [] := fun hnil => hle (drop_eq_nil_iff.1 hnil)
      have hnext := hs.next hch hsize hle
      have hjoin : sent ++ left.take w.write_chunk_size_ ++ left.drop w.write_chunk_size_ = sent ++ left := by
        rw [append_assoc, take_append_drop]
      have hshort : (left.drop w.write_chunk_size_).length < n := by
        rw [length_drop]
        omega
      obtain ⟨ks, ts, s', hloop, hevent, -⟩ := ih hnext (by rwa [hjoin])
        (by rwa [afterChunk_chunk_size]) (Or.inl (afterChunk_chunk_size _ _ _ _).symm) (by rwa [hjoin]) hshort
      rw [afterChunk_chunk_size] at hevent
      have hchain := hevent.chain
      rw [hjoin] at hchain
      obtain ⟨init, t, hts, ht, hinit, hprompt⟩ := hevent.frames
      have hnone : f.out = none := by rw [hout, chunkOut, if_neg hle]
      have hks : ks ≠ [] := by
        intro hnil
        have hwire := hevent.wire
        rw [hnil, hts, map_append] at hwire
        exact absurd hwire (by simp [wireChunks])
      refine ⟨k :: ks, ⟨⟨h.channel_id_, k, false⟩, f, hbytes, by rw [hnone]; rfl⟩ :: ts, s', ?_,
        ⟨?_, .cons ⟨⟨?_, ?_⟩, hsync⟩ hchain, ⟨_ :: init, t, by rw [hts]; rfl, ?_, ?_, ?_⟩, ?_, ?_,
          hevent.body⟩, fun hbad => absurd hbad hle⟩
      · rw [encodeLoop, hencode]
        change (if left.drop w.write_chunk_size_ = [] then _ else _) = _
        rw [if_neg hne, hloop]
        rfl
      · rw [wireChunks_cons _ _ hks, map_cons, hevent.wire]
      · rw [hdata]
        exact hsent.steps
      · change _ = s.body.length + k.data.length
        rw [hafter, if_neg hle, hdata, hs.body, length_append]
      · rw [ht]
        have hfirst : ¬ (num_chunks = 0 ∧ left.length ≤ w.write_chunk_size_) := fun hbad => hle hbad.2
        have hlater : ¬ (num_chunks + 1 = 0 ∧
            (left.drop w.write_chunk_size_).length ≤ w.write_chunk_size_) :=
          fun hbad => Nat.succ_ne_zero _ hbad.1
        rw [decide_eq_false hfirst, decide_eq_false hlater]
        rfl
      · intro u hu
        rcases mem_cons.1 hu with rfl | hu
        · refine ⟨hnone, fun hfour => ?_⟩
          rw [hsent.prompt, length_take, Nat.min_eq_left (by omega)]
          exact Or.inr hfour
        · exact hinit u hu
      · rw [hprompt, length_drop, lastLoad_sub (Nat.lt_of_not_le hle)]
      · intro u hu
        rcases mem_cons.1 hu with rfl | hu
        · exact hsent.wants
        · exact hevent.late u hu
      · rw [map_cons, sum_cons, hevent.load, hdata, ← length_append, take_append_drop]

end

end Whispercast.Rtmp
