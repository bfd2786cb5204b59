import Whispercast.Rtmp.Coder

/-!
# One chunk between two coders

A coder keeps for each channel the last header and the last size that it has read, and the part of a body
that has come. A chunk changes these for its own channel, and the account of the memory, and nothing else.

The header of a chunk is chosen by what the writer remembers of the channel and understood by what the
reader remembers. `ChannelSync` says that they remember the same as far as headers go; a chunk of the
writer keeps it so (`encodeChunk_steps`).
-/

namespace Whispercast.Rtmp

open Library Io Amf Header List

/-! ## What a coder keeps for a channel -/

/-- The last header, the last size, and the part of a body that has come on a channel. -/
structure ChannelState where
  header : Header
  size : UInt32
  body : Bytes

/-- The state of a channel after the data of a chunk and the header of a first one. -/
def ChannelState.noted (s : ChannelState) (header : Header) (event_size : UInt32) (data : Bytes) :
    ChannelState :=
  if s.body.length = 0 then ⟨header, event_size, s.body ++ data⟩ else { s with body := s.body ++ data }

namespace Coder

/-- What a coder keeps for reading from a channel. -/
def channel (c : Coder) (id : UInt32) : ChannelState where
  header := c.last_read_event_header_ id
  size := c.last_read_event_size_ id
  body := c.partial_bodies_ id

section Channels

variable (c : Coder) (header : Header) (event_size id : UInt32) (data left : Bytes) (body : EventBody)

@[simp] theorem channel_appendBody_self : (c.appendBody id data).channel id =
    { c.channel id with body := (c.channel id).body ++ data } := by
  simp [channel, appendBody]

@[simp] theorem channel_appendBody_of_ne {d : UInt32} (hd : d ≠ id) :
    (c.appendBody id data).channel d = c.channel d := by
  simp [channel, appendBody, hd]

@[simp] theorem channel_setLastRead_self : (c.setLastRead header event_size).channel header.channel_id_ =
    ⟨header, event_size, (c.channel header.channel_id_).body⟩ := by
  simp [channel, setLastRead]

@[simp] theorem channel_setLastRead_of_ne {d : UInt32} (hd : d ≠ header.channel_id_) :
    (c.setLastRead header event_size).channel d = c.channel d := by
  simp [channel, setLastRead, hd]

@[simp] theorem channel_releaseBody_self : (c.releaseBody id data left).channel id =
    { c.channel id with body := left } := by
  simp [channel, releaseBody]

@[simp] theorem channel_releaseBody_of_ne {d : UInt32} (hd : d ≠ id) :
    (c.releaseBody id data left).channel d = c.channel d := by
  simp [channel, releaseBody, hd]

/-- The chunk size after an event has been read. -/
def chunkSizeAfter (read_chunk_size : Nat) : EventBody → Nat
  | .chunkSize chunk_size => if kMaxChunkSize < chunk_size then read_chunk_size else chunk_size.toNat
  | _ => read_chunk_size

theorem setReadChunkSize_eq :
    c.setReadChunkSize body = { c with read_chunk_size_ := chunkSizeAfter c.read_chunk_size_ body } := by
  cases body with
  | chunkSize n =>
    rw [setReadChunkSize, chunkSizeAfter]
    split <;> rfl
  | _ => rfl

@[simp] theorem channel_setReadChunkSize (d : UInt32) : (c.setReadChunkSize body).channel d = c.channel d := by
  rw [setReadChunkSize_eq]
  rfl

end Channels

/-! ## A chunk on its channel -/

/-- A step of the reader over a frame with `load` bytes of a body on the channel `id`: the channel ends in
the state `s'`, the others are as they were, and the account of the memory follows the body. -/
structure TakesChunk (id : UInt32) (load : Nat) (r : Coder) (f : Frame UInt8 Event) (r' : Coder)
    (s' : ChannelState) : Prop where
  steps : Session.Steps decodeChunk r f r'
  channel : r'.channel id = s'
  others : ∀ d, d ≠ id → r'.channel d = r.channel d
  limit : r'.memory_limit_ = r.memory_limit_
  memory : r'.memory_used_ = r.memory_used_ + s'.body.length - (r.channel id).body.length
  chunk_size : r'.read_chunk_size_ = f.out.elim r.read_chunk_size_ fun e => chunkSizeAfter r.read_chunk_size_ e.body

/-- Every coder with this chunk size and this state of the channel takes the frame, when the limit leaves
room for its load. -/
def ChannelSteps (id : UInt32) (size load : Nat) (s : ChannelState) (f : Frame UInt8 Event)
    (s' : ChannelState) : Prop :=
  ∀ r : Coder, r.channel id = s → r.read_chunk_size_ = size → r.memory_used_ + load ≤ r.memory_limit_ →
    ∃ r', TakesChunk id load r f r' s'

/-- A coder after the data of a chunk and the header of a first one. -/
def noted (c : Coder) (header : Header) (event_size : UInt32) (data : Bytes) : Coder :=
  if (c.partial_bodies_ header.channel_id_).length = 0
  then (c.appendBody header.channel_id_ data).setLastRead header event_size
  else c.appendBody header.channel_id_ data

section Noted

variable (c : Coder) (header : Header) (event_size : UInt32) (data : Bytes)

theorem channel_noted_self : (c.noted header event_size data).channel header.channel_id_ =
    (c.channel header.channel_id_).noted header event_size data := by
  rw [noted, ChannelState.noted]
  by_cases h : (c.channel header.channel_id_).body.length = 0
  · rw [if_pos h]
    change (if (c.channel header.channel_id_).body.length = 0 then _ else _ : Coder).channel _ = _
    rw [if_pos h, channel_setLastRead_self, channel_appendBody_self]
  · rw [if_neg h]
    change (if (c.channel header.channel_id_).body.length = 0 then _ else _ : Coder).channel _ = _
    rw [if_neg h, channel_appendBody_self]

theorem channel_noted_of_ne {d : UInt32} (hd : d ≠ header.channel_id_) :
    (c.noted header event_size data).channel d = c.channel d := by
  rw [noted]
  split
  · rw [channel_setLastRead_of_ne _ _ _ hd, channel_appendBody_of_ne _ _ _ hd]
  · rw [channel_appendBody_of_ne _ _ _ hd]

theorem noted_memory : (c.noted header event_size data).memory_used_ = c.memory_used_ + data.length := by
  rw [noted]
  split <;> rfl

theorem noted_limit : (c.noted header event_size data).memory_limit_ = c.memory_limit_ := by
  rw [noted]
  split <;> rfl

theorem noted_chunk_size : (c.noted header event_size data).read_chunk_size_ = c.read_chunk_size_ := by
  rw [noted]
  split <;> rfl

@[simp] theorem noted_body (s : ChannelState) : (s.noted header event_size data).body = s.body ++ data := by
  rw [ChannelState.noted]
  split <;> rfl

theorem noted_bodies : (c.noted header event_size data).partial_bodies_ header.channel_id_ =
    c.partial_bodies_ header.channel_id_ ++ data := by
  have h := congrArg ChannelState.body (channel_noted_self c header event_size data)
  rwa [noted_body] at h

end Noted

variable {c : Coder} {header : Header} {event_size : UInt32} {sent data rest input : Bytes}

/-- A chunk with which the body is not complete yet. -/
theorem takeChunk_more (hsent : c.partial_bodies_ header.channel_id_ = sent)
    (hmem : c.memory_used_ + data.length ≤ c.memory_limit_)
    (hmore : (sent ++ data).length < event_size.toNat) :
    c.takeChunk header event_size data rest input = .out none (c.noted header event_size data) rest := by
  subst hsent
  have hlimit : ¬ (c.appendBody header.channel_id_ data).memory_limit_ <
      (c.appendBody header.channel_id_ data).memory_used_ := Int.not_lt.2 hmem
  rw [takeChunk, if_neg hlimit]
  change (if ((c.noted header event_size data).partial_bodies_ header.channel_id_).length < _ then _ else _) = _
  rw [noted_bodies, if_pos hmore]
  rfl

/-- The last chunk of a body. -/
theorem takeChunk_last {body : {body : EventBody // body.eventType = header.event_type_}} {left : Bytes}
    (hsent : c.partial_bodies_ header.channel_id_ = sent)
    (hmem : c.memory_used_ + data.length ≤ c.memory_limit_)
    (hlast : ¬ (sent ++ data).length < event_size.toNat)
    (hbody : decodeBody header.event_type_ (sent ++ data) = (.ok body, left)) :
    c.takeChunk header event_size data rest input =
      .out (some ⟨header, body.1, body.2.symm⟩)
        (((c.noted header event_size data).releaseBody header.channel_id_
          (sent ++ data) []).setReadChunkSize body.1) rest := by
  subst hsent
  have hlimit : ¬ (c.appendBody header.channel_id_ data).memory_limit_ <
      (c.appendBody header.channel_id_ data).memory_used_ := Int.not_lt.2 hmem
  rw [takeChunk, if_neg hlimit]
  change (if ((c.noted header event_size data).partial_bodies_ header.channel_id_).length < _ then _ else
    (c.noted header event_size data).composeEvent header
      ((c.noted header event_size data).partial_bodies_ header.channel_id_) rest) = _
  rw [noted_bodies, if_neg hlast, composeEvent, hbody]

/-! ## A frame in the input -/

/-- The chunk with this header and this part of a body, as the reader sees it: it looks for the longest
form of the header before it reads any of it. -/
def chunkFrame (header_type : HeaderType) (b : UInt8) (fields payload : Bytes) (out : Option Event) :
    Frame UInt8 Event where
  bytes := b :: fields ++ payload
  wants := max (header_type.length + 5) (b :: fields ++ payload).length
  out := out
  pos := Nat.zero_lt_succ _
  le_wants := Nat.le_max_right _ _

theorem decodeChunk_short {b : Bytes} (h : (Header.decode c b).1 = .error (.status .noData)) :
    c.decodeChunk b = .more c b := by
  have hb : Header.decode c b = (.error (.status .noData), (Header.decode c b).2) := by rw [← h]
  rw [decodeChunk, hb]

theorem decodeChunk_header {b : Bytes} {n : Nat} (h : Header.decode c b = (.ok (header, event_size), rest))
    (hread : c.toRead event_size (c.partial_bodies_ header.channel_id_).length = n) :
    c.decodeChunk b =
      if rest.length < n then .more c b
      else c.takeChunk header event_size (rest.take n) (rest.drop n) b := by
  rw [decodeChunk, h]
  dsimp only
  rw [hread, if_neg (Int.not_lt.2 (Int.natCast_nonneg n)), Int.toNat_natCast]
  by_cases hlt : rest.length < n
  · rw [if_pos hlt, if_pos (Int.ofNat_lt.2 hlt)]
  · rw [if_neg hlt, if_neg (fun hbad => hlt (Int.ofNat_lt.1 hbad))]

/-- A chunk is taken from the input as soon as it is there, and the reader has been able to look for an
extended timestamp. -/
theorem decodeChunk_steps {c' : Coder} {h : Header} {header_type : HeaderType} {ts size : UInt32}
    {payload : Bytes} {out : Option Event} (hch : Header.IsChannel h.channel_id_)
    (hknown : header_type ≠ .headerNew →
      (c.last_read_event_header_ h.channel_id_).channel_id_ ≠ kInvalidChannelId)
    (hsize : size.toNat < 2 ^ 24)
    (hback : h.readBack header_type ts size (c.last_read_event_header_ h.channel_id_)
      (c.last_read_event_size_ h.channel_id_) = (header, event_size))
    (hread : c.toRead event_size (c.partial_bodies_ header.channel_id_).length = payload.length)
    (htake : ∀ rest input, c.takeChunk header event_size payload rest input = .out out c' rest) :
    Session.Steps decodeChunk c
      (chunkFrame header_type (Header.headerByte header_type h.channel_id_)
        (h.writeFields header_type ts size
          (Header.extendedFor header_type ts (c.last_read_event_header_ h.channel_id_).timestamp_ms_))
        payload out) c' := by
  intro b hb
  have hgets := readFields_gets h (c.last_read_event_header_ h.channel_id_) header_type ts
    (c.last_read_event_size_ h.channel_id_) hsize
  have hlen := writeFields_length h header_type ts size
    (extendedFor header_type ts (c.last_read_event_header_ h.channel_id_).timestamp_ms_)
  generalize h.writeFields header_type ts size
    (extendedFor header_type ts (c.last_read_event_header_ h.channel_id_).timestamp_ms_) = fields
    at hgets hlen hb ⊢
  rw [hback] at hgets
  have hfields : fields.length ≤ header_type.length + 4 := by
    rw [hlen]
    split <;> omega
  cases b with
  | nil =>
    have hwants : ([] : Bytes).length <
        (chunkFrame header_type (headerByte header_type h.channel_id_) fields payload out).wants :=
      Nat.lt_of_lt_of_le (Frame.pos _) (Frame.le_wants _)
    rw [if_pos hwants]
    exact decodeChunk_short (decode_nil c)
  | cons x b =>
    have hx : x = headerByte header_type h.channel_id_ := by
      rcases hb with hb | hb
      · exact (cons_prefix_cons.1 hb).1
      · exact (cons_prefix_cons.1 hb).1.symm
    subst hx
    have hdecode := decode_cons hch hknown b
    by_cases hlt : b.length < header_type.length + 4
    · -- The header is not read yet.
      rw [if_pos hlt] at hdecode
      have hwants : (headerByte header_type h.channel_id_ :: b).length <
          (chunkFrame header_type (headerByte header_type h.channel_id_) fields payload out).wants :=
        Nat.lt_of_lt_of_le (Nat.succ_lt_succ hlt) (Nat.le_max_left _ _)
      rw [if_pos hwants, decodeChunk_short (by rw [hdecode])]
    · -- The header is there, and the buffer goes on behind it.
      have hfront : fields <+: b := by
        have hcompat : b <+: fields ++ payload ∨ fields ++ payload <+: b := by
          rcases hb with hb | hb
          · exact Or.inl (cons_prefix_cons.1 hb).2
          · exact Or.inr (cons_prefix_cons.1 hb).2
        rcases hcompat with hp | hp
        · exact prefix_of_prefix_length_le (prefix_append _ _) hp
            (Nat.le_trans hfields (Nat.le_of_not_lt hlt))
        · exact (prefix_append _ _).trans hp
      rcases hfront with ⟨rest, rfl⟩
      rw [if_neg hlt, hgets rest] at hdecode
      rw [decodeChunk_header hdecode hread]
      have hlong : header_type.length + 5 ≤
          (headerByte header_type h.channel_id_ :: (fields ++ rest)).length :=
        Nat.succ_le_succ (Nat.le_of_not_lt hlt)
      have hiff : (headerByte header_type h.channel_id_ :: (fields ++ rest)).length <
          (chunkFrame header_type (headerByte header_type h.channel_id_) fields payload out).wants ↔
          rest.length < payload.length := by
        change _ < max _ (_ :: fields ++ payload).length ↔ _
        rw [lt_max_iff, cons_append, length_cons, length_cons, length_append,
          length_append]
        rw [length_cons, length_append] at hlong
        omega
      by_cases hpay : rest.length < payload.length
      · rw [if_pos hpay, if_pos (hiff.2 hpay)]
      · -- All of the chunk is there.
        rw [if_neg hpay, if_neg (fun hbad => hpay (hiff.1 hbad))]
        have hpre : payload <+: rest := by
          rw [chunkFrame] at hb
          dsimp only at hb
          rw [cons_append, cons_prefix_cons, cons_prefix_cons,
            prefix_append_right_inj, prefix_append_right_inj] at hb
          rcases hb with hb | hb
          · exact prefix_of_prefix_length_le prefix_rfl hb.2 (Nat.le_of_not_lt hpay)
          · exact hb.2
        rcases hpre with ⟨behind, rfl⟩
        rw [take_left, drop_left, htake]
        have hdrop : (headerByte header_type h.channel_id_ ::
            (fields ++ (payload ++ behind))).drop
            (headerByte header_type h.channel_id_ :: fields ++ payload).length = behind := by
          rw [← append_assoc, cons_append, length_cons, drop_succ_cons, drop_left]
        exact congrArg _ hdrop.symm

end Coder

/-! ## The header of a chunk -/

/-- The writer and the reader remember the same of a channel; an unknown stream id stands for a channel
that has not been used yet. -/
structure ChannelSync (last : Header) (last_size : UInt32) (s : ChannelState) : Prop where
  channel : s.header.channel_id_ = last.channel_id_
  stream : s.header.stream_id_ = last.stream_id_
  type : s.header.event_type_ = last.event_type_
  timestamp : s.header.timestamp_ms_ = last.timestamp_ms_
  known : last.stream_id_ ≠ kInvalidStreamId → last.channel_id_ ≠ kInvalidChannelId ∧ s.size = last_size

/-- The header that is read from the first chunk of an event: only a header that continues the last one on
its channel says that the timestamp is relative. -/
def firstReceived (last h : Header) : Header :=
  { h with is_timestamp_relative_ := h.is_timestamp_relative_ && h.stream_id_ == last.stream_id_ }

/-- The header that is read from the other chunks of an event. An absolute timestamp that is extended is
written as the difference from itself. -/
def laterReceived (h : Header) : Header :=
  { h with
    timestamp_ms_ := if 0xffffff ≤ h.timestamp_ms_ ∧ !h.is_timestamp_relative_ then 0 else h.timestamp_ms_
    is_timestamp_relative_ := true }

/-- What `Header::Encode` writes for a chunk, in a form that the reader understands. -/
structure HeaderSent (h : Header) (size : UInt32) (s : ChannelState) (bytes : Option Bytes)
    (header_type : HeaderType) (ts : UInt32) (received : Header × UInt32) : Prop where
  bytes_eq : bytes = some (Header.headerByte header_type h.channel_id_ ::
    h.writeFields header_type ts size (Header.extendedFor header_type ts s.header.timestamp_ms_))
  extended : Header.extendedFor header_type ts s.header.timestamp_ms_ = decide (0xffffff ≤ h.timestamp_ms_)
  known : header_type ≠ .headerNew → s.header.channel_id_ ≠ kInvalidChannelId
  readBack_eq : h.readBack header_type ts size s.header s.size = received

section Headers

variable {w : Coder} {h : Header} {s : ChannelState} {size : UInt32}

theorem isChannel_not_le (hch : Header.IsChannel h.channel_id_) : ¬ kMaxNumChannels ≤ h.channel_id_ :=
  UInt32.not_le.2 hch.2

theorem isChannel_ne_invalid (hch : Header.IsChannel h.channel_id_) : h.channel_id_ ≠ kInvalidChannelId := by
  intro heq
  have hlt := hch.2
  rw [heq] at hlt
  exact absurd hlt (by decide)

/-- What the choice of a header type says about the header. -/
theorem headerType_spec (h last : Header) (size last_size : UInt32) :
    (h.headerType last size last_size false ≠ .headerNew ↔
        h.is_timestamp_relative_ = true ∧ h.stream_id_ = last.stream_id_) ∧
      (h.headerType last size last_size false = .headerTimerChange ∨
          h.headerType last size last_size false = .headerContinue →
        size = last_size ∧ h.event_type_ = last.event_type_) ∧
      (h.headerType last size last_size false = .headerContinue → h.timestamp_ms_ = last.timestamp_ms_) := by
  rw [headerType, if_neg Bool.false_ne_true]
  by_cases hrel : h.is_timestamp_relative_ = true ∧ h.stream_id_ = last.stream_id_
  · rw [if_pos hrel]
    by_cases hfull : size = last_size ∧ h.event_type_ = last.event_type_
    · rw [if_pos hfull]
      by_cases hts : h.timestamp_ms_ = last.timestamp_ms_
      · rw [if_pos hts]
        exact ⟨⟨fun _ => hrel, fun _ => by decide⟩, fun _ => hfull, fun _ => hts⟩
      · rw [if_neg hts]
        exact ⟨⟨fun _ => hrel, fun _ => by decide⟩, fun _ => hfull, fun hbad => absurd hbad (by decide)⟩
    · rw [if_neg hfull]
      exact ⟨⟨fun _ => hrel, fun _ => by decide⟩, fun hbad => absurd hbad (by decide),
        fun hbad => absurd hbad (by decide)⟩
  · rw [if_neg hrel]
    exact ⟨⟨fun hbad => absurd rfl hbad, fun hbad => absurd hbad hrel⟩,
      fun hbad => absurd hbad (by decide), fun hbad => absurd hbad (by decide)⟩

/-- The first header of an event. -/
theorem encode_first (hch : Header.IsChannel h.channel_id_) (hstream : h.stream_id_ ≠ kInvalidStreamId)
    (hsync : ChannelSync (w.last_write_event_header_ h.channel_id_)
      (w.last_write_event_size_ h.channel_id_) s) :
    HeaderSent h size s (h.encode w size false)
      (h.headerType (w.last_write_event_header_ h.channel_id_) size
        (w.last_write_event_size_ h.channel_id_) false)
      h.timestamp_ms_ (firstReceived (w.last_write_event_header_ h.channel_id_) h, size) := by
  obtain ⟨hnew, hfull, hsame⟩ := headerType_spec h (w.last_write_event_header_ h.channel_id_) size
    (w.last_write_event_size_ h.channel_id_)
  rw [encode, if_neg (isChannel_not_le hch)]
  dsimp only
  rw [writeChannelId_eq hch]
  generalize h.headerType (w.last_write_event_header_ h.channel_id_) size
    (w.last_write_event_size_ h.channel_id_) false = ht at hnew hfull hsame ⊢
  generalize w.last_write_event_header_ h.channel_id_ = last at hsync hnew hfull hsame ⊢
  generalize w.last_write_event_size_ h.channel_id_ = last_size at hsync hfull ⊢
  -- A header that refers to the last one has been preceded by one on its channel.
  have hrefers : ht ≠ .headerNew → h.is_timestamp_relative_ = true ∧ h.stream_id_ = last.stream_id_ ∧
      last.channel_id_ ≠ kInvalidChannelId ∧ s.size = last_size := by
    intro ht
    obtain ⟨hrel, hst⟩ := hnew.1 ht
    obtain ⟨hvalid, hsize⟩ := hsync.known (hst ▸ hstream)
    exact ⟨hrel, hst, hvalid, hsize⟩
  have hcheck : ¬ (ht ≠ .headerNew ∧ (!h.is_timestamp_relative_) = true ∧
      last.channel_id_ = kInvalidChannelId) := fun hbad => (hrefers hbad.1).2.2.1 hbad.2.2
  have hts : h.ts32 last ht = h.timestamp_ms_ := by
    have hno : ¬ (ht ≠ .headerNew ∧ (!h.is_timestamp_relative_) = true) := by
      intro hbad
      rw [(hrefers hbad.1).1] at hbad
      exact absurd hbad.2 (by decide)
    rw [ts32, if_neg hno]
  have hext : h.isExtendedTs last ht = decide (0xffffff ≤ h.timestamp_ms_) := by
    rw [isExtendedTs, hts]
    split
    · rename_i hcont
      rw [hsame hcont]
    · rfl
  have hextFor : extendedFor ht h.timestamp_ms_ s.header.timestamp_ms_ =
      decide (0xffffff ≤ h.timestamp_ms_) := by
    rw [extendedFor, hsync.timestamp]
    split
    · rename_i hcont
      rw [hsame hcont]
    · rfl
  rw [if_neg hcheck, hts, hext]
  refine ⟨?_, hextFor, ?_, ?_⟩
  · rw [hextFor]
    rfl
  · intro hne
    rw [hsync.channel]
    exact (hrefers hne).2.2.1
  · -- One level of detail after the other.
    have hflag : ht ≠ .headerNew → firstReceived last h = { h with is_timestamp_relative_ := true } := by
      intro hne
      obtain ⟨hrel, hst, -, -⟩ := hrefers hne
      rw [firstReceived, hrel, hst, beq_self_eq_true]
      rfl
    cases ht with
    | headerNew =>
      have hno : (h.is_timestamp_relative_ && h.stream_id_ == last.stream_id_) = false := by
        rw [Bool.eq_false_iff]
        intro hbad
        rw [Bool.and_eq_true, beq_iff_eq] at hbad
        exact (hnew.2 hbad) rfl
      rw [firstReceived, hno]
      rfl
    | headerSameSource =>
      obtain ⟨-, hst, -, -⟩ := hrefers (by decide)
      rw [hflag (by decide), readBack, hsync.stream, ← hst]
    | headerTimerChange =>
      obtain ⟨-, hst, -, hsize⟩ := hrefers (by decide)
      obtain ⟨hsz, hty⟩ := hfull (Or.inl rfl)
      rw [hflag (by decide), readBack, hsync.stream, hsync.type, ← hst, ← hty, hsize, hsz]
    | headerContinue =>
      obtain ⟨-, hst, -, hsize⟩ := hrefers (by decide)
      obtain ⟨hsz, hty⟩ := hfull (Or.inr rfl)
      rw [hflag (by decide), readBack, hsync.stream, hsync.type, hsync.timestamp, ← hst, ← hty,
        ← hsame rfl, ite_self, hsize, hsz]

/-- The header of another chunk of the event that the channel has been used for last. -/
theorem encode_later (hch : Header.IsChannel h.channel_id_)
    (hlast : w.last_write_event_header_ h.channel_id_ = h) {last_size : UInt32}
    (hsync : ChannelSync h last_size s) :
    HeaderSent h size s (h.encode w size true) .headerContinue
      (if h.is_timestamp_relative_ then h.timestamp_ms_ else 0) (laterReceived h, s.size) := by
  have hextFor : extendedFor .headerContinue (if h.is_timestamp_relative_ then h.timestamp_ms_ else 0)
      s.header.timestamp_ms_ = decide (0xffffff ≤ h.timestamp_ms_) := by
    rw [extendedFor, if_pos rfl, hsync.timestamp]
  have hts : h.ts32 h .headerContinue = if h.is_timestamp_relative_ then h.timestamp_ms_ else 0 := by
    rw [ts32]
    cases h.is_timestamp_relative_ with
    | true => rfl
    | false =>
      rw [if_pos ⟨by decide, rfl⟩, if_neg (UInt32.lt_irrefl _)]
      rfl
  have hext : h.isExtendedTs h .headerContinue = decide (0xffffff ≤ h.timestamp_ms_) := if_pos rfl
  have htype : h.headerType h size (w.last_write_event_size_ h.channel_id_) true = .headerContinue := if_pos rfl
  have hcheck : ¬ (HeaderType.headerContinue ≠ .headerNew ∧ (!h.is_timestamp_relative_) = true ∧
      h.channel_id_ = kInvalidChannelId) := fun hbad => isChannel_ne_invalid hch hbad.2.2
  rw [encode, if_neg (isChannel_not_le hch)]
  dsimp only
  rw [writeChannelId_eq hch, hlast, htype, if_neg hcheck, hts, hext]
  refine ⟨?_, hextFor, ?_, ?_⟩
  · rw [hextFor]
    rfl
  · intro _
    rw [hsync.channel]
    exact isChannel_ne_invalid hch
  · rw [readBack, hsync.stream, hsync.type, hsync.timestamp, laterReceived]
    by_cases hle : (0xffffff : UInt32) ≤ h.timestamp_ms_
    · rw [if_pos hle]
      cases hrel : h.is_timestamp_relative_ with
      | true => rw [if_pos rfl, if_neg (fun hbad => absurd hbad.2 (by decide))]
      | false =>
        rw [if_neg Bool.false_ne_true, if_pos ⟨hle, rfl⟩]
    · rw [if_neg hle, if_neg (fun hbad => hle hbad.1)]

end Headers

end Whispercast.Rtmp
