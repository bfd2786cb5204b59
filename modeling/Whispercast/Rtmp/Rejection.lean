import Whispercast.Rtmp.Interleave

/-!
# Rejected bodies

When `DecodeBody` refuses a complete body, `Decode` returns its error and keeps what is left of the body as the
beginning of the next body on the channel, while all of the body has been taken off the account of the memory. The
channel is clean again when nothing is left.
-/

namespace Whispercast.Rtmp

open Library Io Amf Reader

namespace Coder

/-! ## The body that is decoded -/

/-- What a chunk makes of a coder when a body is complete with it: the coder that has taken the data, the header and
the rest of the input. -/
def completeChunk (c : Coder) (input : Bytes) : Option (Coder × Header × Bytes) :=
  match Header.decode c input with
  | (.ok (header, event_size), rest) =>
    let to_read := c.toRead event_size (c.partial_bodies_ header.channel_id_).length
    let filled := c.noted header event_size (rest.take to_read.toNat)
    if 0 ≤ to_read ∧ to_read ≤ rest.length ∧ filled.memory_used_ ≤ filled.memory_limit_ ∧
        event_size.toNat ≤ (filled.partial_bodies_ header.channel_id_).length then
      some (filled, header, rest.drop to_read.toNat)
    else none
  | (.error _, _) => none

/-- The loop of `Decode` up to the body that it decodes. -/
def completeLoop : Nat → Coder → Bytes → Option (Coder × Header × Bytes)
  | 0, _, _ => none
  | n + 1, c, input =>
    match c.completeChunk input with
    | some complete => some complete
    | none =>
      match c.decodeChunk input with
      | .out none c' rest => completeLoop n c' rest
      | _ => none

/-- The coder, the header and the rest of the input with which `Decode` decodes a body, if it comes to that. -/
def complete (c : Coder) (input : Bytes) : Option (Coder × Header × Bytes) :=
  completeLoop (input.length + 1) c input

/-- A complete body is put aside: what a good event in its place would leave. -/
def discard (c : Coder) (header : Header) : Coder :=
  c.releaseBody header.channel_id_ (c.partial_bodies_ header.channel_id_) []

/-- How much more is on the account of the memory than there is in the partial bodies. -/
def surplus (c : Coder) : Int := c.memory_used_ - total c.held

theorem accounted_iff (c : Coder) : c.Accounted ↔ c.surplus = 0 := by
  unfold Accounted surplus
  omega

/-- How much is left of a body that is rejected. -/
def lost : Option (Coder × Header × Bytes) → Nat
  | some (filled, header, _) =>
    match decodeBody header.event_type_ (filled.partial_bodies_ header.channel_id_) with
    | (.error _, left) => left.length
    | (.ok _, _) => 0
  | none => 0

/-- A coder behind calls of `Decode`, how much rejected bodies have left in it, and whether a call has returned
`READ_OOM`. -/
structure Calls where
  coder : Coder
  left : Nat
  oom : Bool

def Calls.decode (s : Calls) (input : Bytes) : Calls :=
  let r := (s.coder.decode input).ends
  ⟨r.1, s.left + lost (s.coder.complete input), s.oom || r.2 = some (.status .oom)⟩

/-- The account, when `n` bytes of rejected bodies are left: it stays within the limit, or `oom`. -/
structure Keeps (c c' : Coder) (oom : Prop) (n : Nat) : Prop where
  limit : c'.memory_limit_ = c.memory_limit_
  surplus : c'.surplus = c.surplus - n
  room : c.memory_used_ ≤ c.memory_limit_ → c'.memory_used_ ≤ c.memory_limit_ ∨ oom

/-- What a call makes of the account. -/
abbrev KeepsCall (c : Coder) (r : Coder × Option (Stop ReadStatus)) : Nat → Prop :=
  Keeps c r.1 (r.2 = some (.status .oom))

section Chunks

variable {c c' c'' filled : Coder} {input rest : Bytes} {header : Header} {event_size : UInt32} {p q : Prop} {m n : Nat}

theorem Keeps.refl : Keeps c c p 0 := ⟨rfl, (Int.sub_zero _).symm, .inl⟩

theorem Keeps.trans (h : Keeps c c' p m) (h' : Keeps c' c'' q n) : Keeps c c'' (p ∨ q) (m + n) where
  limit := h'.limit.trans h.limit
  surplus := by
    rw [h'.surplus, h.surplus]
    omega
  room hroom := by
    rcases h.room hroom with hin | hp
    · exact h.limit ▸ (h'.room (h.limit.symm ▸ hin)).imp_right .inr
    · exact .inr (.inl hp)

/-- The fields leave the channel as it is. -/
theorem channel_of_readFields {header_type : HeaderType} {channel_id : UInt32} {last : Header} {last_size : UInt32}
    (h : Header.readFields header_type channel_id last last_size input = (.ok (header, event_size), rest)) :
    header.channel_id_ = channel_id := by
  cases header_type with
  | headerNew =>
    obtain ⟨_, _, -, h⟩ := bind_eq_ok h
    obtain ⟨_, _, -, h⟩ := bind_eq_ok h
    obtain ⟨_, _, -, h⟩ := bind_eq_ok h
    obtain ⟨_, _, -, h⟩ := bind_eq_ok h
    obtain ⟨_, _, -, h⟩ := bind_eq_ok h
    cases h
    rfl
  | headerSameSource =>
    obtain ⟨_, _, -, h⟩ := bind_eq_ok h
    obtain ⟨_, _, -, h⟩ := bind_eq_ok h
    obtain ⟨_, _, -, h⟩ := bind_eq_ok h
    obtain ⟨_, _, -, h⟩ := bind_eq_ok h
    cases h
    rfl
  | headerTimerChange =>
    obtain ⟨_, _, -, h⟩ := bind_eq_ok h
    obtain ⟨_, _, -, h⟩ := bind_eq_ok h
    cases h
    rfl
  | headerContinue =>
    obtain ⟨_, _, -, h⟩ := bind_eq_ok h
    cases h
    rfl

/-- A header is of one of the channels. -/
theorem channel_of_decode (h : Header.decode c input = (.ok (header, event_size), rest)) :
    header.channel_id_ < kMaxNumChannels := by
  obtain ⟨_, _, -, h⟩ := bind_eq_ok h
  obtain ⟨_, _, -, h⟩ := bind_eq_ok h
  obtain ⟨_, _, -, h⟩ := bind_eq_ok h
  split_ifs at h with htoo
  · cases h
  · obtain ⟨_, _, -, h⟩ := bind_eq_ok h
    cases h
  · obtain ⟨_, _, -, h⟩ := bind_eq_ok h
    rw [channel_of_readFields h]
    exact UInt32.not_le.1 htoo

theorem held_noted (data : Bytes) : (c.noted header event_size data).held =
    Function.update c.held header.channel_id_ (c.held header.channel_id_ + data.length) := by
  funext id
  by_cases hid : id = header.channel_id_
  · subst hid
    rw [Function.update_self, held, channel_noted_self, ChannelState.noted]
    split <;> simp [held]
  · rw [Function.update_of_ne hid, held, channel_noted_of_ne _ _ _ _ hid]
    rfl

/-- The data of a chunk goes into a partial body and onto the account. -/
theorem surplus_noted (hid : header.channel_id_ < kMaxNumChannels) (data : Bytes) :
    (c.noted header event_size data).surplus = c.surplus := by
  have htotal := total_update hid c.held (c.held header.channel_id_ + data.length)
  rw [surplus, surplus, held_noted, noted_memory]
  omega

theorem takeChunk_eq (data : Bytes) (hroom : (c.noted header event_size data).memory_used_ ≤
      (c.noted header event_size data).memory_limit_) :
    c.takeChunk header event_size data rest input =
      if ((c.noted header event_size data).partial_bodies_ header.channel_id_).length < event_size.toNat then
        .out none (c.noted header event_size data) rest
      else (c.noted header event_size data).composeEvent header
        ((c.noted header event_size data).partial_bodies_ header.channel_id_) rest := by
  rw [noted_memory, noted_limit] at hroom
  have hlimit : ¬ (c.appendBody header.channel_id_ data).memory_limit_ <
      (c.appendBody header.channel_id_ data).memory_used_ := Int.not_lt.2 hroom
  rw [takeChunk, if_neg hlimit]
  rfl

/-- A body that is complete is decoded. -/
theorem decodeChunk_of_complete (h : c.completeChunk input = some (filled, header, rest)) :
    c.decodeChunk input = filled.composeEvent header (filled.partial_bodies_ header.channel_id_) rest ∧
      filled.surplus = c.surplus ∧ header.channel_id_ < kMaxNumChannels := by
  unfold completeChunk at h
  split at h
  · rename_i header' event_size' rest' hdecode
    dsimp only at h
    split_ifs at h with hgood
    obtain ⟨hpos, hthere, hroom, hsize⟩ := hgood
    obtain ⟨rfl, rfl, rfl⟩ : _ ∧ _ ∧ _ := by simpa using h
    refine ⟨?_, surplus_noted (channel_of_decode hdecode) _, channel_of_decode hdecode⟩
    rw [decodeChunk, hdecode]
    dsimp only
    rw [if_neg (Int.not_lt.2 hpos), if_neg (Int.not_lt.2 hthere), takeChunk_eq _ hroom, if_neg (Nat.not_lt.2 hsize)]
  · cases h

theorem composeEvent_ne_none (header : Header) (event_body rest : Bytes) (c' : Coder) (rest' : Bytes) :
    c.composeEvent header event_body rest ≠ .out none c' rest' := by
  unfold composeEvent
  split <;> simp

/-- `READ_NO_DATA` from the decoder of a body asks for more like any other. -/
theorem composeEvent_of_error {event_body left : Bytes} {e : Stop ReadStatus}
    (h : decodeBody header.event_type_ event_body = (.error e, left)) :
    c.composeEvent header event_body rest =
      if e = .status .noData then .more (c.releaseBody header.channel_id_ event_body left) rest
      else .fail e (c.releaseBody header.channel_id_ event_body left) rest := by
  unfold composeEvent
  rw [h]
  split_ifs with he
  · rw [he]
  · split
    · rename_i heq
      cases heq
    · rename_i heq
      cases heq
      exact absurd rfl he
    · rename_i heq
      cases heq
      rfl

theorem decodeChunk_ne_none {complete : Coder × Header × Bytes} (h : c.completeChunk input = some complete) (c' : Coder)
    (rest : Bytes) : c.decodeChunk input ≠ .out none c' rest := by
  rw [(decodeChunk_of_complete h).1]
  exact composeEvent_ne_none _ _ _ _ _

/-- A chunk that does not complete a body. -/
theorem keeps_incomplete (h : c.completeChunk input = none) : KeepsCall c (c.decodeChunk input).ends 0 := by
  unfold completeChunk at h
  unfold decodeChunk
  split
  · exact .refl
  · exact .refl
  · rename_i header event_size rest hdecode
    rw [hdecode] at h
    dsimp only at h ⊢
    have hid := channel_of_decode hdecode
    generalize rest.take _ = data at h ⊢
    split_ifs
    · exact .refl
    · exact .refl
    · by_cases hroom : (c.noted header event_size data).memory_used_ ≤ (c.noted header event_size data).memory_limit_
      · rw [takeChunk_eq _ hroom, if_pos (by grind)]
        rw [noted_limit] at hroom
        exact ⟨noted_limit .., (surplus_noted hid data).trans (Int.sub_zero _).symm, fun _ => .inl hroom⟩
      · rw [noted_memory, noted_limit] at hroom
        rw [takeChunk, if_pos (by exact Int.not_le.1 hroom)]
        refine ⟨rfl, ?_, fun _ => .inr rfl⟩
        have hnoted := @surplus_noted c header event_size hid data
        rw [noted] at hnoted
        split at hnoted <;> exact hnoted.trans (Int.sub_zero _).symm

theorem surplus_of_chunk (h : c.decodeChunk input = .out none c' rest) : c'.surplus = c.surplus := by
  cases hcomplete : c.completeChunk input with
  | some complete => exact absurd h (decodeChunk_ne_none hcomplete _ _)
  | none =>
    have hkeeps := keeps_incomplete hcomplete
    rw [h] at hkeeps
    exact hkeeps.surplus.trans (Int.sub_zero _)

/-- Where the loop comes to a body, it ends with what becomes of the body. -/
theorem untilOut_of_complete {n : Nat} (h : completeLoop n c input = some (filled, header, rest)) :
    (∀ e left, decodeBody header.event_type_ (filled.partial_bodies_ header.channel_id_) = (.error e, left) →
      Session.untilOut decodeChunk n c input =
        if e = .status .noData then
          .more (filled.releaseBody header.channel_id_ (filled.partial_bodies_ header.channel_id_) left) rest
        else
          .fail e (filled.releaseBody header.channel_id_ (filled.partial_bodies_ header.channel_id_) left) rest) ∧
      filled.surplus = c.surplus ∧ header.channel_id_ < kMaxNumChannels := by
  induction n generalizing c input with
  | zero => cases h
  | succ n ih =>
    rw [completeLoop] at h
    split at h
    · rename_i complete hcomplete
      obtain rfl := Option.some.inj h
      obtain ⟨hdecode, hsurplus, hid⟩ := decodeChunk_of_complete hcomplete
      refine ⟨fun e left hreject => ?_, hsurplus, hid⟩
      rw [Session.untilOut, hdecode, composeEvent_of_error hreject]
      split_ifs <;> rfl
    · split at h
      · rename_i c' rest' hchunk
        obtain ⟨hloop, hsurplus, hid⟩ := ih h
        refine ⟨fun e left hreject => ?_, hsurplus.trans (surplus_of_chunk hchunk), hid⟩
        rw [Session.untilOut, hchunk]
        exact hloop e left hreject
      · cases h

/-- What is left of a rejected body stays in the channel, and nothing of it on the account. -/
theorem held_releaseBody (left : Bytes) :
    (filled.releaseBody header.channel_id_ (filled.partial_bodies_ header.channel_id_) left).held =
      Function.update filled.held header.channel_id_ left.length := by
  funext id
  by_cases hid : id = header.channel_id_
  · subst hid
    rw [Function.update_self, held, channel_releaseBody_self]
  · rw [Function.update_of_ne hid, held, channel_releaseBody_of_ne _ _ _ _ hid]
    rfl

theorem surplus_releaseBody (hid : header.channel_id_ < kMaxNumChannels) (left : Bytes) :
    (filled.releaseBody header.channel_id_ (filled.partial_bodies_ header.channel_id_) left).surplus =
      filled.surplus - left.length := by
  have htotal := total_update hid filled.held left.length
  have hheld : filled.held header.channel_id_ = (filled.partial_bodies_ header.channel_id_).length := rfl
  rw [surplus, surplus, held_releaseBody]
  show filled.memory_used_ - _ - _ = _
  omega

/-- A body that is decoded is off the account, and what is left of a rejected one is not on it. -/
theorem keeps_complete (h : c.completeChunk input = some (filled, header, rest)) :
    KeepsCall c (c.decodeChunk input).ends (lost (some (filled, header, rest))) := by
  obtain ⟨hchunk, hsurplus, hid⟩ := decodeChunk_of_complete h
  obtain ⟨hlimit, hroom⟩ : filled.memory_limit_ = c.memory_limit_ ∧ filled.memory_used_ ≤ filled.memory_limit_ := by
    unfold completeChunk at h
    grind [noted_limit]
  have hkeeps : ∀ left size p, Keeps c { filled.releaseBody header.channel_id_
      (filled.partial_bodies_ header.channel_id_) left with read_chunk_size_ := size } p left.length := by
    intro left size p
    refine ⟨hlimit, (surplus_releaseBody hid left).trans (by rw [hsurplus]), fun _ => .inl ?_⟩
    show filled.memory_used_ - _ ≤ _
    omega
  rw [hchunk, lost]
  cases hdecode : decodeBody header.event_type_ (filled.partial_bodies_ header.channel_id_) with
  | mk result left =>
    cases result with
    | ok body =>
      rw [composeEvent, hdecode]
      show Keeps c (Coder.setReadChunkSize _ _) _ 0
      rw [setReadChunkSize_eq]
      exact hkeeps [] _ _
    | error e =>
      rw [composeEvent_of_error hdecode]
      split_ifs <;> exact hkeeps left filled.read_chunk_size_ _

theorem keeps_untilOut (n : Nat) :
    KeepsCall c (Session.untilOut decodeChunk n c input).ends (lost (completeLoop n c input)) := by
  induction n generalizing c input with
  | zero => exact .refl
  | succ n ih =>
    rw [completeLoop]
    cases hcomplete : c.completeChunk input with
    | some complete =>
      rw [Session.untilOut_of_ne (decodeChunk_ne_none hcomplete)]
      exact keeps_complete hcomplete
    | none =>
      have hkeeps := keeps_incomplete hcomplete
      dsimp only
      split
      · rename_i c' rest hchunk
        rw [hchunk] at hkeeps
        rw [Session.untilOut, hchunk]
        have hnow : Keeps c c' False 0 := ⟨hkeeps.limit, hkeeps.surplus, fun h =>
          (hkeeps.room h).imp_right (Option.some_ne_none _).symm⟩
        simpa [KeepsCall] using hnow.trans ih
      · rw [Session.untilOut_of_ne ‹_›]
        exact hkeeps

theorem keeps_call {s : Calls} (h : Keeps c s.coder (s.oom = true) s.left) (input : Bytes) :
    Keeps c (s.decode input).coder ((s.decode input).oom = true) (s.decode input).left := by
  have hcall : KeepsCall s.coder (s.coder.decode input).ends (lost (s.coder.complete input)) := keeps_untilOut _
  simpa [Calls.decode] using h.trans hcall

end Chunks

/-- What `Decode` leaves of a rejected body. -/
theorem decode_of_reject {c filled : Coder} {input rest left : Bytes} {header : Header} {e : Stop ReadStatus}
    (hcomplete : c.complete input = some (filled, header, rest))
    (hreject : decodeBody header.event_type_ (filled.partial_bodies_ header.channel_id_) = (.error e, left)) :
    ∃ c' : Coder, c.decode input = (if e = .status .noData then .more c' rest else .fail e c' rest) ∧
      c' = filled.releaseBody header.channel_id_ (filled.partial_bodies_ header.channel_id_) left ∧
      c'.partial_bodies_ header.channel_id_ = left ∧ c'.surplus = c.surplus - left.length := by
  obtain ⟨hloop, hsurplus, hid⟩ := untilOut_of_complete hcomplete
  exact ⟨_, hloop e left hreject, rfl, Function.update_self _ _ _, by rw [surplus_releaseBody hid, hsurplus]⟩

/-- After `Decode` has rejected a body on a channel, the channel is empty, the account is right, and the next event is
decoded as behind a good one, exactly if the account was right before and the decoder of the body has taken all of it. -/
theorem rejected_body_discarded_iff (c : Coder) (input : Bytes) {filled : Coder} {header : Header} {rest : Bytes}
    (hcomplete : c.complete input = some (filled, header, rest)) {e : Stop ReadStatus} {left : Bytes}
    (hreject : decodeBody header.event_type_ (filled.partial_bodies_ header.channel_id_) = (.error e, left)) :
    ∃ c' : Coder,
      c.decode input = (if e = .status .noData then .more c' rest else .fail e c' rest) ∧
        ((c'.partial_bodies_ header.channel_id_ = [] ∧ c'.Accounted ∧
            ∀ more, c'.decode more = (filled.discard header).decode more) ↔
          c.Accounted ∧ left = []) := by
  obtain ⟨c', hdecode, hc', hbody, hsurplus⟩ := decode_of_reject hcomplete hreject
  refine ⟨c', hdecode, ?_⟩
  rw [hbody, accounted_iff, accounted_iff, hsurplus]
  constructor
  · rintro ⟨rfl, haccount, -⟩
    exact ⟨by simpa using haccount, rfl⟩
  · rintro ⟨haccount, rfl⟩
    exact ⟨rfl, by simpa using haccount, fun _ => by rw [hc']; rfl⟩

/-! ## Inputs -/

/-- A new coder keeps nothing. -/
theorem accounted_new (memory_limit : Int) (read_sizes write_sizes : UInt32 → UInt32) :
    (Coder.new memory_limit read_sizes write_sizes).Accounted := by
  simp [Accounted, Coder.new, total, held, channel]

/-- In every run of `Decode`, on any bytes and whatever it returns, the account and what is left of rejected bodies are
together the size of the partial bodies. Before a call returns `READ_OOM`, these are over the limit by no more than what
is left. -/
theorem held_within_limit (memory_limit : Nat) (read_sizes write_sizes : UInt32 → UInt32) (inputs : List Bytes) :
    let s := inputs.foldl Calls.decode ⟨Coder.new memory_limit read_sizes write_sizes, 0, false⟩
    s.coder.memory_used_ + s.left = total s.coder.held ∧
      (s.oom = false → total s.coder.held ≤ memory_limit + s.left) := by
  intro s
  have hkeeps : Keeps (Coder.new memory_limit read_sizes write_sizes) s.coder (s.oom = true) s.left :=
    List.foldlRecOn (motive := fun s : Calls => Keeps _ s.coder (s.oom = true) s.left) inputs _ .refl
      fun _ h input _ => keeps_call h input
  have hsurplus := hkeeps.surplus
  rw [(accounted_iff _).1 (accounted_new ..), surplus] at hsurplus
  refine ⟨by omega, fun hoom => ?_⟩
  have hroom : s.coder.memory_used_ ≤ memory_limit :=
    (hkeeps.room (Int.natCast_nonneg _)).resolve_right (by simp [hoom])
  omega

/-- A coder that rejects a body, and what is left of it. -/
def rejects (c : Coder) (input : Bytes) : Option Bytes :=
  (c.complete input).bind fun r =>
    match decodeBody r.2.1.event_type_ (r.1.partial_bodies_ r.2.1.channel_id_) with
    | (.error _, left) => some left
    | (.ok _, _) => none

theorem exists_of_rejects {c : Coder} {input left : Bytes} (h : c.rejects input = some left) :
    ∃ filled header rest e, c.complete input = some (filled, header, rest) ∧
      decodeBody header.event_type_ (filled.partial_bodies_ header.channel_id_) = (.error e, left) := by
  obtain ⟨⟨filled, header, rest⟩, hcomplete, hbody⟩ := Option.bind_eq_some_iff.1 h
  refine ⟨filled, header, rest, ?_⟩
  cases hdecode : decodeBody header.event_type_ (filled.partial_bodies_ header.channel_id_) with
  | mk result left' =>
    rw [hdecode] at hbody
    cases result with
    | ok body => cases hbody
    | error e =>
      obtain rfl := Option.some.inj hbody
      exact ⟨e, hcomplete, rfl⟩

/-- A notification in one chunk on channel 3, with the name `a` and a reference behind it. -/
def referringNotify (more : Bytes) : Bytes :=
  [0x03, 0, 0, 0, 0, 0, UInt8.ofNat (6 + more.length), 0x12, 1, 0, 0, 0, 0x02, 0, 1, 0x61, 0x07, 0] ++ more

def freshCoder : Coder := Coder.new 1000 (fun _ => 0) (fun _ => 0)

/-- A body that ends with what cannot be read is gone. -/
theorem rejected_body_discarded_last :
    ∃ filled header rest e c', freshCoder.complete (referringNotify []) = some (filled, header, rest) ∧
      freshCoder.decode (referringNotify []) = (if e = .status .noData then .more c' rest else .fail e c' rest) ∧
      c'.partial_bodies_ header.channel_id_ = [] ∧ c'.Accounted := by
  obtain ⟨filled, header, rest, e, hcomplete, hreject⟩ :=
    exists_of_rejects (show freshCoder.rejects (referringNotify []) = some [] by decide +kernel)
  obtain ⟨c', hdecode, hiff⟩ := rejected_body_discarded_iff freshCoder (referringNotify []) hcomplete hreject
  have hclean := hiff.2 ⟨accounted_new _ _ _, rfl⟩
  exact ⟨filled, header, rest, e, c', hcomplete, hdecode, hclean.1, hclean.2.1⟩

/-- One byte behind the reference stays in the channel and is not on the account. -/
theorem rejected_body_stays :
    ∃ filled header rest e c', freshCoder.complete (referringNotify [0]) = some (filled, header, rest) ∧
      freshCoder.decode (referringNotify [0]) = (if e = .status .noData then .more c' rest else .fail e c' rest) ∧
      c'.partial_bodies_ header.channel_id_ ≠ [] ∧ ¬ c'.Accounted := by
  obtain ⟨filled, header, rest, e, hcomplete, hreject⟩ :=
    exists_of_rejects (show freshCoder.rejects (referringNotify [0]) = some [0] by decide +kernel)
  obtain ⟨c', hdecode, -, hbody, hsurplus⟩ := decode_of_reject hcomplete hreject
  have hfresh : freshCoder.surplus = 0 := (accounted_iff _).1 (accounted_new _ _ _)
  refine ⟨filled, header, rest, e, c', hcomplete, hdecode, by rw [hbody]; simp, ?_⟩
  rw [accounted_iff, hsurplus, hfresh]
  decide

end Coder

end Whispercast.Rtmp
