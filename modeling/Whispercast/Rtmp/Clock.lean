import Whispercast.Rtmp.Delivery

/-!
# The clock of a stream

Model of `Stream::SendEvent` and `Stream::ReceiveEvent` of `rtmp/rtmp_stream.cc`. A stream keeps the last
timestamp of each channel. The sender puts the difference from it into the header of an event, or the
timestamp itself; the receiver adds the difference up again.

The header that arrives is not always the one that was sent (`Sent.received`), so the receiver's clock is
right for a series of events exactly if each of them is stamped in a way that survives (`ClockKept`).
-/

namespace Whispercast.Rtmp

open Library Io Amf List

/-- `last_timestamp_ms_` of the streams of one side, by stream and channel. -/
abbrev Clocks : Type := UInt32 → UInt32 → Int

/-- No stream has sent or received anything. -/
def Clocks.new : Clocks := fun _ _ => -1

/-- The clock of a stream is set for a channel. -/
def Clocks.set (clocks : Clocks) (h : Header) (timestamp_ms : Int) : Clocks :=
  Function.update clocks h.stream_id_ (Function.update (clocks h.stream_id_) h.channel_id_ timestamp_ms)

/-- A call of `SendEvent`: the event, its timestamp, and the buffer for its body, if there is one. -/
structure Post where
  event : Event
  timestamp_ms : Int
  buffer : Option Bytes

namespace Post

/-- The body that is sent. -/
def body (p : Post) : Bytes := p.buffer.getD p.event.body.encodeBody

/-- The last timestamp of the stream on the channel of the event. -/
def last (p : Post) (clocks : Clocks) : Int := clocks p.event.header_.stream_id_ p.event.header_.channel_id_

end Post

namespace Stream

/-- The timestamp and the flag that `SendEvent` puts into a header, and the timestamp that it keeps. -/
def stamp (last timestamp_ms : Int) : (Int × Bool) × Int :=
  if timestamp_ms < 0 then
    if last = -1 then ((0, false), 0) else ((0, true), last)
  else if last = -1 then ((timestamp_ms, false), timestamp_ms)
  else if last ≤ timestamp_ms then ((timestamp_ms - last, true), timestamp_ms)
  else ((timestamp_ms, false), timestamp_ms)

/-- `set_is_timestamp_relative` and `set_timestamp_ms` on the header of an event. -/
def stampEvent (event : Event) (ts : Int) (relative : Bool) : Event :=
  { event with
    header_ := { event.header_ with
      timestamp_ms_ := UInt32.ofNat (ts % 2 ^ 32).toNat
      is_timestamp_relative_ := relative } }

/-- What `SendEvent` passes to the coder, and the clocks after it. -/
def stamped (clocks : Clocks) (p : Post) : Message × Clocks :=
  let s := stamp (p.last clocks) p.timestamp_ms
  ((stampEvent p.event s.1.1 s.1.2, p.body), clocks.set p.event.header_ s.2)

/-- `SendEvent`, on the coder of the connection. -/
def sendEvent (clocks : Clocks) (coder : Coder) (p : Post) : Option (Clocks × Coder × List Chunk) :=
  let m := stamped clocks p
  (coder.encodeWithAuxBuffer m.1.1 m.1.2).map fun x => (m.2, x.1, x.2)

/-- Calls of `SendEvent` one after the other. -/
def sendAll : Clocks → Coder → List Post → Option (Coder × List (List Chunk))
  | _, coder, [] => some (coder, [])
  | clocks, coder, p :: ps => do
      let (clocks', coder', chunks) ← sendEvent clocks coder p
      let (coder'', more) ← sendAll clocks' coder' ps
      some (coder'', chunks :: more)

/-- The timestamp that `ReceiveEvent` passes to `ProcessEvent` and keeps. -/
def receiveEvent (last : Int) (h : Header) : Int :=
  if h.is_timestamp_relative_ then
    if last < 0 then h.timestamp_ms_.toNat else last + h.timestamp_ms_.toNat
  else h.timestamp_ms_.toNat

/-- Calls of `ReceiveEvent` one after the other, each on the stream of the event. -/
def receiveAll : Clocks → List Event → List Int
  | _, [] => []
  | clocks, e :: es =>
    let timestamp_ms := receiveEvent (clocks e.header_.stream_id_ e.header_.channel_id_) e.header_
    timestamp_ms :: receiveAll (clocks.set e.header_ timestamp_ms) es

end Stream

/-! ## What is sent -/

/-- The messages of a series of calls. -/
def stampAll : Clocks → List Post → List Message
  | _, [] => []
  | clocks, p :: ps => (Stream.stamped clocks p).1 :: stampAll (Stream.stamped clocks p).2 ps

theorem stampAll_length (clocks : Clocks) (ps : List Post) : (stampAll clocks ps).length = ps.length := by
  induction ps generalizing clocks with
  | nil => rfl
  | cons p ps ih => rw [stampAll, length_cons, ih, length_cons]

theorem sendAll_eq (clocks : Clocks) (coder : Coder) (ps : List Post) :
    Stream.sendAll clocks coder ps = coder.encodeAll (stampAll clocks ps) := by
  induction ps generalizing clocks coder with
  | nil => rfl
  | cons p ps ih =>
    rw [Stream.sendAll, stampAll, Coder.encodeAll, Stream.sendEvent]
    cases coder.encodeWithAuxBuffer (Stream.stamped clocks p).1.1 (Stream.stamped clocks p).1.2 with
    | none => rfl
    | some x =>
      change (Stream.sendAll _ x.1 ps >>= _) = (Coder.encodeAll x.1 _ >>= _)
      rw [ih]

/-- A timestamp that `SendEvent` is called with here. -/
def ClockTime (t : Int) : Prop := 0 ≤ t ∧ t < 2 ^ 32

/-- A call of `SendEvent` whose event can be sent and received. -/
structure Postable (limit : Int) (p : Post) : Prop where
  time : ClockTime p.timestamp_ms
  framable : Framable limit (p.event, p.body)

/-- A stamp changes nothing that decides whether an event may be sent. -/
theorem framable_stamped {limit : Int} {p : Post} (h : Framable limit (p.event, p.body)) (clocks : Clocks) :
    Framable limit (Stream.stamped clocks p).1 :=
  ⟨⟨h.channel, h.stream, h.size, h.room, h.chunk⟩, h.decodable⟩

variable {clocks : Clocks}

theorem framable_stampAll {limit : Int} {ps : List Post} (h : ∀ p ∈ ps, Postable limit p) :
    ∀ m ∈ stampAll clocks ps, Framable limit m := by
  induction ps generalizing clocks with
  | nil => exact fun m hm => absurd hm not_mem_nil
  | cons p ps ih =>
    intro m hm
    rcases mem_cons.1 hm with rfl | hm
    · exact framable_stamped (h p mem_cons_self).framable clocks
    · exact ih (fun q hq => h q (mem_cons_of_mem _ hq)) m hm

/-! ## What the receiver's clock says -/

/-- A clock that is not set, or has been set to a timestamp. -/
def ClockValue (last : Int) : Prop := last = -1 ∨ ClockTime last

/-- The stamp of the event survives. With a difference from the last timestamp of the stream on the channel,
an event in one chunk has to follow one of the same stream, or the last timestamp is 0. An event in more
chunks has to be stamped with a difference, or it is the first one of the stream on the channel and its
timestamp is not an extended one. -/
def ClockKept (sent : Sent) (last : Int) (p : Post) : Prop :=
  if sent.Single (p.event, p.body)
  then 0 ≤ last → last ≤ p.timestamp_ms → sent.SameStream (p.event, p.body) ∨ last = 0
  else (0 ≤ last ∧ last ≤ p.timestamp_ms) ∨ (last = -1 ∧ p.timestamp_ms < 0xffffff)

theorem toNat_ofNat_time {t : Int} (h : ClockTime t) : ((UInt32.ofNat (t % 2 ^ 32).toNat).toNat : Int) = t := by
  obtain ⟨hpos, hlt⟩ := h
  rw [Int.emod_eq_of_lt hpos hlt, UInt32.toNat_ofNat', Nat.mod_eq_of_lt (by omega), Int.toNat_of_nonneg hpos]

theorem extended_ofNat {t : Int} (h : ClockTime t) : 0xffffff ≤ UInt32.ofNat (t % 2 ^ 32).toNat ↔ 0xffffff ≤ t := by
  rw [UInt32.le_iff_toNat_le, ← Int.ofNat_le, toNat_ofNat_time h]
  rfl

/-- How an event is stamped: the header has a timestamp of 32 bits, and the clock is set to the timestamp. -/
theorem stamp_cases {last t : Int} (hlast : ClockValue last) (ht : ClockTime t) :
    (0 ≤ last ∧ last ≤ t ∧ Stream.stamp last t = ((t - last, true), t)) ∨
      ((last = -1 ∨ t < last) ∧ Stream.stamp last t = ((t, false), t)) := by
  obtain ⟨_, -⟩ := ht
  rw [Stream.stamp, if_neg (by omega)]
  by_cases hnew : last = -1
  · rw [if_pos hnew]
    exact Or.inr ⟨Or.inl hnew, rfl⟩
  · have hset : ClockTime last := hlast.resolve_left hnew
    rw [if_neg hnew]
    by_cases hle : last ≤ t
    · rw [if_pos hle]
      exact Or.inl ⟨hset.1, hle, rfl⟩
    · rw [if_neg hle]
      exact Or.inr ⟨Or.inr (by omega), rfl⟩

/-- One event: the receiver, whose clock is as the sender's, gets the timestamp exactly if the stamp
survives. -/
theorem receiveEvent_iff {sent : Sent} {last : Int} {p : Post} {got : Event}
    (hlast : ClockValue last) (ht : ClockTime p.timestamp_ms)
    (hgot : got.header_ = sent.received (Stream.stampEvent p.event (Stream.stamp last p.timestamp_ms).1.1
      (Stream.stamp last p.timestamp_ms).1.2, p.body)) :
    Stream.receiveEvent last got.header_ = p.timestamp_ms ↔ ClockKept sent last p := by
  rw [hgot, ClockKept]
  rcases stamp_cases hlast ht with ⟨hpos, hle, hstamp⟩ | ⟨_, hstamp⟩
  · -- The header has the difference.
    rw [hstamp]
    have hdiff : ClockTime (p.timestamp_ms - last) := by
      obtain ⟨-, _⟩ := ht
      exact ⟨by omega, by omega⟩
    have hval := toNat_ofNat_time hdiff
    have hnot : ¬ last < 0 := by omega
    by_cases hs : sent.Single (p.event, p.body)
    · rw [if_pos hs, Sent.received_single (by exact hs), Stream.receiveEvent]
      change (if (true && p.event.header_.stream_id_ == sent.stream p.event.header_.channel_id_) = true then
        if last < 0 then _ else last + ((UInt32.ofNat ((p.timestamp_ms - last) % 2 ^ 32).toNat).toNat : Int)
        else ((UInt32.ofNat ((p.timestamp_ms - last) % 2 ^ 32).toNat).toNat : Int)) = _ ↔
        (_ → _ → p.event.header_.stream_id_ = sent.stream p.event.header_.channel_id_ ∨ _)
      rw [hval, Bool.true_and, if_neg hnot]
      by_cases hsame : p.event.header_.stream_id_ = sent.stream p.event.header_.channel_id_
      · rw [if_pos (beq_iff_eq.2 hsame)]
        exact ⟨fun _ _ _ => Or.inl hsame, fun _ => by omega⟩
      · rw [if_neg (fun hbad => hsame (beq_iff_eq.1 hbad))]
        constructor
        · intro heq _ _
          exact Or.inr (by omega)
        · intro hkept
          have hzero := (hkept hpos hle).resolve_left hsame
          omega
    · rw [if_neg hs, Sent.received_multiple (by exact hs), Stream.receiveEvent]
      change (if last < 0 then _ else last + ((if (0xffffff : UInt32) ≤
          UInt32.ofNat ((p.timestamp_ms - last) % 2 ^ 32).toNat ∧ (!true) = true then 0 else
          UInt32.ofNat ((p.timestamp_ms - last) % 2 ^ 32).toNat : UInt32).toNat : Int)) = _ ↔ _
      rw [if_neg hnot, if_neg (fun hbad => Bool.false_ne_true hbad.2), hval]
      exact ⟨fun _ => Or.inl ⟨hpos, hle⟩, fun _ => by omega⟩
  · -- The header has the timestamp.
    rw [hstamp]
    have hval := toNat_ofNat_time ht
    by_cases hs : sent.Single (p.event, p.body)
    · rw [if_pos hs, Sent.received_single (by exact hs), Stream.receiveEvent]
      change (((UInt32.ofNat (p.timestamp_ms % 2 ^ 32).toNat).toNat : Int)) = _ ↔ _
      rw [hval]
      exact ⟨fun _ _ _ => by omega, fun _ => rfl⟩
    · rw [if_neg hs, Sent.received_multiple (by exact hs), Stream.receiveEvent]
      -- An extended timestamp is read as a difference of 0.
      have hread : ((if (0xffffff : UInt32) ≤ UInt32.ofNat (p.timestamp_ms % 2 ^ 32).toNat ∧ (!false) = true then 0
          else UInt32.ofNat (p.timestamp_ms % 2 ^ 32).toNat : UInt32).toNat : Int) =
          if 0xffffff ≤ p.timestamp_ms then 0 else p.timestamp_ms := by
        have hext := extended_ofNat ht
        by_cases hlarge : 0xffffff ≤ p.timestamp_ms
        · rw [if_pos ⟨hext.2 hlarge, rfl⟩, if_pos hlarge]
          rfl
        · rw [if_neg fun hbad => hlarge (hext.1 hbad.1), if_neg hlarge, hval]
      change (if last < 0 then ((if (0xffffff : UInt32) ≤
          UInt32.ofNat (p.timestamp_ms % 2 ^ 32).toNat ∧ (!false) = true then 0 else
          UInt32.ofNat (p.timestamp_ms % 2 ^ 32).toNat : UInt32).toNat : Int) else last + ((if (0xffffff : UInt32) ≤
          UInt32.ofNat (p.timestamp_ms % 2 ^ 32).toNat ∧ (!false) = true then 0 else
          UInt32.ofNat (p.timestamp_ms % 2 ^ 32).toNat : UInt32).toNat : Int)) = _ ↔ _
      rw [hread]
      split
      · split <;> omega
      · split <;> omega

/-! ## Runs -/

/-- The stamps of all these events survive. -/
def AllKept : Clocks → Sent → List Post → Prop
  | _, _, [] => True
  | clocks, sent, p :: ps =>
    ClockKept sent (p.last clocks) p ∧
      AllKept (clocks.set p.event.header_ p.timestamp_ms) (sent.after (p.event, p.body)) ps

/-- The clocks of the sender after an event. -/
theorem stamped_clocks {p : Post} (hlast : ClockValue (p.last clocks)) (ht : ClockTime p.timestamp_ms) :
    (Stream.stamped clocks p).2 = clocks.set p.event.header_ p.timestamp_ms := by
  rw [Stream.stamped]
  rcases stamp_cases hlast ht with ⟨-, -, hstamp⟩ | ⟨-, hstamp⟩
  · rw [hstamp]
  · rw [hstamp]

theorem clockValue_set (h : ∀ s c, ClockValue (clocks s c)) (header : Header) {t : Int}
    (ht : ClockTime t) (s c : UInt32) : ClockValue (clocks.set header t s c) := by
  rw [Clocks.set]
  by_cases hs : s = header.stream_id_
  · rw [hs, Function.update_self]
    by_cases hc : c = header.channel_id_
    · rw [hc, Function.update_self]
      exact Or.inr ht
    · rw [Function.update_of_ne hc]
      exact h _ _
  · rw [Function.update_of_ne hs]
    exact h _ _

/-- The timestamps that the receiver gets are those that the sender was given exactly if all stamps
survive. As long as they do, the clocks of both sides are the same. -/
theorem receiveAll_iff {sent : Sent} {posts : List Post} {outs : List Event}
    (hclocks : ∀ s c, ClockValue (clocks s c)) (hposts : ∀ p ∈ posts, ClockTime p.timestamp_ms)
    (hreceived : ∀ i got, outs[i]? = some got → ∃ m, (stampAll clocks posts)[i]? = some m ∧
      Received (sent.before (stampAll clocks posts) i) m got) :
    Stream.receiveAll clocks outs = (posts.take outs.length).map Post.timestamp_ms ↔
      AllKept clocks sent (posts.take outs.length) := by
  induction outs generalizing clocks sent posts with
  | nil =>
    rw [List.length_nil, List.take_zero]
    exact ⟨fun _ => trivial, fun _ => rfl⟩
  | cons got outs ih =>
    obtain ⟨m, hm, hfirst⟩ := hreceived 0 got rfl
    cases posts with
    | nil => cases hm
    | cons p posts =>
      rw [stampAll, List.getElem?_cons_zero, Option.some.injEq] at hm
      subst hm
      have htime := hposts p mem_cons_self
      have hlast : ClockValue (p.last clocks) := hclocks _ _
      have hchannel : got.header_.stream_id_ = p.event.header_.stream_id_ ∧
          got.header_.channel_id_ = p.event.header_.channel_id_ := by
        rw [hfirst.header]
        exact ⟨rfl, rfl⟩
      have hiff : _ ↔ ClockKept sent (p.last clocks) p := receiveEvent_iff hlast htime hfirst.header
      have hset : ∀ t, clocks.set got.header_ t = clocks.set p.event.header_ t := by
        intro t
        rw [Clocks.set, Clocks.set, hchannel.1, hchannel.2]
      have hnext : ∀ i got', outs[i]? = some got' →
          ∃ m, (stampAll (clocks.set p.event.header_ p.timestamp_ms) posts)[i]? = some m ∧
            Received ((sent.after (p.event, p.body)).before
              (stampAll (clocks.set p.event.header_ p.timestamp_ms) posts) i) m got' := by
        intro i got' hgot'
        obtain ⟨m, hm, hrec⟩ := hreceived (i + 1) got' hgot'
        rw [stampAll, stamped_clocks hlast htime] at hm hrec
        exact ⟨m, hm, hrec⟩
      have hrest := ih (clockValue_set hclocks _ htime) (fun q hq => hposts q (mem_cons_of_mem _ hq))
        hnext
      rw [length_cons, List.take_succ_cons, List.map_cons, Stream.receiveAll, AllKept, hchannel.1,
        hchannel.2, hset]
      rw [List.cons.injEq]
      constructor
      · rintro ⟨hhead, htail⟩
        change Stream.receiveEvent (p.last clocks) got.header_ = _ at hhead
        change Stream.receiveAll (clocks.set _ (Stream.receiveEvent (p.last clocks) got.header_)) outs = _ at htail
        rw [hhead] at htail
        exact ⟨hiff.1 hhead, hrest.1 htail⟩
      · rintro ⟨hkept, hall⟩
        have hhead := hiff.2 hkept
        refine ⟨hhead, ?_⟩
        change Stream.receiveAll (clocks.set _ (Stream.receiveEvent (p.last clocks) got.header_)) outs = _
        rw [hhead]
        exact hrest.2 hall

/-- The timestamps that the streams of the receiver pass on are those that `SendEvent` was called with,
exactly if all stamps of the events that are returned survive. -/
theorem clocks_agree_iff (limit limit' : Int) (read write read' write' : UInt32 → UInt32) (posts : List Post)
    (hposts : ∀ p ∈ posts, Postable limit' p) :
    ∃ w kss, Stream.sendAll Clocks.new (Coder.new limit read write) posts = some (w, kss) ∧
      ∀ ps : List Bytes, ps.flatten <+: wireBytes kss → ∃ (outs : List Event) (r : Coder) (rest : Bytes),
        Session.session Coder.decode (Coder.new limit' read' write') [] ps = ⟨outs, r, rest, none⟩ ∧
          outs.length ≤ posts.length ∧
          (Stream.receiveAll Clocks.new outs = (posts.take outs.length).map Post.timestamp_ms ↔
            AllKept Clocks.new Sent.start (posts.take outs.length)) := by
  obtain ⟨w, kss, hencode, hsessions⟩ :=
    session_delivers (ready_new limit limit' read write read' write') (framable_stampAll hposts)
  rw [← sendAll_eq] at hencode
  refine ⟨w, kss, hencode, ?_⟩
  intro ps hps
  obtain ⟨outs, r, rest, hsession, hdelivered⟩ := hsessions ps hps
  have hlen := hdelivered.length_le
  rw [stampAll_length] at hlen
  exact ⟨outs, r, rest, hsession, hlen, receiveAll_iff (fun _ _ => Or.inl rfl) (fun p hp => (hposts p hp).time)
    hdelivered.received⟩

theorem clocks_agree_iff_one : ∃ w kss, Stream.sendAll Clocks.new (Coder.new 0 (fun _ => 0) (fun _ => 0))
        [⟨audioEvent 4 1 0 false [1, 2, 3, 4], 10, none⟩] = some (w, kss) ∧
      ∀ ps : List Bytes, ps.flatten <+: wireBytes kss → ∃ (outs : List Event) (r : Coder) (rest : Bytes),
        Session.session Coder.decode (Coder.new 100 (fun _ => 0) (fun _ => 0)) [] ps = ⟨outs, r, rest, none⟩ ∧
          outs.length ≤ 1 ∧
          (Stream.receiveAll Clocks.new outs =
              (([⟨audioEvent 4 1 0 false [1, 2, 3, 4], 10, none⟩] : List Post).take outs.length).map
                Post.timestamp_ms ↔
            AllKept Clocks.new Sent.start
              (([⟨audioEvent 4 1 0 false [1, 2, 3, 4], 10, none⟩] : List Post).take outs.length)) := by
  refine clocks_agree_iff 0 100 _ _ _ _ _ fun p hp => ?_
  rw [mem_singleton.1 hp]
  exact ⟨⟨by decide, by decide⟩, framable_audioEvent (by decide) (by decide) (by decide) (by decide)⟩

/-- Two streams on one channel: the difference of the last event comes as a timestamp. -/
theorem clock_lost : ∃ posts : List Post, (∀ p ∈ posts, Postable 1000 p) ∧ posts.map Post.timestamp_ms = [10, 10, 15] ∧
    (Stream.sendAll Clocks.new (Coder.new 1000 (fun _ => 0) (fun _ => 0)) posts).map (fun x =>
      Stream.receiveAll Clocks.new
        (Session.session Coder.decode (Coder.new 1000 (fun _ => 0) (fun _ => 0)) [] [wireBytes x.2]).outs) =
      some [10, 10, 5] := by
  refine ⟨[⟨audioEvent 4 1 0 false [1, 2, 3, 4], 10, none⟩, ⟨audioEvent 4 2 0 false [1, 2, 3, 4], 10, none⟩,
    ⟨audioEvent 4 1 0 false [1, 2, 3, 4], 15, none⟩], ?_, rfl, by decide⟩
  intro p hp
  simp only [mem_cons, not_mem_nil, or_false] at hp
  obtain rfl | rfl | rfl := hp
  · exact ⟨⟨by decide, by decide⟩, framable_audioEvent (by decide) (by decide) (by decide) (by decide)⟩
  · exact ⟨⟨by decide, by decide⟩, framable_audioEvent (by decide) (by decide) (by decide) (by decide)⟩
  · exact ⟨⟨by decide, by decide⟩, framable_audioEvent (by decide) (by decide) (by decide) (by decide)⟩

end Whispercast.Rtmp
