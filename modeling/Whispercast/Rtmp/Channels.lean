import Whispercast.Rtmp.Delivery

/-!
# Chunks of several channels between two coders

The writer makes the chunks of the events one event after the other, and the chunks reach the reader in any
order in which each channel keeps its own. The header of a chunk depends on its channel only, so what the
writer makes is a series of chunks for each channel (`Spread`). Any mixture of these series is taken by the
reader (`chain_of_channels`), and for each channel the events of that channel are returned.
-/

namespace Whispercast.Rtmp

open Library Io Amf Function List SentChunk Coder Session

/-! ## The chunks of each channel -/

/-- The chunks of events, in the order in which they are made. -/
def chunksOf : List Event → List (List Chunk) → List WireChunk
  | e :: es, ks :: kss => wireChunks e.header_.channel_id_ ks ++ chunksOf es kss
  | _, _ => []

/-- The elements for a channel. -/
def forChannel {α : Type} (channel : α → UInt32) (id : UInt32) (xs : List α) : List α :=
  xs.filter fun x => channel x = id

section ForChannel

variable {α β : Type} (channel : α → UInt32) (id : UInt32) (xs ys : List α)

@[simp] theorem forChannel_append :
    forChannel channel id (xs ++ ys) = forChannel channel id xs ++ forChannel channel id ys :=
  filter_append ..

theorem forChannel_map (f : β → α) (ts : List β) :
    forChannel channel id (ts.map f) = (forChannel (fun t => channel (f t)) id ts).map f :=
  filter_map ..

variable {channel id xs}

theorem forChannel_of_mem (h : ∀ x ∈ xs, channel x = id) : forChannel channel id xs = xs :=
  filter_eq_self.2 fun x hx => decide_eq_true (h x hx)

theorem forChannel_of_not_mem (h : ∀ x ∈ xs, channel x ≠ id) : forChannel channel id xs = [] :=
  filter_eq_nil_iff.2 fun x hx => by rw [decide_eq_true_iff]; exact h x hx

theorem forChannel_cons_self {x : α} (h : channel x = id) :
    forChannel channel id (x :: xs) = x :: forChannel channel id xs :=
  filter_cons_of_pos (decide_eq_true h)

theorem forChannel_cons_of_ne {x : α} (h : channel x ≠ id) :
    forChannel channel id (x :: xs) = forChannel channel id xs :=
  filter_cons_of_neg (by rw [decide_eq_true_iff]; exact h)

end ForChannel

/-- The channel that a chunk is sent on. -/
def SentChunk.channel (t : SentChunk) : UInt32 := t.wire.channel

/-- The channel of an event. -/
def Event.channel (e : Event) : UInt32 := e.header_.channel_id_

/-- What the chunks of events are for the channels of a reader: a series of chunks takes each channel from
one state to another one, and completes the events of the channel. -/
structure Spread (size : Nat) (st : UInt32 → ChannelState) (es : List Event) (wire : List WireChunk)
    (ts : List SentChunk) (st' : UInt32 → ChannelState) : Prop where
  wire : ts.map SentChunk.wire = wire
  chains : ∀ id, Session.Chain (Takes size) (st id) (forChannel SentChunk.channel id ts) (st' id)
  channels : ∀ t ∈ ts, t.channel < kMaxNumChannels
  late : ∀ t ∈ ts, t.frame.wants ≤ t.frame.bytes.length + 4
  outs : ∀ t ∈ ts, ∀ e, t.frame.out = some e →
    e.channel = t.channel ∧ Coder.chunkSizeAfter size e.body = size
  events : ∀ id, List.Forall₂ Faithful (forChannel Event.channel id es)
    (Session.outsOf ((forChannel SentChunk.channel id ts).map SentChunk.frame))

theorem Spread.append {size : Nat} {st st' st'' : UInt32 → ChannelState} {es es' : List Event}
    {wire wire' : List WireChunk} {ts ts' : List SentChunk} (h : Spread size st es wire ts st')
    (h' : Spread size st' es' wire' ts' st'') :
    Spread size st (es ++ es') (wire ++ wire') (ts ++ ts') st'' where
  wire := by rw [map_append, h.wire, h'.wire]
  chains := fun id => by
    rw [forChannel_append]
    exact (h.chains id).append (h'.chains id)
  channels := fun t ht => (mem_append.1 ht).elim (h.channels t) (h'.channels t)
  late := fun t ht => (mem_append.1 ht).elim (h.late t) (h'.late t)
  outs := fun t ht => (mem_append.1 ht).elim (h.outs t) (h'.outs t)
  events := fun id => by
    rw [forChannel_append, forChannel_append, map_append, outsOf_append]
    exact rel_append (h.events id) (h'.events id)

/-- The writer, and what the channels of a reader have between two events. -/
structure Channels (w : Coder) (st : UInt32 → ChannelState) : Prop where
  sync : ∀ id, Header.IsChannel id →
    ChannelSync (w.last_write_event_header_ id) (w.last_write_event_size_ id) (st id)
  bodies : ∀ id, (st id).body = []

section Events

variable {w : Coder} {st : UInt32 → ChannelState} {size : Nat} {limit : Int}

/-- The chunks of one event change the channel of the event. -/
theorem spread_event {e : Event} (hst : Channels w st) (hm : Framable limit e.message)
    (hsize : w.write_chunk_size_ = size) (hfour : 4 ≤ size)
    (hconst : ∀ n, e.body = .chunkSize n → n.toNat = size) :
    ∃ w' ks ts s', w.encode e = some (w', ks) ∧ Channels w' (Function.update st e.channel s') ∧
      w'.write_chunk_size_ = size ∧
      Spread size st [e] (wireChunks e.channel ks) ts (Function.update st e.channel s') := by
  obtain ⟨hsized, -⟩ := setWriteChunkSize_eq (w := w) (m := e.message) (hsize ▸ hfour) hm.chunk
  have hfor : w.chunkSizeFor e.body = w.write_chunk_size_ := by
    cases hbody : e.body with
    | chunkSize n => exact (hconst n hbody).trans hsize.symm
    | _ => rfl
  have hkeep : w.sizedFor e.body = w := by
    rw [sizedFor, hfor]
  obtain ⟨body, left, hdecode⟩ := hm.decodable
  have hsending : Sending w e.header_ 0 [] e.body.encodeBody (st e.channel) :=
    ⟨hst.sync _ hm.channel, hst.bodies _, fun _ => rfl, fun hbad => absurd hbad (Nat.lt_irrefl 0)⟩
  obtain ⟨ks, ts, s', hloop, hevent, -⟩ := encodeLoop_steps
    hsending hm.channel hm.stream hm.size (by omega) (Or.inl hsize.symm) hdecode (Nat.lt_succ_self _)
  obtain ⟨hlast, hlastSize, -⟩ := hsending.after hm.channel
  obtain ⟨init, t, rfl, hout, hinit, -⟩ := hevent.frames
  have hid : ∀ u ∈ init ++ [t], u.channel = e.channel := by
    intro u hu
    exact channel_of_mem_wireChunks (hevent.wire ▸ mem_map_of_mem hu)
  have hread : chunkSizeAfter size body.1 = size := by
    have hafter : chunkSizeAfter { w with read_chunk_size_ := w.write_chunk_size_ }.read_chunk_size_
        body.1 = w.chunkSizeFor e.body := chunkSizeAfter_eq rfl e.type_eq hm.chunk hdecode
    rw [hfor] at hafter
    rw [← hsize]
    exact hafter
  refine ⟨w.afterChunk e.header_ 0 e.body.encodeBody, ks, init ++ [t], s', ?_, ⟨?_, ?_⟩, ?_,
    ⟨hevent.wire, ?_, ?_, hevent.late, ?_, ?_⟩⟩
  · change w.setWriteChunkSize e.body = _ at hsized
    rw [encode, encodeWithAuxBuffer, hsized]
    change encodeLoop e.header_ _ (w.sizedFor e.body) 0 _ = _
    rw [hkeep]
    exact hloop
  · intro id hch
    by_cases heq : id = e.channel
    · rw [heq, update_self]
      change ChannelSync
        ((w.afterChunk e.header_ 0 e.body.encodeBody).last_write_event_header_ e.header_.channel_id_)
        ((w.afterChunk e.header_ 0 e.body.encodeBody).last_write_event_size_ e.header_.channel_id_) s'
      rw [hlast, hlastSize]
      exact sync_of_chain hevent.chain (append_ne_nil_of_right_ne_nil _ (cons_ne_nil _ _))
    · rw [update_of_ne heq]
      have hheader : (w.afterChunk e.header_ 0 e.body.encodeBody).last_write_event_header_ id =
          w.last_write_event_header_ id := update_of_ne heq _ _
      have hlen : (w.afterChunk e.header_ 0 e.body.encodeBody).last_write_event_size_ id =
          w.last_write_event_size_ id := update_of_ne heq _ _
      rw [hheader, hlen]
      exact hst.sync id hch
  · intro id
    by_cases heq : id = e.channel
    · rw [heq, update_self]
      exact hevent.body
    · rw [update_of_ne heq]
      exact hst.bodies id
  · rw [afterChunk_chunk_size]
    exact hsize
  · intro id
    by_cases heq : id = e.channel
    · rw [heq, update_self, forChannel_of_mem hid]
      exact hevent.chain.mono fun _ _ _ htakes => htakes.1
    · rw [update_of_ne heq, forChannel_of_not_mem fun u hu hbad => heq (hbad.symm.trans (hid u hu))]
      exact .nil _
  · intro u hu
    rw [hid u hu]
    exact hm.channel.2
  · intro u hu got hgot
    rcases mem_append.1 hu with hu | hu
    · rw [(hinit u hu).1] at hgot
      cases hgot
    · rw [mem_singleton.1 hu, hout, Option.some.injEq] at hgot
      rw [← hgot, hid u (mem_append_right _ hu)]
      exact ⟨rfl, hread⟩
  · intro id
    by_cases heq : id = e.channel
    · have hnone : outsOf (init.map frame) = [] := by
        refine filterMap_eq_nil_iff.2 fun f hf => ?_
        obtain ⟨u, hu, rfl⟩ := mem_map.1 hf
        exact (hinit u hu).1
      rw [heq, forChannel_of_mem hid, forChannel_cons_self rfl, map_append, outsOf_append, hnone]
      have hone : outsOf ([t].map frame) = [_] := filterMap_cons_some hout
      rw [hone]
      exact .cons ⟨rfl, rfl, rfl, body, left, hdecode, rfl⟩ .nil
    · rw [forChannel_of_not_mem fun u hu hbad => heq (hbad.symm.trans (hid u hu)),
        forChannel_cons_of_ne fun hbad => heq hbad.symm]
      exact .nil

/-- The chunks of a series of events. -/
theorem spread_events {es : List Event} (hst : Channels w st) (hes : ∀ e ∈ es, Framable limit e.message)
    (hsize : w.write_chunk_size_ = size) (hfour : 4 ≤ size)
    (hconst : ∀ e ∈ es, ∀ n, e.body = .chunkSize n → n.toNat = size) :
    ∃ w' kss ts st', w.encodeAll (es.map Event.message) = some (w', kss) ∧
      Spread size st es (chunksOf es kss) ts st' := by
  induction es generalizing w st with
  | nil =>
    exact ⟨w, [], [], st, rfl, rfl, fun _ => .nil _, fun t ht => absurd ht not_mem_nil,
      fun t ht => absurd ht not_mem_nil, fun t ht => absurd ht not_mem_nil, fun _ => .nil⟩
  | cons e es ih =>
    obtain ⟨w₁, ks, ts, _, hencode, hst₁, hsize₁, hspread⟩ := spread_event hst (hes e mem_cons_self)
      hsize hfour (hconst e mem_cons_self)
    obtain ⟨w', kss, ts', st', hall, hrest⟩ := ih hst₁ (fun e' he' => hes e' (mem_cons_of_mem _ he'))
      hsize₁ (fun e' he' => hconst e' (mem_cons_of_mem _ he'))
    refine ⟨w', ks :: kss, ts ++ ts', st', ?_, hspread.append hrest⟩
    rw [encode] at hencode
    rw [map_cons, Event.message, encodeAll, hencode]
    change (w₁.encodeAll (es.map Event.message) >>= _) = _
    rw [hall]
    rfl

end Events

/-! ## Mixtures -/

/-- The chunks of a mixture, with what they are for the reader. -/
theorem exists_mixture {mix : List WireChunk} {queue : UInt32 → List SentChunk}
    (hqueue : ∀ id, (queue id).map SentChunk.wire = forChannel WireChunk.channel id mix) :
    ∃ ts : List SentChunk, ts.map SentChunk.wire = mix ∧ ∀ id, forChannel SentChunk.channel id ts = queue id := by
  induction mix generalizing queue with
  | nil =>
    refine ⟨[], rfl, fun id => ?_⟩
    rw [map_eq_nil_iff.1 (hqueue id)]
    rfl
  | cons k mix ih =>
    have hown := hqueue k.channel
    rw [forChannel_cons_self rfl] at hown
    obtain ⟨t, rest, hrest, rfl, hmap⟩ := map_eq_cons_iff.1 hown
    have hnext : ∀ id, (update queue t.wire.channel rest id).map wire =
        forChannel WireChunk.channel id mix := by
      intro id
      by_cases heq : id = t.wire.channel
      · rw [heq, update_self, hmap]
      · rw [update_of_ne heq, hqueue id, forChannel_cons_of_ne fun hbad => heq hbad.symm]
    obtain ⟨ts, hts, hqueues⟩ := ih hnext
    refine ⟨t :: ts, by rw [map_cons, hts], ?_⟩
    intro id
    by_cases heq : id = t.wire.channel
    · have hch : t.channel = id := heq.symm
      rw [forChannel_cons_self hch, hqueues, heq, update_self, hrest]
    · have hch : t.channel ≠ id := fun hbad => heq hbad.symm
      rw [forChannel_cons_of_ne hch, hqueues, update_of_ne heq]

/-- The bytes of chunks. -/
def mixBytes (mix : List WireChunk) : Bytes := (mix.map fun k => k.chunk.bytes).flatten

theorem bytesOf_mixture (ts : List SentChunk) :
    Session.bytesOf (ts.map SentChunk.frame) = mixBytes (ts.map SentChunk.wire) := by
  rw [bytesOf, mixBytes, flatMap_map, map_map, flatMap_def]
  exact congrArg flatten (map_congr_left fun t _ => t.bytes_eq)

theorem WithinLimit.of_append {limit : Int} {held : UInt32 → Nat} {ks ks' : List WireChunk}
    (h : WithinLimit limit held (ks ++ ks')) : WithinLimit limit held ks := by
  induction ks generalizing held with
  | nil => trivial
  | cons k ks ih => exact ⟨h.1, ih h.2⟩

/-- The events of a channel are completed by the chunks of the channel. -/
theorem forChannel_outsOf {ts : List SentChunk} (id : UInt32)
    (houts : ∀ t ∈ ts, ∀ e, t.frame.out = some e → e.channel = t.channel) :
    forChannel Event.channel id (Session.outsOf (ts.map SentChunk.frame)) =
      Session.outsOf ((forChannel SentChunk.channel id ts).map SentChunk.frame) := by
  induction ts with
  | nil => rfl
  | cons t ts ih =>
    have htail := ih fun u hu => houts u (mem_cons_of_mem _ hu)
    have hcons : ∀ us : List SentChunk, outsOf ((t :: us).map frame) =
        t.frame.out.toList ++ outsOf (us.map frame) := by
      intro us
      rw [map_cons, outsOf, filterMap_cons]
      cases t.frame.out <;> rfl
    have hhead : ∀ e ∈ t.frame.out.toList, e.channel = t.channel :=
      fun e he => houts t mem_cons_self e (Option.mem_toList.1 he)
    rw [hcons, forChannel_append, htail]
    by_cases heq : t.channel = id
    · rw [forChannel_cons_self heq, hcons, forChannel_of_mem fun e he => (hhead e he).trans heq]
    · rw [forChannel_cons_of_ne heq, forChannel_of_not_mem fun e he hbad => heq ((hhead e he).symm.trans hbad),
        nil_append]

/-- As many events are completed as there are last chunks. -/
theorem outsOf_length (ts : List SentChunk) :
    (Session.outsOf (ts.map SentChunk.frame)).length = ((ts.map SentChunk.wire).filter WireChunk.last).length := by
  induction ts with
  | nil => rfl
  | cons t ts ih =>
    have hlast := t.last_eq
    rw [map_cons, map_cons, outsOf, filterMap_cons]
    cases hout : t.frame.out with
    | none =>
      rw [hout] at hlast
      rw [filter_cons_of_neg (by rw [hlast]; decide)]
      exact ih
    | some e =>
      rw [hout] at hlast
      rw [filter_cons_of_pos hlast, length_cons]
      exact congrArg (· + 1) ih

section Mixture

variable {size : Nat} {r : Coder} {es : List Event} {wire mix : List WireChunk} {ts us : List SentChunk}
  {st' : UInt32 → ChannelState}

theorem mem_of_forChannel (hmix : ∀ id, forChannel SentChunk.channel id us = forChannel SentChunk.channel id ts)
    {t : SentChunk} (ht : t ∈ us) : t ∈ ts := by
  have hown : t ∈ forChannel channel t.channel us :=
    mem_filter.2 ⟨ht, decide_eq_true rfl⟩
  rw [hmix] at hown
  exact (mem_filter.1 hown).1

/-- Any part of a mixture from its beginning is taken by the reader, which then accounts for the bodies that
are not complete. -/
theorem chain_of_mixture {vs : List SentChunk} (hspread : Spread size r.channel es wire ts st')
    (hmix : ∀ id, forChannel SentChunk.channel id (us ++ vs) = forChannel SentChunk.channel id ts)
    (hsize : r.read_chunk_size_ = size) (hmem : r.Accounted)
    (hlimit : WithinLimit r.memory_limit_ r.held ((us ++ vs).map SentChunk.wire)) :
    ∃ r', Session.Chain (Session.Steps Coder.decodeChunk) r (us.map SentChunk.frame) r' ∧ r'.Accounted := by
  have hmem_ts : ∀ t ∈ us, t ∈ ts := fun t ht => mem_of_forChannel hmix (mem_append_left _ ht)
  have hsplit : ∀ id, ∃ s, Chain (Takes size) (r.channel id) (forChannel channel id us) s := by
    intro id
    have hchain := hspread.chains id
    rw [← hmix, forChannel_append] at hchain
    obtain ⟨s, hfirst, -⟩ := hchain.split
    exact ⟨s, hfirst⟩
  choose fin hfin using hsplit
  rw [map_append] at hlimit
  obtain ⟨r', hchain, -, haccount, -, -⟩ := chain_of_channels hfin
    (fun t ht => hspread.channels t (hmem_ts t ht)) hsize
    (fun t ht e he => (hspread.outs t (hmem_ts t ht) e he).2) hmem hlimit.of_append
  exact ⟨r', hchain, haccount⟩

/-- A session on a part of the bytes of a mixture: which chunks have been taken, and what they complete. -/
theorem session_mixture (hspread : Spread size r.channel es wire ts st')
    (hmix : ∀ id, forChannel SentChunk.channel id us = forChannel SentChunk.channel id ts)
    (hsize : r.read_chunk_size_ = size) (hmem : r.Accounted)
    (hlimit : WithinLimit r.memory_limit_ r.held (us.map SentChunk.wire)) {ps : List Bytes}
    (hps : ps.flatten <+: mixBytes (us.map SentChunk.wire)) :
    ∃ done todo r' rest, us = done ++ todo ∧
      Session.session Coder.decode r [] ps =
        ⟨Session.outsOf (done.map SentChunk.frame), r', rest, none⟩ ∧
      r'.Accounted ∧
      ∀ t todo', todo = t :: todo' →
        ps.flatten.length < (mixBytes (done.map SentChunk.wire)).length + t.frame.wants := by
  have hmix' : ∀ id, forChannel channel id (us ++ []) = forChannel channel id ts := by
    rwa [append_nil]
  obtain ⟨_, hchain, -⟩ := chain_of_mixture hspread hmix' hsize hmem (by rwa [append_nil])
  rw [← bytesOf_mixture] at hps
  obtain ⟨done, todo, r', rest, htaken, hwaiting, hsession⟩ :=
    session_spec delivers_decode hchain hps (waiting_nil _)
  obtain ⟨done, todo, rfl, rfl, rfl⟩ := map_eq_append_iff.1 htaken.split
  obtain ⟨_, hchain₂, haccount⟩ := chain_of_mixture hspread hmix hsize hmem hlimit
  obtain rfl := htaken.before.unique Steps.unique hchain₂
  refine ⟨done, todo, r', rest, rfl, hsession, haccount, ?_⟩
  rintro t todo' rfl
  have hbuffer := congrArg length htaken.buffer
  rw [nil_append, length_append, bytesOf_mixture] at hbuffer
  have hlt : rest.length < t.frame.wants := hwaiting
  omega

end Mixture

/-- What has been returned for the channels: for each channel, the first of its events. -/
def ReturnedPerChannel (es outs : List Event) : Prop :=
  ∀ id, ∃ n, List.Forall₂ Faithful ((forChannel Event.channel id es).take n) (forChannel Event.channel id outs)

/-- The chunks of events reach the reader in any order in which each channel keeps its own, and in any
pieces. Then no call fails, the events of each channel are returned in order, an event is returned when
four more bytes than those of its last chunk have come, and the memory in use is the total size of the
bodies that are not complete. -/
theorem channels_independent {w r : Coder} (hready : Ready w r) (es : List Event)
    (hes : ∀ e ∈ es, Framable r.memory_limit_ e.message)
    (hconst : ∀ e ∈ es, ∀ n, e.body = .chunkSize n → n.toNat = w.write_chunk_size_) :
    ∃ w' kss, w.encodeAll (es.map Event.message) = some (w', kss) ∧
      ∀ mix, (∀ id, forChannel WireChunk.channel id mix = forChannel WireChunk.channel id (chunksOf es kss)) →
        WithinLimit r.memory_limit_ (fun _ => 0) mix →
        ∀ ps : List Bytes, ps.flatten <+: mixBytes mix →
          ∃ (outs : List Event) (r' : Coder) (rest : Bytes),
            Session.session Coder.decode r [] ps = ⟨outs, r', rest, none⟩ ∧
            ReturnedPerChannel es outs ∧ r'.Accounted ∧
            ∀ pre post, mix = pre ++ post → (mixBytes pre).length + 4 ≤ ps.flatten.length → ∀ id,
              ((forChannel WireChunk.channel id pre).filter WireChunk.last).length ≤
                (forChannel Event.channel id outs).length := by
  have hchannels : Channels w r.channel := ⟨hready.inStep.channels, hready.bodies⟩
  obtain ⟨w', kss, ts, _, hencode, hspread⟩ := spread_events hchannels hes rfl hready.chunk_size hconst
  have hheld : r.held = fun _ => 0 := funext fun id => by rw [held, hready.bodies, length_nil]
  have haccounted : r.Accounted := by
    rw [Coder.Accounted, hready.memory, hheld]
    rfl
  refine ⟨w', kss, hencode, ?_⟩
  intro mix hmix hlimit ps hps
  have hqueue : ∀ id, (forChannel channel id ts).map wire =
      forChannel WireChunk.channel id mix := by
    intro id
    rw [hmix id, ← hspread.wire, forChannel_map]
    rfl
  obtain ⟨_, rfl, hus⟩ := exists_mixture hqueue
  obtain ⟨done, _, r', rest, rfl, hsession, haccount, hwait⟩ := session_mixture hspread hus
    hready.inStep.chunk_size.symm haccounted (by rwa [hheld]) hps
  have hdone : ∀ t ∈ done, ∀ e, t.frame.out = some e → e.channel = t.channel := fun t ht e he =>
    (hspread.outs t (mem_of_forChannel hus (mem_append_left _ ht)) e he).1
  refine ⟨_, r', rest, hsession, ?_, haccount, ?_⟩
  · intro id
    have hevents := hspread.events id
    rw [← hus, forChannel_append, map_append, outsOf_append, ← forChannel_outsOf id hdone] at hevents
    exact ⟨_, forall₂_take_append _ _ _ hevents⟩
  · intro pre post hsplit hlen id
    obtain ⟨a, b, hab, rfl, rfl⟩ := map_eq_append_iff.1 hsplit
    -- All chunks of the part have been taken: the reader would not wait for the first one that has not.
    have hpart : ∃ c, done = a ++ c := by
      rcases append_eq_append_iff.1 hab with ⟨c, rfl, rfl⟩ | ⟨c, rfl, -⟩
      · cases c with
        | nil => exact ⟨[], by rw [append_nil, append_nil]⟩
        | cons t c =>
          have hlate := hspread.late t (mem_of_forChannel hus (mem_append_right _ mem_cons_self))
          have hlt := hwait t _ rfl
          have hbytes : (mixBytes ((done ++ t :: c).map wire)).length =
              (mixBytes (done.map wire)).length + t.frame.bytes.length +
                (mixBytes (c.map wire)).length := by
            rw [← bytesOf_mixture, ← bytesOf_mixture, ← bytesOf_mixture, map_append,
              bytesOf_append, map_cons, bytesOf_cons, length_append,
              length_append, Nat.add_assoc]
          omega
      · exact ⟨c, rfl⟩
    obtain ⟨c, rfl⟩ := hpart
    rw [forChannel_outsOf id hdone, outsOf_length, forChannel_map, forChannel_append, map_append,
      filter_append, length_append]
    exact Nat.le_add_right _ _

theorem channels_independent_two : ∃ w' kss, (Coder.new 0 (fun _ => 0) (fun _ => 0)).encodeAll
        ([audioEvent 4 1 0 false [1, 2, 3], audioEvent 5 1 7 true [4]].map Event.message) = some (w', kss) ∧
      ∀ mix, (∀ id, forChannel WireChunk.channel id mix = forChannel WireChunk.channel id
          (chunksOf [audioEvent 4 1 0 false [1, 2, 3], audioEvent 5 1 7 true [4]] kss)) →
        WithinLimit 100 (fun _ => 0) mix →
        ∀ ps : List Bytes, ps.flatten <+: mixBytes mix →
          ∃ (outs : List Event) (r' : Coder) (rest : Bytes),
            Session.session Coder.decode (Coder.new 100 (fun _ => 0) (fun _ => 0)) [] ps =
              ⟨outs, r', rest, none⟩ ∧
            ReturnedPerChannel [audioEvent 4 1 0 false [1, 2, 3], audioEvent 5 1 7 true [4]] outs ∧
            r'.Accounted ∧
            ∀ pre post, mix = pre ++ post → (mixBytes pre).length + 4 ≤ ps.flatten.length → ∀ id,
              ((forChannel WireChunk.channel id pre).filter WireChunk.last).length ≤
                (forChannel Event.channel id outs).length := by
  refine channels_independent (ready_new 0 100 (fun _ => 0) (fun _ => 0) (fun _ => 0) (fun _ => 0)) _ ?_ ?_
  · intro e he
    rcases mem_cons.1 he with rfl | he
    · exact framable_audioEvent (by decide) (by decide) (by decide) (by decide)
    · rw [mem_singleton.1 he]
      exact framable_audioEvent (by decide) (by decide) (by decide) (by decide)
  · intro e he n hn
    rcases mem_cons.1 he with rfl | he
    · cases hn
    · rw [mem_singleton.1 he] at hn
      cases hn

/-- An event that cannot be decoded ends the session, also for another channel. -/
theorem channels_emptyKey : ∃ (e e' : Event) (x : Coder × List (List Chunk)), e.channel ≠ e'.channel ∧
    Sendable 1000 e.message ∧ Sendable 1000 e'.message ∧
    (Coder.new 0 (fun _ => 0) (fun _ => 0)).encodeAll ([e, e'].map Event.message) = some x ∧
    WithinLimit 1000 (fun _ => 0) (chunksOf [e, e'] x.2) ∧
    (Session.session Coder.decode (Coder.new 1000 (fun _ => 0) (fun _ => 0)) []
      [mixBytes (chunksOf [e, e'] x.2)]).error = some (.status .corruptedData) :=
  ⟨⟨⟨3, 1, .notify, 0, false⟩, .notify [] [.stringMap [([], .null)]], rfl⟩, audioEvent 4 1 0 false [1, 2, 3, 4],
    _, by decide, ⟨by decide, by decide, by decide, by decide, fun _ h => by cases h⟩,
    (framable_audioEvent (by decide) (by decide) (by decide) (by decide)).toSendable, rfl,
    ⟨by decide, by decide, trivial⟩, by decide⟩

end Whispercast.Rtmp
