import Whispercast.Rtmp.Framing

/-!
# What a connection delivers

A series of events is transferred one by one (`chain_of_messages`). The bytes of all of them are a sequence
of frames for the reader, so a session takes some of the frames, wherever the bytes are cut. A sequence of
transfers that is cut between two frames has been cut inside one event at most (`cut_of_chain`). From this
follow what is returned and what both sides remember then.
-/

namespace Whispercast.Rtmp

open Library Io Amf List Option Session

/-- The bytes of events in chunks. -/
def wireBytes (kss : List (List Chunk)) : Bytes := (kss.map fun ks => (ks.map Chunk.bytes).flatten).flatten

/-- A message with the frames that it is sent in. -/
abbrev Framed : Type := Message × List (Frame UInt8 Event)

/-- The frames of some messages. -/
def framesOf (xs : List Framed) : List (Frame UInt8 Event) := xs.flatMap Prod.snd

@[simp] theorem framesOf_cons (x : Framed) (xs : List Framed) : framesOf (x :: xs) = x.2 ++ framesOf xs := rfl

@[simp] theorem framesOf_append (xs ys : List Framed) : framesOf (xs ++ ys) = framesOf xs ++ framesOf ys :=
  flatMap_append

/-! ## Transfers in sequence -/

section Chains

variable {s s' : Coder × Coder} {xs : List Framed}

/-- Events that may be sent are transferred one after the other. -/
theorem chain_of_messages {w r : Coder} {ms : List Message} (hready : Ready w r)
    (hms : ∀ m ∈ ms, Framable r.memory_limit_ m) :
    ∃ xs s', xs.map Prod.fst = ms ∧ Session.Chain Transfer (w, r) xs s' := by
  induction ms generalizing w r with
  | nil => exact ⟨[], _, rfl, .nil _⟩
  | cons m ms ih =>
    obtain ⟨fs, _, _, htransfer⟩ := transfer_event hready (hms m mem_cons_self)
    obtain ⟨xs, s', hxs, hchain⟩ := ih htransfer.ready
      (by
        intro m' hm'
        rw [htransfer.limit]
        exact hms m' (mem_cons_of_mem _ hm'))
    exact ⟨(m, fs) :: xs, s', by rw [map_cons, hxs], .cons htransfer hchain⟩

section

variable (h : Session.Chain Transfer s xs s')

include h

/-- The frames are the bytes that `Encode` has made. -/
theorem encodeAll_of_chain : ∃ kss, s.1.encodeAll (xs.map Prod.fst) = some (s'.1, kss) ∧
      Session.bytesOf (framesOf xs) = wireBytes kss := by
  induction h with
  | nil s => exact ⟨[], rfl, rfl⟩
  | @cons s s₁ s' x xs hx _ ih =>
    obtain ⟨ks, hencode, hbytes⟩ := hx.encoded
    obtain ⟨kss, hrest, hbytes'⟩ := ih
    refine ⟨ks :: kss, ?_, ?_⟩
    · rw [map_cons, Coder.encodeAll, hencode]
      change (s₁.1.encodeAll (xs.map Prod.fst) >>= _) = _
      rw [hrest]
      rfl
    · rw [framesOf_cons, bytesOf_append, hbytes, hbytes', wireBytes, wireBytes, map_cons,
        flatten_cons]

/-- The reader takes the frames. -/
theorem steps_of_chain : Session.Chain (Session.Steps Coder.decodeChunk) s.2 (framesOf xs) s'.2 := by
  induction h with
  | nil s => exact .nil _
  | cons hx _ ih => exact hx.chain.append ih

/-- Each event completes one frame, its last one, and is returned as `Received` says. -/
theorem outs_of_chain : (Session.outsOf (framesOf xs)).length = xs.length ∧
      ∀ i got, (Session.outsOf (framesOf xs))[i]? = some got →
        ∃ m, (xs.map Prod.fst)[i]? = some m ∧ Received (s.1.sent.before (xs.map Prod.fst) i) m got := by
  induction h with
  | nil s => exact ⟨rfl, fun i got hgot => by cases hgot⟩
  | @cons s s₁ s' x xs hx _ ih =>
    obtain ⟨hlen, hreceived⟩ := ih
    obtain ⟨init, t, first, hfs, hout, hfirst, hinit, -⟩ := hx.frames
    have hone : outsOf x.2 = [first] := by
      have hnone : outsOf init = [] := filterMap_eq_nil_iff.2 fun u hu => (hinit u hu).1
      rw [hfs, outsOf_append, hnone, nil_append, outsOf, filterMap_cons_some hout,
        filterMap_nil]
    rw [framesOf_cons, outsOf_append, hone, singleton_append]
    refine ⟨by rw [length_cons, length_cons, hlen], ?_⟩
    intro i got hgot
    cases i with
    | zero =>
      rw [getElem?_cons_zero, Option.some.injEq] at hgot
      rw [← hgot]
      exact ⟨x.1, rfl, hfirst⟩
    | succ i =>
      obtain ⟨m, hm, hrec⟩ := hreceived i got hgot
      rw [hx.sent] at hrec
      exact ⟨m, hm, hrec⟩

theorem sent_of_chain : s'.1.sent = s.1.sent.before (xs.map Prod.fst) xs.length := by
  induction h with
  | nil s => rfl
  | cons hx _ ih =>
    rw [ih, hx.sent]
    rfl

end

/-- The last frame of a series of events, and whether the reader waits for more than it. -/
theorem last_of_chain {x : Framed} (h : Session.Chain Transfer s (xs ++ [x]) s') :
    ∃ init t, framesOf (xs ++ [x]) = init ++ [t] ∧ t.out.isSome ∧
      (t.wants ≤ t.bytes.length ↔ (s.1.sent.before (xs.map Prod.fst) xs.length).Prompt x.1) := by
  obtain ⟨_, hxs, hx⟩ := h.split
  obtain ⟨_, hx, -⟩ := hx.cons_inv
  obtain ⟨init, t, _, hfs, hout, -, -, hprompt⟩ := hx.frames
  rw [← sent_of_chain hxs]
  refine ⟨framesOf xs ++ init, t, ?_, by rw [hout]; rfl, hprompt⟩
  rw [framesOf_append, framesOf_cons, hfs, append_assoc, append_assoc]
  rfl

/-- A reader that waits for no more than the last chunk of each event takes every frame as it comes. -/
theorem prompt_of_chain (h : Session.Chain Transfer s xs s')
    (hprompt : ∀ i m, (xs.map Prod.fst)[i]? = some m → (s.1.sent.before (xs.map Prod.fst) i).Prompt m) :
    ∀ f ∈ framesOf xs, f.wants = f.bytes.length := by
  induction h with
  | nil s => exact fun f hf => absurd hf not_mem_nil
  | @cons s s₁ s' x xs hx _ ih =>
    obtain ⟨_, t, _, hfs, -, -, hinit, hiff⟩ := hx.frames
    intro f hf
    rw [framesOf_cons, mem_append, hfs, mem_append, mem_singleton] at hf
    rcases hf with (hf | rfl) | hf
    · exact Nat.le_antisymm (hinit f hf).2 f.le_wants
    · exact Nat.le_antisymm (hiff.2 (hprompt 0 x.1 rfl)) f.le_wants
    · refine ih (fun i m hm => ?_) f hf
      rw [hx.sent]
      exact hprompt (i + 1) m hm

/-- A series of events is cut between two of its frames: some events are complete, and at most one more has
begun. -/
theorem cut_of_chain {done todo : List (Frame UInt8 Event)} {r : Coder} (h : Session.Chain Transfer s xs s')
    (hcut : framesOf xs = done ++ todo) (hdone : Session.Chain (Session.Steps Coder.decodeChunk) s.2 done r)
    (hready : InStep s.1 s.2) :
    ∃ j w kss, (j = (Session.outsOf done).length ∨ j = (Session.outsOf done).length + 1) ∧
      s.1.encodeAll ((xs.map Prod.fst).take j) = some (w, kss) ∧ InStep w r := by
  induction h generalizing done with
  | nil s =>
    obtain ⟨rfl, -⟩ := append_eq_nil_iff.1 hcut.symm
    obtain rfl := hdone.nil_inv
    exact ⟨0, s.1, [], Or.inl rfl, rfl, hready⟩
  | @cons s s₁ s' x xs hx _ ih =>
    obtain ⟨ks, hencode, -⟩ := hx.encoded
    obtain ⟨init, t, _, hfs, hout, -, hinit, -⟩ := hx.frames
    have hnone : outsOf init = [] := filterMap_eq_nil_iff.2 fun u hu => (hinit u hu).1
    rcases append_eq_append_iff.1 hcut with ⟨more, rfl, hmore⟩ | ⟨more, hx2, _⟩
    · -- The first event is complete.
      obtain ⟨_, hfirst, hrest⟩ := hdone.split
      obtain rfl := hfirst.unique Steps.unique hx.chain
      obtain ⟨j, w, kss, _, hall, hstep⟩ := ih hmore hrest hx.ready.inStep
      have hone : (outsOf (x.2 ++ more)).length = (outsOf more).length + 1 := by
        rw [outsOf_append, hfs, outsOf_append, hnone, nil_append, outsOf,
          filterMap_cons_some hout, filterMap_nil, length_append, length_singleton,
          Nat.add_comm]
      refine ⟨j + 1, w, ks :: kss, by rw [hone]; omega, ?_, hstep⟩
      rw [map_cons, take_succ_cons, Coder.encodeAll, hencode]
      change (s₁.1.encodeAll ((xs.map Prod.fst).take j) >>= _) = _
      rw [hall]
      rfl
    · -- The cut is inside the first event, or at one of its ends.
      rcases eq_nil_or_concat done with rfl | ⟨_, _, hconcat⟩
      · obtain rfl := hdone.nil_inv
        exact ⟨0, s.1, [], Or.inl rfl, rfl, hready⟩
      · have hne : done ≠ [] := by
          rw [hconcat, concat_eq_append]
          exact append_ne_nil_of_right_ne_nil _ (cons_ne_nil _ _)
        refine ⟨1, s₁.1, [ks], ?_, ?_, hx.between done more r hx2 hne hdone⟩
        · rcases eq_nil_or_concat more with rfl | ⟨_, _, rfl⟩
          · left
            rw [append_nil] at hx2
            rw [← hx2, hfs, outsOf_append, hnone, nil_append, outsOf,
              filterMap_cons_some hout, filterMap_nil, length_singleton]
          · right
            rw [hfs, concat_eq_append, ← append_assoc] at hx2
            obtain ⟨hinit', -⟩ := append_inj' hx2 rfl
            rw [hinit', outsOf_append] at hnone
            rw [(append_eq_nil_iff.1 hnone).1, length_nil]
        · rw [map_cons, take_succ_cons, take_zero, Coder.encodeAll, hencode]
          rfl

end Chains

/-! ## Sessions -/

/-- `Decode` asks for more when there is nothing. -/
theorem decodeChunk_nil (c : Coder) : c.decodeChunk [] = .more c [] :=
  Coder.decodeChunk_short (by rw [Header.decode_nil])

theorem delivers_decode : Session.Delivers (Session.Steps Coder.decodeChunk) Coder.decode := by
  intro s t fs b hchain hb
  exact untilOut_spec hchain hb decodeChunk_nil (Nat.lt_succ_self _)

/-- What a reader has returned, and the state it is in, after a part of the bytes for some events. -/
structure Delivered (w : Coder) (ms : List Message) (outs : List Event) (r : Coder) : Prop where
  received : ∀ i got, outs[i]? = some got →
    ∃ m, ms[i]? = some m ∧ Received (w.sent.before ms i) m got
  inStep : ∃ j w' kss, (j = outs.length ∨ j = outs.length + 1) ∧
    w.encodeAll (ms.take j) = some (w', kss) ∧ InStep w' r

theorem Delivered.length_le {w r : Coder} {ms : List Message} {outs : List Event} (h : Delivered w ms outs r) :
    outs.length ≤ ms.length := by
  by_contra hlt
  obtain ⟨m, hm, -⟩ := h.received ms.length _ (getElem?_eq_getElem (by omega))
  rw [getElem?_eq_none (Nat.le_refl _)] at hm
  cases hm

/-- Wherever the bytes are cut, the events are returned in order, and no call fails. -/
theorem session_delivers {w r : Coder} {ms : List Message} (hready : Ready w r)
    (hms : ∀ m ∈ ms, Framable r.memory_limit_ m) :
    ∃ w' kss, w.encodeAll ms = some (w', kss) ∧ ∀ ps : List Bytes, ps.flatten <+: wireBytes kss →
      ∃ outs r' rest, Session.session Coder.decode r [] ps = ⟨outs, r', rest, none⟩ ∧
        Delivered w ms outs r' := by
  obtain ⟨_, s', rfl, hchain⟩ := chain_of_messages hready hms
  obtain ⟨kss, hencode, hbytes⟩ := encodeAll_of_chain hchain
  obtain ⟨-, hreceived⟩ := outs_of_chain hchain
  refine ⟨s'.1, kss, hencode, ?_⟩
  intro ps hps
  rw [← hbytes] at hps
  obtain ⟨done, _, r', rest, htaken, -, hsession⟩ :=
    session_spec delivers_decode (steps_of_chain hchain) hps (waiting_nil _)
  refine ⟨outsOf done, r', rest, hsession, ?_, cut_of_chain hchain htaken.split htaken.before hready.inStep⟩
  intro i got hgot
  apply hreceived
  rw [htaken.split, outsOf_append]
  rw [List.getElem?_append_left (List.getElem?_eq_some_iff.1 hgot).1]
  exact hgot

/-- A reader that has returned an event when no more than its bytes had come does not wait for more. -/
theorem prompt_of_session {s s' : Coder × Coder} {xs : List Framed} {x : Framed}
    (h : Session.Chain Transfer s (xs ++ [x]) s')
    (hall : (Session.session Coder.decode s.2 [] [Session.bytesOf (framesOf (xs ++ [x]))]).outs.length =
      (xs ++ [x]).length) :
    (s.1.sent.before (xs.map Prod.fst) xs.length).Prompt x.1 := by
  obtain ⟨_, t, hframes, hout, hiff⟩ := last_of_chain h
  have hbuffer : [] ++ [bytesOf (framesOf (xs ++ [x]))].flatten =
      bytesOf (framesOf (xs ++ [x])) := append_nil _
  have hpre : [] ++ [bytesOf (framesOf (xs ++ [x]))].flatten <+:
      bytesOf (framesOf (xs ++ [x])) := by rw [hbuffer]
  obtain ⟨done, todo, _, _, htaken, -, hsession⟩ := session_spec delivers_decode (steps_of_chain h)
    hpre (waiting_nil _)
  have hsplit := htaken.split
  -- The last frame completes an event, so it has been taken.
  have htodo : todo = [] := by
    rcases eq_nil_or_concat todo with hnil | ⟨todo, u, rfl⟩
    · exact hnil
    · have htotal := (outs_of_chain h).1
      rw [hframes, concat_eq_append, ← append_assoc] at hsplit
      obtain ⟨rfl, _⟩ := append_inj' hsplit rfl
      obtain ⟨got, hgot⟩ := isSome_iff_exists.1 hout
      rw [hsession, ← htotal, hframes, outsOf_append, outsOf_append] at hall
      have hone : outsOf [t] = [got] := filterMap_cons_some hgot
      rw [hone, length_append, length_append, length_singleton] at hall
      change (outsOf done).length = _ at hall
      omega
  rw [htodo, append_nil, hframes] at hsplit
  have havailable := htaken.available
  rw [← hsplit, available_append, hbuffer, hframes, bytesOf_append, length_append,
    Nat.add_sub_cancel_left, bytesOf_cons, bytesOf_nil, append_nil] at havailable
  exact hiff.1 havailable.2.1

/-- A reader returns all events whose bytes are there exactly if it never waits for more than the last chunk
of an event. -/
theorem session_prompt_iff {w r : Coder} {ms : List Message} (hready : Ready w r)
    (hms : ∀ m ∈ ms, Framable r.memory_limit_ m) :
    (∀ n w' kss, n ≤ ms.length → w.encodeAll (ms.take n) = some (w', kss) →
        ∀ ps : List Bytes, ps.flatten = wireBytes kss →
          (Session.session Coder.decode r [] ps).outs.length = n) ↔
      ∀ i m, ms[i]? = some m → (w.sent.before ms i).Prompt m := by
  obtain ⟨xs, _, rfl, hchain⟩ := chain_of_messages hready hms
  rw [length_map]
  constructor
  · intro hall i m hm
    rw [getElem?_map, map_eq_some_iff] at hm
    obtain ⟨x, hx, rfl⟩ := hm
    obtain ⟨hi, rfl⟩ := List.getElem?_eq_some_iff.1 hx
    obtain ⟨s₁, hpart⟩ := hchain.take (i + 1)
    have htake : xs.take (i + 1) = xs.take i ++ [xs[i]] := List.take_succ_eq_append_getElem hi
    rw [htake] at hpart
    obtain ⟨kss, hencode, hbytes⟩ := encodeAll_of_chain hpart
    have hlen : (xs.take i).length = i := List.length_take_of_le (Nat.le_of_lt hi)
    rw [← htake, List.map_take] at hencode
    have hprompt := prompt_of_session hpart (by
      rw [hall (i + 1) s₁.1 kss hi hencode _ (by rw [hbytes, List.flatten_singleton]), length_append, hlen,
        length_singleton])
    rw [hlen, List.map_take, Sent.before, List.take_take, Nat.min_self] at hprompt
    exact hprompt
  · intro hprompt n w' kss hn hencode ps hps
    obtain ⟨s₁, hpart⟩ := hchain.take n
    obtain ⟨_, hencode', hbytes⟩ := encodeAll_of_chain hpart
    rw [← List.map_take, hencode', Option.some.injEq, Prod.mk.injEq] at hencode
    obtain ⟨-, rfl⟩ := hencode
    have hframes : ∀ f ∈ framesOf (xs.take n), f.wants = f.bytes.length := by
      apply prompt_of_chain hpart
      intro i m hm
      have hi := (List.getElem?_eq_some_iff.1 hm).1
      rw [length_map, List.length_take] at hi
      rw [List.map_take, List.getElem?_take_of_lt (by omega)] at hm
      rw [List.map_take, Sent.before, List.take_take, Nat.min_eq_left (by omega)]
      exact hprompt i m hm
    rw [Session.session_complete delivers_decode (steps_of_chain hpart) (hps.trans hbytes.symm) hframes]
    rw [(outs_of_chain hpart).1, List.length_take, Nat.min_eq_left hn]

/-! ## Two coders that start fresh -/

/-- What is returned for an event that has been encoded: its body is what the class for its type makes of
exactly the bytes of the body. -/
structure Faithful (e got : Event) : Prop where
  channel : got.header_.channel_id_ = e.header_.channel_id_
  stream : got.header_.stream_id_ = e.header_.stream_id_
  type : got.header_.event_type_ = e.header_.event_type_
  body : ∃ b left, decodeBody e.header_.event_type_ e.body.encodeBody = (.ok b, left) ∧ got.body = b.1

theorem Received.faithful {sent : Sent} {e got : Event} (h : Received sent e.message got) : Faithful e got := by
  obtain ⟨hheader, hbody⟩ := h
  exact ⟨by rw [hheader]; rfl, by rw [hheader]; rfl, by rw [hheader]; rfl, hbody⟩

/-- The timestamp and the flag come back: an event in one chunk is absolute, or its channel was last used by
the same stream; an event in more chunks is relative. -/
def Sent.KeepsTimestamp (sent : Sent) (m : Message) : Prop :=
  if sent.Single m then m.1.header_.is_timestamp_relative_ = true → sent.SameStream m
  else m.1.header_.is_timestamp_relative_ = true

/-- Two events have the same timestamp and the same flag. -/
def SameTimestamp (e got : Event) : Prop :=
  got.header_.timestamp_ms_ = e.header_.timestamp_ms_ ∧
    got.header_.is_timestamp_relative_ = e.header_.is_timestamp_relative_

theorem Received.sameTimestamp_iff {sent : Sent} {e got : Event} (h : Received sent e.message got) :
    SameTimestamp e got ↔ sent.KeepsTimestamp e.message := by
  rw [SameTimestamp, h.header, Sent.KeepsTimestamp]
  by_cases hsingle : sent.Single e.message
  · rw [if_pos hsingle, Sent.received_single hsingle]
    change (_ ∧ (e.header_.is_timestamp_relative_ && e.header_.stream_id_ == sent.stream e.header_.channel_id_) =
      e.header_.is_timestamp_relative_) ↔ (e.header_.is_timestamp_relative_ = true → _)
    rw [Bool.and_eq_left_iff_imp, beq_iff_eq]
    exact and_iff_right rfl
  · rw [if_neg hsingle, Sent.received_multiple hsingle, laterReceived]
    change (_ ∧ true = e.header_.is_timestamp_relative_) ↔ e.header_.is_timestamp_relative_ = true
    constructor
    · exact fun hboth => hboth.2.symm
    · intro hrel
      refine ⟨if_neg fun hbad => ?_, hrel.symm⟩
      have hfalse := hbad.2
      change (!e.header_.is_timestamp_relative_) = true at hfalse
      rw [hrel] at hfalse
      exact absurd hfalse (by decide)

/-- An event with audio data. -/
def audioEvent (channel_id stream_id timestamp_ms : UInt32) (relative : Bool) (data : Bytes) : Event :=
  ⟨⟨channel_id, stream_id, .audioData, timestamp_ms, relative⟩, .bulkData .audioData data, rfl⟩

/-- Encode the events, and give the bytes of all of them to a reader. -/
def relay (limit : Int) (es : List Event) : Option (Session.Result Coder UInt8 Event (Stop ReadStatus)) :=
  ((Coder.new limit (fun _ => 0) (fun _ => 0)).encodeAll (es.map Event.message)).map fun x =>
    Session.session Coder.decode (Coder.new limit (fun _ => 0) (fun _ => 0)) [] [wireBytes x.2]

theorem framable_audioEvent {limit : Int} {channel_id stream_id timestamp_ms : UInt32} {relative : Bool}
    {data : Bytes} (hch : Header.IsChannel channel_id) (hstream : stream_id ≠ kInvalidStreamId)
    (hlen : data.length < 2 ^ 24) (hroom : (data.length : Int) ≤ limit) :
    Framable limit (audioEvent channel_id stream_id timestamp_ms relative data).message where
  channel := hch
  stream := hstream
  size := hlen
  room := hroom
  chunk := fun _ h => by cases h
  decodable := ⟨_, _, rfl⟩

section Fresh

variable (limit limit' : Int) (read write read' write' : UInt32 → UInt32)

theorem framable_messages {limit : Int} {es : List Event} (hes : ∀ e ∈ es, Framable limit e.message) :
    ∀ m ∈ es.map Event.message, Framable limit m := by
  intro m hm
  obtain ⟨e, he, rfl⟩ := mem_map.1 hm
  exact hes e he

/-- The events that are returned are the first ones that were encoded, no call fails, and both sides
remember the same: after as many events as are returned, or after one more, which has begun. -/
theorem framing_faithful (es : List Event) (hes : ∀ e ∈ es, Framable limit' e.message) :
    ∃ w kss, (Coder.new limit read write).encodeAll (es.map Event.message) = some (w, kss) ∧
      ∀ ps : List Bytes, ps.flatten <+: wireBytes kss → ∃ (outs : List Event) (r : Coder) (rest : Bytes),
        Session.session Coder.decode (Coder.new limit' read' write') [] ps = ⟨outs, r, rest, none⟩ ∧
          outs.length ≤ es.length ∧
          (∀ (i : Nat) got, outs[i]? = some got → ∃ e, es[i]? = some e ∧ Faithful e got) ∧
          ∃ j w' kss', (j = outs.length ∨ j = outs.length + 1) ∧
            (Coder.new limit read write).encodeAll ((es.map Event.message).take j) = some (w', kss') ∧
            InStep w' r := by
  obtain ⟨w, kss, hencode, hsessions⟩ :=
    session_delivers (ready_new limit limit' read write read' write') (framable_messages hes)
  refine ⟨w, kss, hencode, ?_⟩
  intro ps hps
  obtain ⟨outs, r, rest, hsession, hdelivered⟩ := hsessions ps hps
  have hlen := hdelivered.length_le
  rw [length_map] at hlen
  refine ⟨outs, r, rest, hsession, hlen, ?_, hdelivered.inStep⟩
  intro i got hgot
  obtain ⟨m, hm, hreceived⟩ := hdelivered.received i got hgot
  rw [getElem?_map, map_eq_some_iff] at hm
  obtain ⟨e, he, rfl⟩ := hm
  exact ⟨e, he, hreceived.faithful⟩

theorem framing_faithful_two : ∃ w kss, (Coder.new 0 (fun _ => 0) (fun _ => 0)).encodeAll
        ([audioEvent 4 1 0 false [1, 2, 3], audioEvent 5 1 7 true [4]].map Event.message) = some (w, kss) ∧
      ∀ ps : List Bytes, ps.flatten <+: wireBytes kss → ∃ (outs : List Event) (r : Coder) (rest : Bytes),
        Session.session Coder.decode (Coder.new 100 (fun _ => 0) (fun _ => 0)) [] ps = ⟨outs, r, rest, none⟩ ∧
          outs.length ≤ 2 ∧
          (∀ (i : Nat) got, outs[i]? = some got →
            ∃ e, [audioEvent 4 1 0 false [1, 2, 3], audioEvent 5 1 7 true [4]][i]? = some e ∧ Faithful e got) ∧
          ∃ j w' kss', (j = outs.length ∨ j = outs.length + 1) ∧
            (Coder.new 0 (fun _ => 0) (fun _ => 0)).encodeAll
              (([audioEvent 4 1 0 false [1, 2, 3], audioEvent 5 1 7 true [4]].map Event.message).take j) =
                some (w', kss') ∧
            InStep w' r := by
  refine framing_faithful 0 100 _ _ _ _ _ fun e he => ?_
  rcases mem_cons.1 he with rfl | he
  · exact framable_audioEvent (by decide) (by decide) (by decide) (by decide)
  · rw [mem_singleton.1 he]
    exact framable_audioEvent (by decide) (by decide) (by decide) (by decide)

/-- A map with an empty key is written, but it cannot be read. -/
theorem framing_rejects_emptyKey : ∃ e : Event, Sendable 1000 e.message ∧
    (relay 1000 [e]).map (fun x => (x.outs.length, x.error)) = some (0, some (.status .corruptedData)) :=
  ⟨⟨⟨3, 1, .notify, 0, false⟩, .notify [] [.stringMap [([], .null)]], rfl⟩,
    ⟨by decide, by decide, by decide, by decide, fun _ h => by cases h⟩, by decide⟩

/-- An event that is returned has the timestamp and the flag of the event that was encoded exactly if
`KeepsTimestamp` holds of it and what had been sent before it. -/
theorem timestamps_kept_iff (es : List Event) (hes : ∀ e ∈ es, Framable limit' e.message) :
    ∃ w kss, (Coder.new limit read write).encodeAll (es.map Event.message) = some (w, kss) ∧
      ∀ ps : List Bytes, ps.flatten <+: wireBytes kss → ∀ (i : Nat) got,
        (Session.session Coder.decode (Coder.new limit' read' write') [] ps).outs[i]? = some got →
          ∃ e, es[i]? = some e ∧
            (SameTimestamp e got ↔
              (Sent.start.before (es.map Event.message) i).KeepsTimestamp e.message) := by
  obtain ⟨w, kss, hencode, hsessions⟩ :=
    session_delivers (ready_new limit limit' read write read' write') (framable_messages hes)
  refine ⟨w, kss, hencode, ?_⟩
  intro ps hps i got hgot
  obtain ⟨_, r, _, hsession, hdelivered⟩ := hsessions ps hps
  rw [hsession] at hgot
  obtain ⟨m, hm, hreceived⟩ := hdelivered.received i got hgot
  rw [getElem?_map, map_eq_some_iff] at hm
  obtain ⟨e, he, rfl⟩ := hm
  exact ⟨e, he, hreceived.sameTimestamp_iff⟩

theorem timestamps_kept_iff_one : ∃ w kss, (Coder.new 0 (fun _ => 0) (fun _ => 0)).encodeAll
        ([audioEvent 4 1 0 false [1, 2, 3]].map Event.message) = some (w, kss) ∧
      ∀ ps : List Bytes, ps.flatten <+: wireBytes kss → ∀ (i : Nat) got,
        (Session.session Coder.decode (Coder.new 100 (fun _ => 0) (fun _ => 0)) [] ps).outs[i]? = some got →
          ∃ e, [audioEvent 4 1 0 false [1, 2, 3]][i]? = some e ∧
            (SameTimestamp e got ↔ (Sent.start.before ([audioEvent 4 1 0 false [1, 2, 3]].map Event.message)
              i).KeepsTimestamp e.message) := by
  refine timestamps_kept_iff 0 100 _ _ _ _ _ fun e he => ?_
  rw [mem_singleton.1 he]
  exact framable_audioEvent (by decide) (by decide) (by decide) (by decide)

/-- A relative event on a channel that another stream has used comes back as an absolute one. -/
theorem relative_flag_lost : ∃ e e' : Event, Framable 1000 e.message ∧ Framable 1000 e'.message ∧
    (e'.header_.timestamp_ms_, e'.header_.is_timestamp_relative_) = (5, true) ∧
    (relay 1000 [e, e']).map (fun x => x.outs.map fun got =>
      (got.header_.timestamp_ms_, got.header_.is_timestamp_relative_)) = some [(0, false), (5, false)] :=
  ⟨audioEvent 4 1 0 false [1, 2, 3, 4], audioEvent 4 2 5 true [1, 2, 3, 4],
    framable_audioEvent (by decide) (by decide) (by decide) (by decide),
    framable_audioEvent (by decide) (by decide) (by decide) (by decide), rfl, by decide⟩

/-- All events whose bytes are there are returned exactly if the reader never waits for more than the last
chunk of an event. -/
theorem returned_at_once_iff (es : List Event) (hes : ∀ e ∈ es, Framable limit' e.message) :
    (∀ n w kss, n ≤ es.length →
        (Coder.new limit read write).encodeAll ((es.map Event.message).take n) = some (w, kss) →
          ∀ ps : List Bytes, ps.flatten = wireBytes kss →
            (Session.session Coder.decode (Coder.new limit' read' write') [] ps).outs.length = n) ↔
      ∀ i e, es[i]? = some e → (Sent.start.before (es.map Event.message) i).Prompt e.message := by
  have hiff := session_prompt_iff (ready_new limit limit' read write read' write') (framable_messages hes)
  rw [length_map] at hiff
  rw [hiff]
  constructor
  · intro hprompt i e he
    exact hprompt i e.message (by rw [getElem?_map, he]; rfl)
  · intro hprompt i m hm
    rw [getElem?_map, map_eq_some_iff] at hm
    obtain ⟨e, he, rfl⟩ := hm
    exact hprompt i e he

theorem returned_at_once_iff_one :
    (∀ n w kss, n ≤ 1 →
        (Coder.new 0 (fun _ => 0) (fun _ => 0)).encodeAll
          (([audioEvent 4 1 0 false [1, 2, 3, 4]].map Event.message).take n) = some (w, kss) →
          ∀ ps : List Bytes, ps.flatten = wireBytes kss →
            (Session.session Coder.decode (Coder.new 100 (fun _ => 0) (fun _ => 0)) [] ps).outs.length = n) ↔
      ∀ (i : Nat) e, [audioEvent 4 1 0 false [1, 2, 3, 4]][i]? = some e →
        (Sent.start.before ([audioEvent 4 1 0 false [1, 2, 3, 4]].map Event.message) i).Prompt e.message := by
  refine returned_at_once_iff 0 100 _ _ _ _ [audioEvent 4 1 0 false [1, 2, 3, 4]] fun e he => ?_
  rw [mem_singleton.1 he]
  exact framable_audioEvent (by decide) (by decide) (by decide) (by decide)

/-- An event with a body of one byte is not returned when all of it has come. -/
theorem short_event_withheld : ∃ e : Event, Framable 1000 e.message ∧
    (relay 1000 [e]).map (fun x => (x.outs.length, x.error.isSome)) = some (0, false) :=
  ⟨audioEvent 4 1 0 false [1], framable_audioEvent (by decide) (by decide) (by decide) (by decide), by decide⟩

end Fresh

end Whispercast.Rtmp
