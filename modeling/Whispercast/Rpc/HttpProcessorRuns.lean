import Whispercast.Rpc.HttpProcessor

/-!
# Replies over HTTP

Every request that asks for something is in execution, or its reply is in the selector, or it is answered
(`Split`). The keys of the requests in execution are the lower halves of their addresses, so this needs that no two of
them agree in the lower half.
-/

namespace Whispercast.Rpc

open Io Library Http HttpProcessor List Option

/-- The reply to a request with a result of its query. -/
def ServerRequest.reply (r : ServerRequest) (status : ReplyStatus) (result : Bytes) : Bytes :=
  Message.serializeSave r.codec.encoder { header := ⟨r.call.header.xid, .reply⟩, rbody := ⟨status, result⟩ }

namespace HttpProcessor

/-- The server data is the reply with what the executor has given back for the query of the request. -/
def Replied (returned : List (Nat × ReplyStatus × Bytes)) (r : ServerRequest) : Prop :=
  ∃ status result, (r.number, status, result) ∈ returned ∧ r.server_data = r.reply status result

/-- What a request is answered with: the result of its query, or an error where it asks for nothing or was refused. -/
inductive Answer (returned : List (Nat × ReplyStatus × Bytes)) (r : ServerRequest) : HttpReturnCode → Prop where
  | replied (h : Replied returned r) : Answer returned r .ok
  | refused (h : ∀ x ∈ returned, x.1 ≠ r.number) : Answer returned r .internalServerError
  | noCall (h : r.call.header.msgType ≠ .call) : Answer returned r .badRequest

/-- What should hold of the replies.

* Every request that arrived is there, or it is answered, and this once.
* Every answer is the one for its request, and there is one result of every query.
* A request that is not answered waits for the result of its query, or for the selector. -/
structure RepliesOwn (s : HttpProcessor) : Prop where
  once : (s.requests.map (fun e => e.2.number) ++ s.answered.map fun e => e.1.number).Perm (List.range s.arrived)
  own : ∀ e ∈ s.answered, Answer s.returned e.1 e.2
  result : (s.returned.map Prod.fst).Nodup
  waiting : ∀ e ∈ s.requests, e.2.number ∈ s.queries.map Prod.fst ∨ e.1 ∈ s.closures.map Prod.fst

/-! ## The invariant -/

/-- The key of a request and its entry. -/
def entry (r : ServerRequest) : UInt32 × RpcRequest :=
  (r.address.toUInt32, ⟨r.address, r.codec, r.call.header.xid.toUInt32⟩)

/-- The query of a request. -/
def query (r : ServerRequest) : Nat × Query :=
  (r.number, ⟨r.address.toUInt32, r.call.cbody.service, r.call.cbody.method, r.call.cbody.params⟩)

/-- The requests that are there are those in execution and those whose reply is written. -/
structure Split (s : HttpProcessor) (executing written : List ServerRequest) : Prop where
  requests : s.requests.Perm ((executing ++ written).map fun r => (r.address, r))
  addresses : ((executing ++ written).map ServerRequest.address).Nodup
  keys : (executing.map fun r => r.address.toUInt32).Nodup
  entries : s.requests_in_execution_.Perm (executing.map entry)
  queries : s.queries.Perm (executing.map query)
  closures : s.closures.Perm (written.map fun r => (r.address, .ok))
  blank : ∀ r ∈ executing, r.server_data = [] ∧ ∀ x ∈ s.returned, x.1 ≠ r.number
  replied : ∀ r ∈ written, Replied s.returned r
  queueing : ∀ number address, s.queueing = some (number, address) → number ∈ s.queries.map Prod.fst →
    ∃ r ∈ executing, r.number = number ∧ r.address = address
  numbers : (executing.map ServerRequest.number ++ written.map ServerRequest.number ++
    s.answered.map fun e => e.1.number).Perm (List.range s.arrived)
  own : ∀ e ∈ s.answered, Answer s.returned e.1 e.2
  result : (s.returned.map Prod.fst).Nodup
  early : ∀ x ∈ s.returned, x.1 < s.arrived

/-- The invariant. -/
def Inv (s : HttpProcessor) : Prop := ∃ executing written, s.Split executing written

/-- The address of a request that arrives does not agree in the lower half with one of a request in execution. -/
def KeysApart (s : HttpProcessor) : Event → Prop
  | .request address _ p =>
    p.header.msgType = .call → ∀ e ∈ s.requests_in_execution_, e.2.req_.toUInt32 ≠ address.toUInt32
  | _ => True

instance decidableKeysApart (s : HttpProcessor) : ∀ e : Event, Decidable (s.KeysApart e)
  | .request address _ p => inferInstanceAs (Decidable (p.header.msgType = .call →
      ∀ e ∈ s.requests_in_execution_, e.2.req_.toUInt32 ≠ address.toUInt32))
  | .queued _ => isTrue trivial
  | .result _ _ _ => isTrue trivial
  | .reply => isTrue trivial

variable {s : HttpProcessor} {executing written : List ServerRequest} {r : ServerRequest}

theorem inv_init : Inv {} :=
  ⟨[], [], ⟨.refl _, nodup_nil, nodup_nil, .refl _, .refl _, .refl _, forall_mem_nil _, forall_mem_nil _, nofun, .refl _,
    forall_mem_nil _, nodup_nil, forall_mem_nil _⟩⟩

section

variable (h : s.Split executing written)

include h

theorem Split.perm {executing' written' : List ServerRequest}
    (he : executing.Perm executing') (hw : written.Perm written') : s.Split executing' written' where
  requests := h.requests.trans ((he.append hw).map _)
  addresses := ((he.append hw).map _).nodup_iff.1 h.addresses
  keys := (he.map _).nodup_iff.1 h.keys
  entries := h.entries.trans (he.map _)
  queries := h.queries.trans (he.map _)
  closures := h.closures.trans (hw.map _)
  blank r hr := h.blank r (he.symm.subset hr)
  replied r hr := h.replied r (hw.symm.subset hr)
  queueing number address hq hmem := by
    obtain ⟨r, hr, hnumber⟩ := h.queueing number address hq hmem
    exact ⟨r, he.subset hr, hnumber⟩
  numbers := ((((he.map _).append (hw.map _)).append_right _).symm.trans h.numbers)
  own := h.own
  result := h.result
  early := h.early

theorem Split.nodup_numbers :
    (executing.map ServerRequest.number ++ written.map ServerRequest.number ++
      s.answered.map fun e => e.1.number).Nodup :=
  h.numbers.nodup_iff.2 nodup_range

/-- What is found for a request that is there. -/
theorem Split.lookup_request (hr : r ∈ executing ++ written) : s.requests.lookup r.address = some r := by
  have hkeys : (AssocList.keys s.requests).Nodup := by
    refine (h.requests.map Prod.fst).nodup_iff.2 ?_
    rw [List.map_map]
    exact h.addresses
  exact AssocList.lookup_of_mem hkeys (h.requests.symm.subset (List.mem_map_of_mem (f := fun r => (r.address, r)) hr))

/-- What is found for a request in execution. -/
theorem Split.lookup_entry (hr : r ∈ executing) :
    s.requests_in_execution_.lookup r.address.toUInt32 = some ⟨r.address, r.codec, r.call.header.xid.toUInt32⟩ := by
  have hkeys : (AssocList.keys s.requests_in_execution_).Nodup := by
    refine (h.entries.map Prod.fst).nodup_iff.2 ?_
    rw [List.map_map]
    exact h.keys
  exact AssocList.lookup_of_mem hkeys (h.entries.symm.subset (List.mem_map_of_mem (f := entry) hr))

end

/-- Its entry is taken out. -/
theorem Split.erase_entry (h : s.Split (r :: executing) written) :
    (s.requests_in_execution_.eraseP fun e => e.1 == r.address.toUInt32).Perm (executing.map entry) := by
  have hentries := h.entries
  refine AssocList.eraseP_perm hentries ?_
  refine (h.entries.map Prod.fst).nodup_iff.2 ?_
  rw [List.map_map]
  exact h.keys

/-- A request is taken out. -/
theorem Split.erase_request {rest : List ServerRequest} (h : s.Split executing written)
    (hr : (executing ++ written).Perm (r :: rest)) :
    (s.requests.eraseP fun e => e.1 == r.address).Perm (rest.map fun r => (r.address, r)) := by
  have hrequests := h.requests.trans (hr.map _)
  refine AssocList.eraseP_perm hrequests ?_
  refine (h.requests.map Prod.fst).nodup_iff.2 ?_
  rw [List.map_map]
  exact h.addresses

theorem Inv.repliesOwn (h : s.Inv) : s.RepliesOwn := by
  obtain ⟨_, _, h⟩ := h
  refine ⟨?_, h.own, h.result, ?_⟩
  · refine Perm.trans (Perm.append_right _ ?_) h.numbers
    rw [← map_append]
    exact (h.requests.map fun e => e.2.number).trans (by rw [List.map_map])
  · intro e he
    obtain ⟨r, hr, rfl⟩ := List.mem_map.1 (h.requests.subset he)
    rcases mem_append.1 hr with hr | hr
    · left
      exact List.mem_map_of_mem (f := Prod.fst) (h.queries.symm.subset (List.mem_map_of_mem (f := query) hr))
    · right
      exact List.mem_map_of_mem (f := Prod.fst)
        (h.closures.symm.subset (List.mem_map_of_mem (f := fun r => (r.address, HttpReturnCode.ok)) hr))

/-! ## Steps -/

theorem Replied.mono {returned : List (Nat × ReplyStatus × Bytes)} {x : Nat × ReplyStatus × Bytes}
    (h : Replied returned r) : Replied (returned ++ [x]) r := by
  obtain ⟨status, result, hmem, hdata⟩ := h
  exact ⟨status, result, mem_append_left _ hmem, hdata⟩

theorem Answer.mono {returned : List (Nat × ReplyStatus × Bytes)} {x : Nat × ReplyStatus × Bytes} {code : HttpReturnCode}
    (h : Answer returned r code) (hx : x.1 ≠ r.number) : Answer (returned ++ [x]) r code := by
  cases h with
  | replied h => exact .replied h.mono
  | refused h =>
    refine .refused fun y hy => ?_
    rcases mem_append.1 hy with hy | hy
    · exact h y hy
    · rw [mem_singleton.1 hy]
      exact hx
  | noCall h => exact .noCall h

/-- A request arrives. -/
theorem Inv.processHttpRequest (h : s.Inv) {address : UInt64} (hnew : s.requests.lookup address = none)
    (codec : CodecId) {p : Message}
    (hapart : p.header.msgType = .call → ∀ e ∈ s.requests_in_execution_, e.2.req_.toUInt32 ≠ address.toUInt32) :
    ∃ s', s.processHttpRequest address codec p = some s' ∧ s'.Inv := by
  obtain ⟨executing, written, h⟩ := h
  have hearly : ∀ x ∈ s.returned, x.1 < s.arrived + 1 := fun x hx => Nat.lt_succ_of_lt (h.early x hx)
  rw [HttpProcessor.processHttpRequest]
  dsimp only
  split_ifs with hcall
  · -- it asks for nothing, and is answered at once
    refine ⟨_, rfl, executing, written, ⟨h.requests, h.addresses, h.keys, h.entries, h.queries, h.closures, h.blank,
      h.replied, h.queueing, ?_, ?_, h.result, hearly⟩⟩
    · rw [map_append, ← append_assoc, List.range_succ]
      exact h.numbers.append_right _
    · intro e he
      rcases mem_append.1 he with he | he
      · exact h.own e he
      · rw [mem_singleton.1 he]
        exact .noCall hcall
  · have hfree : s.requests_in_execution_.lookup address.toUInt32 = none := by
      rw [AssocList.lookup_eq_none]
      intro hmem
      obtain ⟨e, he, hkey⟩ := List.mem_map.1 hmem
      obtain ⟨r, -, rfl⟩ := List.mem_map.1 (h.entries.subset he)
      exact hapart (not_not.1 hcall) _ he hkey
    have hkeys : address.toUInt32 ∉ executing.map fun r => r.address.toUInt32 := by
      intro hmem
      obtain ⟨r, hr, hkey⟩ := List.mem_map.1 hmem
      exact hapart (not_not.1 hcall) (entry r) (h.entries.symm.subset (List.mem_map_of_mem hr)) hkey
    have haddress : address ∉ (executing ++ written).map ServerRequest.address := by
      intro hmem
      obtain ⟨r, hr, rfl⟩ := List.mem_map.1 hmem
      rw [h.lookup_request hr] at hnew
      cases hnew
    rw [guard_of hfree]
    refine ⟨_, rfl, ⟨address, codec, p, s.arrived, [], none⟩ :: executing, written,
      ⟨h.requests.cons _, nodup_cons.2 ⟨haddress, h.addresses⟩, nodup_cons.2 ⟨hkeys, h.keys⟩, h.entries.cons _,
        ?_, h.closures, ?_, h.replied, ?_, ?_, h.own, h.result, hearly⟩⟩
    · exact (perm_append_singleton _ _).trans (h.queries.cons _)
    · intro r hr
      rcases List.mem_cons.1 hr with rfl | hr
      · exact ⟨rfl, fun x hx => Nat.ne_of_lt (h.early x hx)⟩
      · exact h.blank r hr
    · intro number address' hq _
      obtain ⟨rfl, rfl⟩ := Prod.mk.inj (Option.some.inj hq)
      exact ⟨_, mem_cons_self, rfl, rfl⟩
    · rw [List.range_succ]
      exact (h.numbers.cons _).trans (perm_append_singleton _ _).symm

/-- `WriteReply` for a query of the executor. -/
theorem Split.writeReply (h : s.Split (r :: executing) written) {queries : List (Nat × Query)}
    (hqueries : queries.Perm (executing.map query)) (status : ReplyStatus) (result : Bytes) :
    ∃ s', HttpProcessor.writeReply { s with
      queries := queries
      returned := s.returned ++ [(r.number, status, result)] } r.address.toUInt32 status result = some s' ∧ s'.Inv := by
  have hentry := h.lookup_entry mem_cons_self
  have hrequest := h.lookup_request (r := r) (mem_append_left _ mem_cons_self)
  obtain ⟨hblank, hfresh⟩ := h.blank r mem_cons_self
  have hnumbers := h.nodup_numbers
  rw [map_cons, cons_append, cons_append, nodup_cons, mem_append, mem_append] at hnumbers
  rw [HttpProcessor.writeReply]
  dsimp only
  rw [hentry, bind_eq_bind, bind_some]
  rw [hrequest, bind_eq_bind, bind_some, Int32.toInt32_toUInt32, hblank, List.nil_append]
  refine ⟨_, rfl, executing, { r with
    server_data := r.reply status result
    contentType := some (contentType r.codec) } :: written, ⟨?_, ?_, (nodup_cons.1 h.keys).2, h.erase_entry, hqueries,
      ?_, ?_, ?_, ?_, ?_, ?_, ?_, ?_⟩⟩
  · refine Perm.trans ?_ (perm_middle.map fun r : ServerRequest => (r.address, r)).symm
    exact (h.erase_request (.refl _)).cons _
  · exact (perm_middle.map ServerRequest.address).nodup_iff.2 h.addresses
  · exact (perm_append_singleton _ _).trans (h.closures.cons _)
  · intro r' hr'
    obtain ⟨hblank', hfresh'⟩ := h.blank r' (mem_cons_of_mem _ hr')
    refine ⟨hblank', fun x hx => ?_⟩
    rcases mem_append.1 hx with hx | hx
    · exact hfresh' x hx
    · rw [mem_singleton.1 hx]
      intro heq
      refine hnumbers.1 (Or.inl (Or.inl ?_))
      rw [show r.number = r'.number from heq]
      exact List.mem_map_of_mem hr'
  · intro r' hr'
    rcases List.mem_cons.1 hr' with rfl | hr'
    · exact ⟨status, result, mem_append_right _ mem_cons_self, rfl⟩
    · exact (h.replied r' hr').mono
  · intro number address hq hmem
    obtain ⟨q, hq', rfl⟩ := List.mem_map.1 hmem
    have hq'' := hqueries.subset hq'
    obtain ⟨r', hr', hnumber, haddress⟩ := h.queueing q.1 address hq
      (List.mem_map_of_mem (h.queries.symm.subset (mem_cons_of_mem _ hq'')))
    rcases List.mem_cons.1 hr' with rfl | hr'
    · -- the query is not with the executor any more
      obtain ⟨_, hr'', rfl⟩ := List.mem_map.1 hq''
      refine absurd (Or.inl (Or.inl ?_)) hnumbers.1
      rw [hnumber]
      exact List.mem_map_of_mem hr''
    · exact ⟨r', hr', hnumber, haddress⟩
  · exact Perm.trans (Perm.append_right _ perm_middle) h.numbers
  · intro e he
    refine (h.own e he).mono fun heq => hnumbers.1 (Or.inr ?_)
    rw [show r.number = e.1.number from heq]
    exact List.mem_map_of_mem (f := fun e => e.1.number) he
  · rw [map_append]
    refine (perm_append_singleton _ _).nodup_iff.2 (nodup_cons.2 ⟨fun hmem => ?_, h.result⟩)
    obtain ⟨x, hx, hnumber⟩ := List.mem_map.1 hmem
    exact hfresh x hx hnumber
  · intro x hx
    rcases mem_append.1 hx with hx | hx
    · exact h.early x hx
    · rw [mem_singleton.1 hx]
      exact List.mem_range.1 (h.numbers.subset mem_cons_self)

/-- `QueueRPC` has returned `false`. -/
theorem Split.queueFailed (h : s.Split (r :: executing) written) :
    ∃ s', s.queueFailed r.number r.address = some s' ∧ s'.Inv := by
  have hrequest := h.lookup_request (r := r) (mem_append_left _ mem_cons_self)
  obtain ⟨-, hfresh⟩ := h.blank r mem_cons_self
  have hnumbers := h.nodup_numbers
  rw [HttpProcessor.queueFailed, replyWithStatus]
  rw [hrequest, bind_eq_bind, bind_some]
  refine ⟨_, rfl, executing, written, ⟨h.erase_request (.refl _), (nodup_cons.1 h.addresses).2,
    (nodup_cons.1 h.keys).2, h.erase_entry, ?_, h.closures, fun r' hr' => h.blank r' (mem_cons_of_mem _ hr'),
    h.replied, nofun, ?_, ?_, h.result, h.early⟩⟩
  · have hqueries := h.queries
    refine AssocList.eraseP_perm hqueries ((h.queries.map Prod.fst).nodup_iff.2 ?_)
    rw [List.map_map]
    exact (h.nodup_numbers.of_append_left).of_append_left
  · rw [map_append, ← append_assoc]
    exact (perm_append_singleton _ _).trans h.numbers
  · intro e he
    rcases mem_append.1 he with he | he
    · exact h.own e he
    · rw [mem_singleton.1 he]
      exact .refused hfresh

/-- The selector sends a reply. -/
theorem Split.reply (h : s.Split executing (r :: written)) {closures : List (UInt64 × HttpReturnCode)}
    (hclosures : closures.Perm (written.map fun r => (r.address, .ok))) :
    ∃ s', HttpProcessor.replyWithStatus { s with closures := closures } r.address .ok = some s' ∧ s'.Inv := by
  have hrequest := h.lookup_request (r := r) (mem_append_right _ mem_cons_self)
  rw [replyWithStatus]
  rw [hrequest, bind_eq_bind, bind_some]
  refine ⟨_, rfl, executing, written, ⟨h.erase_request perm_middle, ?_, h.keys, h.entries, h.queries, hclosures,
    h.blank, fun r' hr' => h.replied r' (mem_cons_of_mem _ hr'), h.queueing, ?_, ?_, h.result, h.early⟩⟩
  · exact (nodup_cons.1 ((perm_middle.map ServerRequest.address).nodup_iff.1 h.addresses)).2
  · refine Perm.trans ?_ h.numbers
    rw [map_append, ← append_assoc, map_cons]
    refine (perm_append_singleton _ _).trans ?_
    rw [← cons_append]
    exact Perm.append_right _ perm_middle.symm
  · intro e he
    rcases mem_append.1 he with he | he
    · exact h.own e he
    · rw [mem_singleton.1 he]
      exact .replied (h.replied r mem_cons_self)

/-- One step. -/
theorem Inv.step (h : s.Inv) (e : Event) (hapart : s.KeysApart e) : ∃ s', s.step e = some s' ∧ s'.Inv := by
  cases e with
  | request address codec p =>
    rw [HttpProcessor.step]
    split_ifs with hmay
    · exact h.processHttpRequest hmay.2 codec hapart
    · exact ⟨s, rfl, h⟩
  | queued success =>
    rw [HttpProcessor.step]
    obtain ⟨executing, written, hsplit⟩ := id h
    cases hqueueing : s.queueing with
    | none => exact ⟨s, rfl, h⟩
    | some call =>
      obtain ⟨number, address⟩ := call
      dsimp only
      split_ifs with hsuccess hthere
      · exact ⟨_, rfl, executing, written, hsplit.1, hsplit.2, hsplit.3, hsplit.4, hsplit.5, hsplit.6, hsplit.7,
          hsplit.8, nofun, hsplit.10, hsplit.11, hsplit.12, hsplit.13⟩
      · obtain ⟨q, hq⟩ := Option.isSome_iff_exists.1 hthere
        obtain ⟨r, hr, rfl, rfl⟩ := hsplit.queueing number address hqueueing
          (List.mem_map_of_mem (f := Prod.fst) (AssocList.mem_of_lookup hq))
        obtain ⟨front, rest, rfl⟩ := List.append_of_mem hr
        exact (hsplit.perm List.perm_middle (.refl _)).queueFailed
      · exact ⟨s, rfl, h⟩
  | result i status result =>
    rw [HttpProcessor.step]
    cases hget : s.queries[i]? with
    | none => exact ⟨s, rfl, h⟩
    | some item =>
      obtain ⟨executing, written, hsplit⟩ := h
      obtain ⟨r, hr, rfl⟩ := List.mem_map.1 (hsplit.queries.subset (List.mem_of_getElem? hget))
      obtain ⟨front, rest, rfl⟩ := List.append_of_mem hr
      have hmiddle : (front ++ r :: rest).Perm (r :: (front ++ rest)) := List.perm_middle
      have hmoved := hsplit.perm hmiddle (.refl _)
      refine hmoved.writeReply ?_ status result
      obtain ⟨hlt, hitem⟩ := List.getElem?_eq_some_iff.1 hget
      have hperm := (List.getElem_cons_eraseIdx_perm hlt).trans hmoved.queries
      rw [hitem, List.map_cons] at hperm
      exact hperm.cons_inv
  | reply =>
    rw [HttpProcessor.step]
    cases hclosures : s.closures with
    | nil => exact ⟨s, rfl, h⟩
    | cons closure closures =>
      obtain ⟨executing, written, hsplit⟩ := id h
      split_ifs with hqueueing
      · have hmem : closure ∈ s.closures := by rw [hclosures]; exact List.mem_cons_self
        obtain ⟨r, hr, rfl⟩ := List.mem_map.1 (hsplit.closures.subset hmem)
        obtain ⟨front, rest, rfl⟩ := List.append_of_mem hr
        have hmiddle : (front ++ r :: rest).Perm (r :: (front ++ rest)) := List.perm_middle
        have hmoved := hsplit.perm (.refl _) hmiddle
        have hperm := hmoved.closures
        rw [hclosures, List.map_cons] at hperm
        exact hmoved.reply hperm.cons_inv
      · exact ⟨s, rfl, h⟩

/-! ## Runs -/

/-- In every run in which the keys stay apart, no check fails and every request gets its own reply. -/
theorem replies_reach_their_requests (events : List Event) (hapart : Along HttpProcessor.step KeysApart {} events) :
    ∃ s, run HttpProcessor.step {} events = some s ∧ s.RepliesOwn := by
  obtain ⟨s, hrun, hinv⟩ := run_along (I := Inv) (fun s e h hapart => h.step e hapart) inv_init hapart
  exact ⟨s, hrun, hinv.repliesOwn⟩

/-- Two requests whose results come in the other order, the second one within `QueueRPC`, and one that is refused. -/
def twoRequests : List Event :=
  [.request 0x7f0000001000 .json { header := ⟨1, .call⟩ }, .queued true,
    .request 0x7f0000002000 .binary { header := ⟨1, .call⟩ }, .result 1 .success [1], .queued true, .reply, .result 0 .systemErr [], .request 0x7f0000003000 .json {},
    .queued false, .reply]

theorem replies_reach_two_requests : ∃ s, run HttpProcessor.step {} twoRequests = some s ∧ s.RepliesOwn :=
  replies_reach_their_requests twoRequests (by decide +kernel)

/-- The addresses of two requests agree in the lower half. -/
theorem keys_collide : ¬ ∀ events : List Event, ∃ s, run HttpProcessor.step {} events = some s ∧ s.RepliesOwn := by
  intro h
  obtain ⟨s, hrun, -⟩ := h [.request 0x7f0000001000 .json {}, .queued true, .request 0x7f0100001000 .json {}]
  have habort : (run step {} [.request 0x7f0000001000 .json {}, .queued true,
      .request 0x7f0100001000 .json {}]).isNone = true := by decide +kernel
  rw [hrun] at habort
  cases habort

end HttpProcessor

end Whispercast.Rpc
