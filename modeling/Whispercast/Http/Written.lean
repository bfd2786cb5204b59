import Whispercast.Http.ReplyHeader

/-!
# What a reply looks like

The output of a reply: the text of its header, and the body as it is or cut into chunks (`produce_sized`,
`produce_chunked`). The header that is written has the one framing field that belongs to the way of sending, if its
application has spelled these names only in their normal form (`Composed`).
-/

namespace Whispercast.Http

open Io Library Header List

/-! ## Headers -/

namespace Header

/-- A header that an application has filled in: it can be sent, its fields are a map, and the names that frame a
message stand there in their normal form only. -/
structure Composed (h : Header) : Prop where
  sendable : Sendable h
  sorted : (AssocList.keys h.fields).Pairwise (· < ·)
  framing : ∀ e ∈ h.fields,
    normalizeFieldName e.1 = kHeaderTransferEncoding ∨ normalizeFieldName e.1 = kHeaderContentEncoding ∨
      normalizeFieldName e.1 = kHeaderContentLength → e.1 = normalizeFieldName e.1

variable {h : Header}

theorem Composed.setVersion (hh : Composed h) (v : HttpVersion) : Composed { h with httpVersion := v } :=
  ⟨⟨hh.sendable.type, hh.sendable.reason, hh.sendable.fields, hh.sendable.verbatim⟩, hh.sorted, hh.framing⟩

theorem Composed.clearField (hh : Composed h) (name : Bytes) : Composed (h.clearField name) := by
  have hmem : ∀ e ∈ (h.clearField name).fields, e ∈ h.fields := fun e he => mem_of_mem_filter he
  refine ⟨⟨hh.sendable.type, hh.sendable.reason, fun e he => hh.sendable.fields e (hmem e he),
    hh.sendable.verbatim⟩, ?_, fun e he => hh.framing e (hmem e he)⟩
  exact hh.sorted.sublist (filter_sublist.map _)

/-- A framing name that was cleared is not read. -/
theorem Composed.clearField_ne (hh : Composed h) (name : Bytes)
    (hname : name = kHeaderTransferEncoding ∨ name = kHeaderContentEncoding ∨ name = kHeaderContentLength) :
    ∀ e ∈ (h.clearField name).fields, normalizeFieldName e.1 ≠ name := by
  intro e he heq
  obtain ⟨hmem, hne⟩ := mem_filter.1 he
  have hself := hh.framing e hmem (by rw [heq]; exact hname)
  rw [heq] at hself
  exact absurd hself (of_decide_eq_true hne)

theorem addField_fields {name content : Bytes} (hname : isValidFieldName name = true)
    (hcontent : isValidFieldContent content = true) :
    (h.addField name content true false).fields = AssocList.setSorted name content h.fields := by
  simp only [addField, addFieldTo, hname, hcontent, Bool.not_true, Bool.or_self, Bool.false_eq_true, if_false,
    Bool.true_or, if_true]
  cases h.fields.lookup name <;> rfl

/-- A framing field that is set is the only one of its name that is read. -/
theorem Composed.addField (hh : Composed h) (name content : Bytes)
    (hname : name = kHeaderTransferEncoding ∨ name = kHeaderContentLength)
    (hcontent : isValidFieldContent content = true) (hlf : 10 ∉ content) :
    Sendable (h.addField name content true false) ∧
      ∃ pre post, (h.addField name content true false).fields = pre ++ (name, content) :: post ∧
        ∀ e ∈ pre ++ post, e ∈ h.fields ∧ normalizeFieldName e.1 ≠ name := by
  have hvalid : isValidFieldName name = true := by
    rcases hname with rfl | rfl <;> decide
  obtain ⟨pre, post, hsplit, hother⟩ := AssocList.setSorted_split name content hh.sorted
  have hfields : (h.addField name content true false).fields = pre ++ (name, content) :: post :=
    (addField_fields hvalid hcontent).trans hsplit
  refine ⟨⟨hh.sendable.type, hh.sendable.reason, ?_, hh.sendable.verbatim⟩, pre, post, hfields, ?_⟩
  · intro e he
    rw [hfields, mem_append, mem_cons] at he
    rcases he with he | rfl | he
    · exact hh.sendable.fields e (hother e (mem_append_left _ he)).1
    · exact ⟨hvalid, hcontent, hlf⟩
    · exact hh.sendable.fields e (hother e (mem_append_right _ he)).1
  · intro e he
    obtain ⟨hmem, hne⟩ := hother e he
    refine ⟨hmem, fun heq => hne ?_⟩
    rw [hh.framing e hmem (by rw [heq]; rcases hname with rfl | rfl <;> simp), heq]

end Header

/-! ## Chunks -/

/-- A chunk as it is written. -/
def chunkText (d : Bytes) : Bytes := ascii "0" ++ Numeral.numeral 16 d.length ++ crlf ++ d ++ crlf

/-- The end of a chunked body. -/
def lastText : Bytes := ascii "0\r\n\r\n"

/-- The data cut into pieces of `maxSize` bytes. -/
def cut (maxSize : Nat) : Nat → Bytes → List Bytes
  | 0, _ => []
  | n + 1, d => if d = [] then [] else d.take maxSize :: cut maxSize n (d.drop maxSize)

/-- The maximal size of a chunk as it reaches `BufferAppendChunk`. -/
def chunkSize (maxChunkSize : Int) : Nat :=
  (toUint32 (if maxChunkSize ≤ 0 then Request.kMaxInt32 else maxChunkSize)).toNat

/-- The chunks that one call makes of its data. -/
def chunksOf (maxChunkSize : Int) (d : Bytes) : List Bytes := cut (chunkSize maxChunkSize) (d.length + 1) d

theorem cut_flatten {maxSize : Nat} (hpos : 0 < maxSize) {n : Nat} {d : Bytes} (hn : d.length < n) :
    (cut maxSize n d).flatten = d := by
  induction n generalizing d with
  | zero => exact absurd hn (Nat.not_lt_zero _)
  | succ n ih =>
    rw [cut]
    split_ifs with hd
    · rw [hd, flatten_nil]
    · have hlen : 0 < d.length := length_pos_iff.2 hd
      rw [flatten_cons, ih (by rw [length_drop]; omega), take_append_drop]

theorem mem_cut {maxSize : Nat} (hpos : 0 < maxSize) {n : Nat} {d c : Bytes} (hc : c ∈ cut maxSize n d) :
    c ≠ [] ∧ c.length ≤ d.length := by
  induction n generalizing d with
  | zero => cases hc
  | succ n ih =>
    rw [cut] at hc
    split_ifs at hc with hd
    · cases hc
    · rcases mem_cons.1 hc with rfl | hc
      · refine ⟨?_, ?_⟩
        · rw [ne_eq, take_eq_nil_iff, not_or]
          exact ⟨Nat.ne_of_gt hpos, hd⟩
        · rw [length_take]
          exact Nat.min_le_right _ _
      · obtain ⟨hne, hle⟩ := ih hc
        rw [length_drop] at hle
        exact ⟨hne, by omega⟩

namespace Request

theorem bufferAppendChunk_eq (d : Bytes) (maxSize : Nat) :
    bufferAppendChunk d true maxSize = (chunkText (d.take maxSize), d.drop maxSize) := by
  have htake : d.take (min maxSize d.length) = d.take maxSize := by
    rw [take_eq_take_iff, Nat.min_assoc, Nat.min_self]
  have hdrop : d.drop (min maxSize d.length) = d.drop maxSize := by
    by_cases hshort : d.length ≤ maxSize
    · rw [Nat.min_eq_right hshort, drop_length, drop_of_length_le hshort]
    · rw [Nat.min_eq_left (by omega)]
  rw [bufferAppendChunk, if_pos rfl, if_pos rfl, htake, hdrop, chunkText, length_take]

/-- The loop writes the data chunk by chunk. -/
theorem appendChunks_eq {maxSize : Nat} (hpos : 0 < maxSize) {n : Nat} {d : Bytes} (hn : d.length < n) :
    appendChunks true maxSize n d = some ((cut maxSize n d).flatMap chunkText) := by
  induction n generalizing d with
  | zero => exact absurd hn (Nat.not_lt_zero _)
  | succ n ih =>
    rw [appendChunks, cut]
    split_ifs with hd
    · rfl
    · have hlen : 0 < d.length := length_pos_iff.2 hd
      rw [bufferAppendChunk_eq]
      dsimp only
      rw [ih (by rw [length_drop]; omega)]
      rfl

/-- A maximal size of 0 takes nothing, for ever. -/
theorem appendChunks_zero (n : Nat) {d : Bytes} (hd : d ≠ []) : appendChunks true 0 n d = none := by
  induction n with
  | zero => rfl
  | succ n ih =>
    rw [appendChunks, if_neg hd, bufferAppendChunk_eq]
    dsimp only
    rw [drop_zero, ih]
    rfl

/-- The client understands chunks. -/
def ClientChunks (req : Request) : Prop := HttpVersion.v1_1.toNat ≤ req.clientHeader.httpVersion.toNat

variable {req : Request} {maxChunkSize : Int}

theorem ClientChunks.encodes (hclient : ClientChunks req) :
    (true && decide (HttpVersion.v1_1.toNat ≤ req.clientHeader.httpVersion.toNat)) = true := by
  rw [Bool.true_and]
  exact decide_eq_true hclient

theorem appendServerChunk_last (hbody : req.noServerBodyTransmitted = false) (hclient : ClientChunks req)
    (hdata : req.serverData = []) :
    req.appendServerChunk true maxChunkSize = some ({ req with inChunkEncoding := false }, lastText) := by
  rw [appendServerChunk, hbody, hclient.encodes, guard, if_pos (by rfl)]
  simp only [appendChunkHelper, hdata, if_true, Option.pure_def, Option.bind_eq_bind, Option.bind_some]
  rfl

theorem appendServerChunk_data (req : Request) (hbody : req.noServerBodyTransmitted = false) (hclient : ClientChunks req)
    (hdata : req.serverData ≠ []) (hpos : 0 < chunkSize maxChunkSize) :
    req.appendServerChunk true maxChunkSize =
      some ({ req with serverData := [] }, (chunksOf maxChunkSize req.serverData).flatMap chunkText) := by
  have hloop := appendChunks_eq hpos (Nat.lt_succ_self req.serverData.length)
  rw [chunkSize] at hloop
  rw [appendServerChunk, hbody, hclient.encodes, guard, if_pos (by rfl)]
  simp only [appendChunkHelper, if_neg hdata, Option.pure_def, Option.bind_eq_bind, Option.bind_some]
  rw [hloop]
  rfl

theorem appendServerChunk_stuck (hdata : req.serverData ≠ []) (hclient : ClientChunks req)
    (hzero : chunkSize maxChunkSize = 0) : req.appendServerChunk true maxChunkSize = none := by
  have hloop := appendChunks_zero (req.serverData.length + 1) hdata
  rw [← hzero, chunkSize] at hloop
  rw [appendServerChunk, hclient.encodes, appendChunkHelper, if_neg hdata]
  dsimp only
  rw [hloop]
  cases hbody : req.noServerBodyTransmitted <;> rfl

theorem appendServerChunk_noBody (hbody : req.noServerBodyTransmitted = true) :
    req.appendServerChunk true maxChunkSize = none := by
  rw [appendServerChunk, hbody]
  rfl

/-- A maximal size for which the loop over the data ends. -/
def Cuts (maxChunkSize : Int) (data : List Bytes) : Prop := 0 < chunkSize maxChunkSize ∨ ∀ d ∈ data, d = []

instance (maxChunkSize : Int) (data : List Bytes) : Decidable (Cuts maxChunkSize data) :=
  inferInstanceAs (Decidable (_ ∨ _))

variable {calls : List Bytes}

theorem appendAll_eq (hbody : req.noServerBodyTransmitted = false) (hclient : ClientChunks req)
    (hdata : req.serverData = []) (hcalls : ∀ d ∈ calls, d ≠ []) (hcuts : Cuts maxChunkSize calls) :
    appendAll maxChunkSize calls req =
      some ((calls.flatMap (chunksOf maxChunkSize)).flatMap chunkText ++ lastText) := by
  induction calls with
  | nil =>
    rw [appendAll, appendServerChunk_last hbody hclient hdata]
    rfl
  | cons d calls ih =>
    have hd := hcalls d mem_cons_self
    have hpos : 0 < chunkSize maxChunkSize := hcuts.resolve_right fun hempty => hd (hempty d mem_cons_self)
    have hnew : ({ req with serverData := req.serverData ++ d } : Request) = { req with serverData := d } := by
      rw [hdata, nil_append]
    have hsame : ({ ({ req with serverData := d } : Request) with serverData := [] } : Request) = req := by
      cases req
      simp_all
    rw [appendAll, hnew,
      appendServerChunk_data { req with serverData := d } hbody hclient hd hpos, hsame]
    simp only [Option.bind_eq_bind, Option.bind_some]
    rw [ih (fun d' hd' => hcalls d' (mem_cons_of_mem _ hd')) (Or.inl hpos), Option.bind_some, flatMap_cons,
      flatMap_append, append_assoc]

theorem appendAll_noBody (hbody : req.noServerBodyTransmitted = true) (calls : List Bytes) :
    appendAll maxChunkSize calls req = none := by
  cases calls with
  | nil =>
    rw [appendAll, appendServerChunk_noBody hbody]
    rfl
  | cons d calls =>
    have hbody' : ({ req with serverData := req.serverData ++ d } : Request).noServerBodyTransmitted = true := hbody
    rw [appendAll, appendServerChunk_noBody hbody']
    rfl

theorem appendAll_stuck (hclient : ClientChunks req) (hcalls : ∀ d ∈ calls, d ≠ [])
    (hne : calls ≠ []) (hzero : chunkSize maxChunkSize = 0) : appendAll maxChunkSize calls req = none := by
  cases calls with
  | nil => exact absurd rfl hne
  | cons d calls =>
    have hd : ({ req with serverData := req.serverData ++ d } : Request).serverData ≠ [] :=
      append_ne_nil_of_right_ne_nil _ (hcalls d mem_cons_self)
    rw [appendAll, appendServerChunk_stuck hd hclient hzero]
    rfl

/-! ## Replies -/

/-- The header of a reply with a length. -/
def sizedHeader (req : Request) : Header :=
  let h := req.prepareReply.serverHeader.setChunkedTransfer false
  let code := h.statusCode
  if (100 ≤ code && code < 200) || code = .noContent || code = .notModified then h
  else h.addField kHeaderContentLength (intToString req.serverData.length) true false

/-- The header of a reply in chunks. -/
def chunkedHeader (req : Request) : Header := req.prepareReply.serverHeader.setChunkedTransfer true

/-- The chunks of a reply: of the data that is there, and of that of the calls. -/
def sentChunks (req : Request) (maxChunkSize : Int) (calls : List Bytes) : List Bytes :=
  chunksOf maxChunkSize req.serverData ++ calls.flatMap (chunksOf maxChunkSize)

theorem prepareReply_statusCode (req : Request) :
    req.prepareReply.serverHeader.statusCode = req.serverHeader.statusCode := by
  simp only [prepareReply, clearField]
  split_ifs <;> rfl

theorem setChunkedTransfer_statusCode (h : Header) (chunked : Bool) :
    (h.setChunkedTransfer chunked).statusCode = h.statusCode := by
  cases chunked <;> rfl

/-- What is done to the header does not change whether there is a body. -/
theorem noServerBodyTransmitted_chunked (req : Request) :
    ({ req.prepareReply with serverHeader := req.chunkedHeader } : Request).noServerBodyTransmitted =
      req.noServerBodyTransmitted := by
  have hcode : req.chunkedHeader.statusCode = req.serverHeader.statusCode := by
    rw [chunkedHeader, setChunkedTransfer_statusCode, prepareReply_statusCode]
  have hclient : req.prepareReply.clientHeader = req.clientHeader := rfl
  simp only [noServerBodyTransmitted, hcode, hclient]

theorem produce_sized (maxChunkSize : Int) (hfree : req.inChunkEncoding = false) (htype : req.serverHeader.firstLineType = .statusLine) :
    produce req maxChunkSize .sized = some (req.sizedHeader.toBytes ++ req.serverData) := by
  rw [produce, appendServerReply, hfree, guard, if_pos (by rfl), guard, if_pos htype]
  rfl

/-- The reply in chunks up to the first call. -/
theorem appendServerReply_chunked (maxChunkSize : Int) (hfree : req.inChunkEncoding = false)
    (htype : req.serverHeader.firstLineType = .statusLine) (hclient : ClientChunks req) :
    req.appendServerReply true true maxChunkSize =
      let req' : Request := { req.prepareReply with serverHeader := req.chunkedHeader }
      if req.noServerBodyTransmitted then some (req', req.chunkedHeader.toBytes)
      else if req.serverData = [] then some ({ req' with inChunkEncoding := true }, req.chunkedHeader.toBytes)
      else (appendServerChunk { req' with inChunkEncoding := true } true maxChunkSize).bind fun r =>
        some (r.1, req.chunkedHeader.toBytes ++ r.2) := by
  have hdeco : (true && decide (HttpVersion.v1_1.toNat ≤ req.prepareReply.clientHeader.httpVersion.toNat)) = true := by
    rw [Bool.true_and]
    exact decide_eq_true hclient
  have hbody := noServerBodyTransmitted_chunked req
  have hdata : req.prepareReply.serverData = req.serverData := rfl
  rw [appendServerReply, hfree, guard, if_pos (by rfl), guard, if_pos htype]
  simp only [Option.pure_def, Option.bind_eq_bind, Option.bind_some, if_true, hdeco]
  rw [chunkedHeader] at hbody ⊢
  rw [hbody, hdata]

section

variable (hfree : req.inChunkEncoding = false) (htype : req.serverHeader.firstLineType = .statusLine)
    (hclient : ClientChunks req)

include hfree htype hclient

theorem produce_chunked_noBody (hbody : req.noServerBodyTransmitted = true) (calls : Option (List Bytes)) :
    produce req maxChunkSize (.chunked calls) =
      match calls with
      | none => some req.chunkedHeader.toBytes
      | some _ => none := by
  have hreply := appendServerReply_chunked maxChunkSize hfree htype hclient
  rw [hbody, if_pos rfl] at hreply
  cases calls with
  | none =>
    rw [produce, hreply]
    rfl
  | some calls =>
    rw [produce, hreply]
    simp only [Option.bind_eq_bind, Option.bind_some]
    rw [appendAll_noBody (by rw [noServerBodyTransmitted_chunked, hbody])]
    rfl

theorem produce_chunked (hbody : req.noServerBodyTransmitted = false) (hcalls : ∀ d ∈ calls, d ≠ [])
    (hcuts : Cuts maxChunkSize (req.serverData :: calls)) :
    produce req maxChunkSize (.chunked (some calls)) =
      some (req.chunkedHeader.toBytes ++ ((req.sentChunks maxChunkSize calls).flatMap chunkText ++ lastText)) := by
  have hreply := appendServerReply_chunked maxChunkSize hfree htype hclient
  rw [hbody, if_neg Bool.false_ne_true] at hreply
  have hbody' : ∀ data, ({ req.prepareReply with
      serverHeader := req.chunkedHeader, serverData := data, inChunkEncoding := true } : Request).noServerBodyTransmitted
      = false := fun _ => (noServerBodyTransmitted_chunked req).trans hbody
  have hcuts' : Cuts maxChunkSize calls := hcuts.imp_right fun hempty d hd => hempty d (mem_cons_of_mem _ hd)
  have hrest : appendAll maxChunkSize calls
      { req.prepareReply with serverHeader := req.chunkedHeader, serverData := [], inChunkEncoding := true } =
        some ((calls.flatMap (chunksOf maxChunkSize)).flatMap chunkText ++ lastText) :=
    appendAll_eq (hbody' []) hclient rfl hcalls hcuts'
  by_cases hdata : req.serverData = []
  · rw [if_pos hdata] at hreply
    have hsame : ({ req.prepareReply with serverHeader := req.chunkedHeader, inChunkEncoding := true } : Request) =
        { req.prepareReply with serverHeader := req.chunkedHeader, serverData := [], inChunkEncoding := true } := by
      rw [← hdata]
      rfl
    have hempty : chunksOf maxChunkSize [] = [] := rfl
    rw [produce, hreply, hsame]
    simp only [Option.bind_eq_bind, Option.bind_some]
    rw [hrest, sentChunks, hdata, hempty]
    rfl
  · have hpos : 0 < chunkSize maxChunkSize :=
      hcuts.resolve_right fun hempty => hdata (hempty _ mem_cons_self)
    have hchunk := appendServerChunk_data { req.prepareReply with
      serverHeader := req.chunkedHeader, serverData := req.serverData, inChunkEncoding := true }
      (hbody' req.serverData) hclient hdata hpos
    have hsame : ({ req.prepareReply with serverHeader := req.chunkedHeader, inChunkEncoding := true } : Request) =
        { req.prepareReply with
          serverHeader := req.chunkedHeader, serverData := req.serverData, inChunkEncoding := true } := rfl
    rw [if_neg hdata, hsame, hchunk, Option.bind_some] at hreply
    rw [produce, hreply]
    simp only [Option.bind_eq_bind, Option.bind_some]
    rw [hrest, Option.bind_some, sentChunks, flatMap_append]
    simp only [append_assoc]

/-- A maximal size that is a multiple of 2³² never ends the loop. -/
theorem produce_chunked_stuck (hcalls : ∀ d ∈ calls, d ≠ []) (hcuts : ¬ Cuts maxChunkSize (req.serverData :: calls)) :
    produce req maxChunkSize (.chunked (some calls)) = none := by
  cases hbody : req.noServerBodyTransmitted with
  | true => exact produce_chunked_noBody hfree htype hclient hbody (some calls)
  | false =>
    obtain ⟨hzero, hdata⟩ := not_or.1 hcuts
    replace hzero : chunkSize maxChunkSize = 0 := Nat.eq_zero_of_not_pos hzero
    have hreply := appendServerReply_chunked maxChunkSize hfree htype hclient
    rw [hbody, if_neg Bool.false_ne_true] at hreply
    by_cases hempty : req.serverData = []
    · have hne : calls ≠ [] := by
        rintro rfl
        exact hdata fun d hd => by rwa [mem_singleton.1 hd]
      rw [if_pos hempty] at hreply
      rw [produce, hreply]
      simp only [Option.bind_eq_bind, Option.bind_some]
      rw [appendAll_stuck (by exact hclient) hcalls hne hzero]
      rfl
    · rw [if_neg hempty, appendServerChunk_stuck (by exact hempty) (by exact hclient) hzero] at hreply
      rw [produce, hreply]
      rfl

end

/-! ## The framing fields -/

/-- The fields of a header as they are read. -/
def readFields (h : Header) : List (Bytes × Bytes) := h.fields.foldl Header.storeField []

theorem prepareReply_composed (hh : Header.Composed req.serverHeader) : Header.Composed req.prepareReply.serverHeader ∧
      ∀ e ∈ req.prepareReply.serverHeader.fields, Header.normalizeFieldName e.1 ≠ kHeaderContentEncoding := by
  have hversion : ∀ h : Header, Composed h →
      Composed (h.clearField kHeaderContentEncoding) ∧
        ∀ e ∈ (h.clearField kHeaderContentEncoding).fields, normalizeFieldName e.1 ≠ kHeaderContentEncoding :=
    fun h hh => ⟨hh.clearField _, hh.clearField_ne _ (Or.inr (Or.inl rfl))⟩
  rw [prepareReply]
  split_ifs
  · exact hversion _ ((hh.setVersion _).setVersion _)
  · exact hversion _ (hh.setVersion _)
  · exact hversion _ (hh.setVersion _)
  · exact hversion _ hh

/-- The header of a reply in chunks says so, and nothing of another encoding. -/
theorem chunkedHeader_spec (hh : Header.Composed req.serverHeader) : Header.Sendable req.chunkedHeader ∧
      (readFields req.chunkedHeader).lookup kHeaderTransferEncoding = some (ascii "chunked") ∧
      (readFields req.chunkedHeader).lookup kHeaderContentEncoding = none := by
  obtain ⟨hcomposed, hplain⟩ := prepareReply_composed hh
  obtain ⟨hsendable, pre, post, hfields, hother⟩ := hcomposed.addField kHeaderTransferEncoding
    (ascii "chunked") (Or.inl rfl) (by decide) (by decide)
  refine ⟨hsendable, ?_, ?_⟩
  · have hlookup := lookup_stored kHeaderTransferEncoding
      (e := (kHeaderTransferEncoding, ascii "chunked")) (by decide) (fun e he => (hother e he).2)
    rw [← hfields] at hlookup
    exact hlookup.trans (by decide)
  · refine (lookup_stored_of_ne ?_ []).trans rfl
    intro e he
    have hmem : e ∈ pre ++ (kHeaderTransferEncoding, ascii "chunked") :: post := hfields ▸ he
    rw [mem_append, mem_cons] at hmem
    rcases hmem with he | rfl | he
    · exact hplain e (hother e (mem_append_left _ he)).1
    · decide
    · exact hplain e (hother e (mem_append_right _ he)).1

/-- A number is shown as it is. -/
theorem shownContent_intToString (n : Nat) : Header.shownContent (intToString n) = intToString n := by
  have hge : ∀ c ∈ intToString n, 48 ≤ c := by
    intro c hc
    exact Numeral.le_of_isDigit (by decide)
      (Numeral.isDigit_of_mem_numeral (by decide : 1 < 10) (by decide) hc)
  have htrim : MemoryStream.strTrimCRLF (intToString n) = intToString n := by
    rw [MemoryStream.strTrimCRLF, rdropWhile_eq_self_iff]
    intro hne hbreak
    have hlast := hge _ (getLast_mem hne)
    simp only [Bool.or_eq_true, beq_iff_eq] at hbreak
    rcases hbreak with heq | heq <;> rw [heq] at hlast <;> exact absurd hlast (by decide)
  rw [shownContent, htrim]
  obtain ⟨c, s, hcons⟩ := exists_cons_of_ne_nil (intToString_ne_nil n)
  have hc := hge c (by rw [hcons]; exact mem_cons_self)
  rw [hcons, dropWhile_cons_of_neg]
  rw [isLwfChar]
  simp only [Bool.or_eq_true, decide_eq_true_iff]
  rintro (((rfl | rfl) | rfl) | rfl) <;> exact absurd hc (by decide)

/-- A number is a content that `AddField` accepts. -/
theorem isValidFieldContent_intToString (n : Nat) : Header.isValidFieldContent (intToString n) = true := by
  rw [isValidFieldContent, all_eq_true]
  intro c hc
  have hdigit := Numeral.isDigit_of_mem_numeral (by decide : 1 < 10) (by decide) hc
  have hge := Numeral.le_of_isDigit (by decide) hdigit
  have hctl : isCtlChar c = false := by
    rw [isCtlChar, Bool.or_eq_false_iff, decide_eq_false_iff_not, decide_eq_false_iff_not]
    refine ⟨fun hle => ?_, ?_⟩
    · exact absurd (UInt8.le_trans hge hle) (by decide)
    · rintro rfl
      exact absurd hdigit (by decide)
  rw [hctl]
  rfl

/-- The header of a reply with a length has no transfer encoding, and no other encoding; it gives the length, unless
its status code forbids a body. -/
theorem sizedHeader_spec (hh : Header.Composed req.serverHeader) : Header.Sendable req.sizedHeader ∧
      (readFields req.sizedHeader).lookup kHeaderTransferEncoding = none ∧
      (readFields req.sizedHeader).lookup kHeaderContentEncoding = none ∧
      (req.noServerBodyTransmitted = false →
        (readFields req.sizedHeader).lookup kHeaderContentLength = some (intToString req.serverData.length)) := by
  obtain ⟨hcomposed, hplain⟩ := prepareReply_composed hh
  have hidentity := hcomposed.clearField_ne kHeaderTransferEncoding (Or.inl rfl)
  have hcomposed' := hcomposed.clearField kHeaderTransferEncoding
  have hplain' : ∀ e ∈ (req.prepareReply.serverHeader.clearField kHeaderTransferEncoding).fields,
      normalizeFieldName e.1 ≠ kHeaderContentEncoding := fun e he => hplain e (mem_of_mem_filter he)
  rw [sizedHeader]
  simp only [setChunkedTransfer, Bool.false_eq_true, if_false]
  split_ifs with hcode
  · refine ⟨hcomposed'.sendable, (lookup_stored_of_ne hidentity []).trans rfl,
      (lookup_stored_of_ne hplain' []).trans rfl, ?_⟩
    intro hbody
    have hstatus : (req.prepareReply.serverHeader.clearField kHeaderTransferEncoding).statusCode =
      req.serverHeader.statusCode := prepareReply_statusCode req
    rw [hstatus] at hcode
    have htrue : req.noServerBodyTransmitted = true := by
      rw [noServerBodyTransmitted]
      simp only [Bool.or_eq_true, decide_eq_true_iff] at hcode ⊢
      rcases hcode with (hcode | hcode) | hcode
      · exact Or.inl (Or.inl (Or.inr hcode))
      · exact Or.inl (Or.inr hcode)
      · exact Or.inr hcode
    rw [hbody] at htrue
    cases htrue
  · obtain ⟨hsendable, _, _, hfields, hother⟩ := hcomposed'.addField kHeaderContentLength
      (intToString req.serverData.length) (Or.inr rfl) (isValidFieldContent_intToString _)
      (not_mem_intToString _ (by decide))
    have hmem : ∀ e ∈ ((req.prepareReply.serverHeader.clearField kHeaderTransferEncoding).addField
        kHeaderContentLength (intToString req.serverData.length) true false).fields,
        e.1 = kHeaderContentLength ∨ e ∈ (req.prepareReply.serverHeader.clearField kHeaderTransferEncoding).fields := by
      intro e he
      rw [hfields, mem_append, mem_cons] at he
      rcases he with he | rfl | he
      · exact Or.inr (hother e (mem_append_left _ he)).1
      · exact Or.inl rfl
      · exact Or.inr (hother e (mem_append_right _ he)).1
    refine ⟨hsendable, (lookup_stored_of_ne ?_ []).trans rfl, (lookup_stored_of_ne ?_ []).trans rfl, ?_⟩
    · intro e he
      rcases hmem e he with hname | he
      · rw [hname]
        decide
      · exact hidentity e he
    · intro e he
      rcases hmem e he with hname | he
      · rw [hname]
        decide
      · exact hplain' e he
    · intro _
      have hlookup := lookup_stored kHeaderContentLength
        (e := (kHeaderContentLength, intToString req.serverData.length))
        (show normalizeFieldName kHeaderContentLength = _ by decide) (fun e he => (hother e he).2)
      rw [← hfields] at hlookup
      rw [readFields, hlookup, shownContent_intToString]

end Request

end Whispercast.Http
