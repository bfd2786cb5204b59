import Whispercast.Http.GzipChunks

/-!
# Gzip replies

A reply with a compressed body in chunks that arrives in pieces. Up to the last piece the parser waits, with less than 18
bytes that it has not given to the decoder; whether the call on the last piece ends the reply with all of its data is
decided by how many these are and by what is unread (`gzip_delivered_iff`).
-/

namespace Whispercast.Http

open Io Library List Work

variable {γ δ : Type}

namespace Connection

open Header

variable {p : Limits} {z : Zlib γ δ} {m : ChunkedText} {emitted : Nat → Bytes} {c : Connection γ δ}

theorem receive_append (side : Side) (z : Zlib γ δ) (p : Limits) (front later : List Bytes) (c : Connection γ δ) :
    receive side z p (front ++ later) c = (receive side z p front c).bind (receive side z p later) := by
  induction front generalizing c with
  | nil => rfl
  | cons piece front ih =>
    rw [cons_append, receive, receive]
    split_ifs
    · exact ih _
    · cases callLoop side z p 2 (c.arrive piece) with
      | none => rfl
      | some c' => exact ih c'

/-- How the call on a piece ends, when `future` is still to come. -/
def CallAwaits (z : Zlib γ δ) (m : ChunkedText) (future : Bytes) (walk : Option Nat) (c : Connection γ δ) : Prop :=
  (Work.Over z m future (c.work .server) ∧ walk = some c.parser.partialData.length) ∨
    ∃ place, Work.Awaits z m future place (c.work .server) ∧ (future = [] → walk = none)

/-- A call in the middle of the chunks. -/
theorem callLoop_awaits (hm : m.Admitted p) (hz : Gunzips z m.content emitted) {place : Place} {piece future : Bytes}
    (h : Work.Awaits z m (piece ++ future) place (c.work .server)) :
    ∃ c', c.parser.parseState.isFinal = false ∧ callLoop .server z p 2 (c.arrive piece) = some c' ∧
      CallAwaits z m future (place.walk m c.parser.partialData.length) c' := by
  have hchunking := h.chunking
  have hstate := hchunking
  rw [Chunking, parser_work] at hstate
  have hfinal : c.parser.parseState.isFinal = false := by
    rw [← parser_work .server c]
    exact hchunking.isFinal
  have h' : Awaits z m future place ((c.arrive piece).work .server) := by
    rw [work_arrive]
    exact h.arrive
  obtain ⟨r, w, hcall, hturn⟩ := parseChunksLoop_awaits hm hz h' (Nat.lt_add_of_pos_right Nat.two_pos)
  refine ⟨(c.arrive piece).put .server w, hfinal, ?_, ?_⟩
  · rw [callLoop_payload (c := c.arrive piece) .server z p 1 _ _ hfinal,
      parsePayloadInternal_chunking z p h'.chunking, parseChunksInternal, hcall]
    · rfl
    all_goals
      rw [parser_arrive]
      rcases hstate with hs | ⟨hs, -⟩ | hs | hs <;> rw [hs] <;> exact ParseState.noConfusion
  · rw [CallAwaits, work_put, parser_put]
    exact hturn

/-- The call behind the header of a compressed reply. -/
theorem callLoop_gzip {method : HttpMethod} {h : Header} {now future : Bytes} (hm : m.Admitted p)
    (hz : Gunzips z m.content emitted) (hread : HeaderRead method h now c)
    (hnone : c.request.noServerBodyTransmitted = false)
    (hchunked : ({ h with fields := Request.readFields h } : Header).isChunkedTransfer = true)
    (hgzip : ({ h with fields := Request.readFields h } : Header).isGzipContentEncoding = true)
    (hrest : now ++ future = m.text) :
    ∃ c', callLoop .server z p 1 c = some c' ∧ CallAwaits z m future (m.walk 0 m.chunks) c' := by
  have hparser := hread.parser
  rw [if_neg (by rw [hnone]; exact Bool.false_ne_true)] at hparser
  have hchunked' : (c.work .server).header.isChunkedTransfer = true := by
    rw [isChunkedTransfer, findField, show (c.work .server).header.fields = Request.readFields h from hread.fields]
    exact hchunked
  have hgzip' : (c.work .server).header.isGzipContentEncoding = true := by
    rw [isGzipContentEncoding, findField, show (c.work .server).header.fields = Request.readFields h from hread.fields]
    exact hgzip
  have hwork : ((c.work .server).setParseState .chunkHeadReading).parser =
      RequestParser.cleared.setParseState .chunkHeadReading := by
    rw [Work.setParseState, parser_work, hparser]
    rfl
  have hawaits : Awaits z m future (.head m.chunks) ((c.work .server).setParseState .chunkHeadReading) := by
    refine ⟨⟨rfl, ⟨[], rfl, by rw [hwork]; rfl⟩, by rw [hwork]; rfl⟩, ?_, ⟨[], ?_, ?_⟩,
      by rw [hwork]; exact show 0 < kMinGzipDataSize by decide, ?_, ?_, hgzip', by rw [hwork]; rfl⟩
    · rw [← hread.rest] at hrest
      exact hrest
    · rw [hwork, show ((c.work .server).setParseState .chunkHeadReading).out = [] from hread.empty]
      exact .start
    · rw [hwork]
      rfl
    all_goals
      rw [hwork]
      exact NextChunkExpectation.noConfusion
  obtain ⟨r, w, hcall, hturn⟩ := parseChunksLoop_awaits hm hz hawaits (Nat.lt_add_of_pos_right Nat.two_pos)
  rw [hwork] at hturn
  refine ⟨c.put .server w, ?_, by rw [CallAwaits, work_put, parser_put]; exact hturn⟩
  rw [callLoop_payload .server z p 0, Work.parsePayloadInternal_chunked z p (by rw [parser_work, hparser]; rfl)
    (Work.known_of_gzip hgzip') (Work.known_of_chunked hchunked') hchunked', parseChunksInternal, hcall]
  · rfl
  all_goals
    rw [hparser]
    first | exact ParseState.noConfusion | rfl

/-- While something is to come the reply is not over. -/
theorem CallAwaits.awaits {future : Bytes} {walk : Option Nat} (h : CallAwaits z m future walk c) (hne : future ≠ []) :
    ∃ place, Work.Awaits z m future place (c.work .server) := by
  rcases h with ⟨hover, -⟩ | ⟨place, hawaits, -⟩
  · exact absurd (append_eq_nil_iff.1 hover.rest).2 hne
  · exact ⟨place, hawaits⟩

/-- When all has come the reply is delivered if it is over and all of its data was put out. -/
theorem CallAwaits.delivered_iff {walk : Option Nat} (hz : Gunzips z m.content emitted) (h : CallAwaits z m [] walk c) :
    Delivered (emitted m.content.length) [] c ↔
      ∃ k, walk = some k ∧ emitted (m.content.length - k) = emitted m.content.length := by
  rcases h with ⟨⟨hstate, hrest, taken, hfed, hbody⟩, hwalk⟩ | ⟨_, hawaits, hnone⟩
  · rw [parser_work] at hstate hbody
    rw [append_nil] at hbody hrest
    have hout : c.request.serverData = emitted taken.length := hz.output _ _ _ hfed ⟨_, hbody⟩
    have hlen : m.content.length - c.parser.partialData.length = taken.length := by
      rw [← hbody, length_append]
      omega
    rw [hwalk]
    constructor
    · intro hdelivered
      exact ⟨_, rfl, by rw [hlen, ← hout, hdelivered.body]⟩
    · rintro ⟨k, hk, hall⟩
      cases hk
      rw [hlen] at hall
      exact ⟨by rw [hstate]; rfl, by rw [hstate]; rfl, hout.trans hall, (io_work .server c).symm.trans hrest⟩
  · constructor
    · intro hdelivered
      have hfinal := hawaits.chunking.isFinal
      rw [parser_work, hdelivered.final] at hfinal
      cases hfinal
    · rintro ⟨k, hk, -⟩
      rw [hnone rfl] at hk
      cases hk

/-- Pieces of the body that are not the last. -/
theorem receive_awaits (hm : m.Admitted p) (hz : Gunzips z m.content emitted) {last : Bytes} (hlast : last ≠ [])
    (pieces : List Bytes) {place : Place} (h : Work.Awaits z m (pieces.flatten ++ last) place (c.work .server)) :
    ∃ c' place', receive .server z p pieces c = some c' ∧ Work.Awaits z m last place' (c'.work .server) := by
  induction pieces generalizing c place with
  | nil => exact ⟨c, place, rfl, h⟩
  | cons piece pieces ih =>
    rw [flatten_cons, append_assoc] at h
    obtain ⟨c', hfinal, hcall, hnext⟩ := callLoop_awaits hm hz h
    obtain ⟨place', hawaits⟩ := hnext.awaits (append_ne_nil_of_right_ne_nil _ hlast)
    rw [receive, if_neg (by rw [hfinal]; exact Bool.false_ne_true), hcall]
    exact ih hawaits

/-- Pieces of the header that are not the last. -/
theorem receive_inHeader {isStrict : Bool} {method : HttpMethod} {h : Header} {b tail : Bytes} (z : Zlib γ δ)
    (hh : Sendable h) (hlimits : AdmitsHeader p h.toBytes) (pieces : List Bytes) (hin : InHeader isStrict method b c)
    (htail : b ++ pieces.flatten ++ tail = h.toBytes) (hne : tail ≠ []) :
    ∃ c', receive .server z p pieces c = some c' ∧ InHeader isStrict method (b ++ pieces.flatten) c' := by
  induction pieces generalizing b c with
  | nil => exact ⟨c, rfl, by rwa [flatten_nil, append_nil]⟩
  | cons piece pieces ih =>
    rw [flatten_cons, ← append_assoc] at htail ⊢
    have hnow : b ++ piece ++ (pieces.flatten ++ tail) = h.toBytes := by rw [← htail, append_assoc _ pieces.flatten]
    obtain ⟨_, hcall, hin'⟩ :=
      readServerHeader_waits hh hlimits hin hnow (append_ne_nil_of_right_ne_nil _ hne)
    obtain ⟨c', hrun, hin''⟩ := ih hin' htail
    refine ⟨c', ?_, hin''⟩
    rw [receive, if_neg (by rw [hin.isFinal]; exact Bool.false_ne_true), callLoop, hin.parse z p, hcall]
    exact hrun

/-! ## Replies -/

/-- A reply with a compressed body in chunks, to a request with the given method. -/
structure GzipReply (h : Header) (request : Request) : Prop where
  sendable : Sendable h
  body : ({ request with serverHeader := h } : Request).noServerBodyTransmitted = false
  chunked : ({ h with fields := Request.readFields h } : Header).isChunkedTransfer = true
  gzip : ({ h with fields := Request.readFields h } : Header).isGzipContentEncoding = true

/-- What the call on the last piece decides, from a parser that has begun the header. -/
theorem gzip_started_iff {h : Header} {request : Request} (hreply : GzipReply h request)
    (hheader : AdmitsHeader p h.toBytes) (hm : m.Admitted p) (hz : Gunzips z m.content emitted) (front : List Bytes)
    {last : Bytes} (hlast : last ≠ []) (hpieces : front.flatten ++ last = h.toBytes ++ m.text) :
    ∃ c c', receive .server z p front (⟨.cleared, [], request⟩ : Connection γ δ).startServer = some c ∧
      receive .server z p [last] c = some c' ∧
      (Delivered (emitted m.content.length) [] c' ↔
        ∃ k, m.undecoded (c.io.length + last.length) c.parser.partialData.length m.chunks = some k ∧
          emitted (m.content.length - k) = emitted m.content.length) := by
  have hstart := startServer_inHeader (γ := γ) (δ := δ) request _ rfl
  by_cases hshort : front.flatten.length < h.toBytes.length
  · -- The last piece ends the header, and brings all of the body.
    obtain ⟨tail, htail⟩ : front.flatten <+: h.toBytes :=
      prefix_of_prefix_length_le (hpieces ▸ prefix_append _ _) (prefix_append _ _) (Nat.le_of_lt hshort)
    have hne : tail ≠ [] := by
      rintro rfl
      rw [← htail, append_nil] at hshort
      exact Nat.lt_irrefl _ hshort
    have hbody : last = tail ++ m.text := by
      rw [← htail, append_assoc] at hpieces
      exact append_cancel_left hpieces
    obtain ⟨c, hrun, hin⟩ := receive_inHeader z hreply.sendable hheader front hstart htail hne
    obtain ⟨r, c₁, hcall, hread, hcontinue⟩ := readServerHeader_ends hreply.sendable hheader hin ⟨tail, htail⟩ hpieces
    have hnone : c₁.request.noServerBodyTransmitted = false :=
      Eq.trans (b := ({ request with serverHeader := h } : Request).noServerBodyTransmitted)
        (hread.noServerBodyTransmitted rfl rfl) hreply.body
    obtain ⟨c', hlastCall, hends⟩ := callLoop_gzip hm hz hread hnone hreply.chunked hreply.gzip (append_nil _)
    refine ⟨c, c', hrun, ?_, ?_⟩
    · rw [hnone, Bool.not_false] at hcontinue
      rw [receive, if_neg (by rw [hin.isFinal]; exact Bool.false_ne_true), callLoop, hin.parse z p, hcall]
      dsimp only
      rw [if_pos hcontinue, hlastCall]
      rfl
    · have hpending : c.parser.partialData.length = 0 := by rw [hin.parser]; rfl
      have hle : (m.textOf m.chunks).length ≤ c.io.length + last.length := by
        rw [hbody, length_append]
        show m.text.length ≤ _
        omega
      rw [hpending, ChunkedText.undecoded_of_le m.chunks hle]
      exact hends.delivered_iff hz
  · obtain ⟨rest, hrest⟩ : h.toBytes <+: front.flatten :=
      prefix_of_prefix_length_le (prefix_append _ _) (hpieces ▸ prefix_append _ _)
        (Nat.le_of_not_lt hshort)
    have hbody : rest ++ last = m.text := by
      rw [← hrest, append_assoc] at hpieces
      exact append_cancel_left hpieces
    have hne : h.toBytes ≠ [] := by
      rw [toBytes_eq hreply.sendable]
      exact append_ne_nil_of_right_ne_nil _ (cons_ne_nil _ _)
    obtain ⟨c₁, _, later, hread, hnow, hrun⟩ :=
      receive_header z hreply.sendable hheader front hstart (nil_append _) hne hrest.symm
    have hnone : c₁.request.noServerBodyTransmitted = false :=
      Eq.trans (b := ({ request with serverHeader := h } : Request).noServerBodyTransmitted)
        (hread.noServerBodyTransmitted rfl rfl) hreply.body
    obtain ⟨_, hcall, hnext⟩ := callLoop_gzip hm hz hread hnone hreply.chunked
      hreply.gzip (by rw [← append_assoc, hnow, hbody])
    obtain ⟨_, hawaits⟩ := hnext.awaits (append_ne_nil_of_right_ne_nil _ hlast)
    obtain ⟨c, _, hlater, hawaits'⟩ := receive_awaits hm hz hlast later hawaits
    rw [← append_nil last] at hawaits'
    obtain ⟨c', hfinal, hlastCall, hends⟩ := callLoop_awaits hm hz hawaits'
    refine ⟨c, c', ?_, ?_, ?_⟩
    · rw [hrun, afterHeader, if_neg (by rw [hnone]; exact Bool.false_ne_true), hcall]
      exact hlater
    · rw [receive, if_neg (by rw [hfinal]; exact Bool.false_ne_true), hlastCall]
      rfl
    · have hunread := hawaits'.undecoded_eq c.parser.partialData.length
      rw [append_nil, io_work] at hunread
      rw [hunread]
      exact hends.delivered_iff hz

/-- A compressed reply in chunks is delivered by the call on its last piece exactly if, by what is unread and what is
pending before that call, it does not break off, and what it leaves undecoded has no data. -/
theorem gzip_delivered_iff (z : Zlib γ δ) (p : Limits) (emitted : Nat → Bytes) {h : Header} {request : Request}
    {m : ChunkedText} (hreply : GzipReply h request) (hheader : AdmitsHeader p h.toBytes) (hm : m.Admitted p)
    (hz : Gunzips z m.content emitted) (front : List Bytes) {last : Bytes} (hlast : last ≠ [])
    (hpieces : front.flatten ++ last = h.toBytes ++ m.text) :
    ∃ c c', receive .server z p front ⟨.cleared, [], request⟩ = some c ∧
      receive .server z p (front ++ [last]) ⟨.cleared, [], request⟩ = some c' ∧
      (Delivered (emitted m.content.length) [] c' ↔
        ∃ k, m.undecoded (c.io.length + last.length) c.parser.partialData.length m.chunks = some k ∧
          emitted (m.content.length - k) = emitted m.content.length) := by
  obtain ⟨c, c', hrun, hcall, hiff⟩ := gzip_started_iff hreply hheader hm hz front hlast hpieces
  cases front with
  | nil =>
    obtain rfl := Option.some.inj hrun
    exact ⟨_, c', rfl, hcall, hiff⟩
  | cons piece front =>
    refine ⟨c, c', hrun, ?_, hiff⟩
    rw [cons_append, receive_startServer, ← cons_append, receive_append, hrun]
    exact hcall

/-! ## A stored block -/

/-- The decoder on a gzip stream of one stored block with the bytes `data`: fifteen bytes come in front of them and
eight behind. -/
def stored (data : Bytes) : Zlib Nat Unit where
  newGzip := 0
  decode n piece := (n + piece.length, (data.take (n + piece.length - 15)).drop (n - 15), [],
    if n + piece.length < data.length + 23 then .ok else .streamEnd)
  newInflate := ()
  inflateSize _ piece := ((), [], piece, .error)

theorem fed_stored {data : Bytes} {g : Nat} {taken out : Bytes} (h : Fed (stored data) g taken out) :
    g = taken.length ∧ out = data.take (taken.length - 15) := by
  induction h with
  | start => exact ⟨rfl, rfl⟩
  | @feed g taken out piece _ ih =>
    obtain ⟨rfl, rfl⟩ := ih
    refine ⟨length_append.symm, ?_⟩
    have hfront : (data.take (taken.length + piece.length - 15)).take (taken.length - 15) =
        data.take (taken.length - 15) := by
      rw [take_take, Nat.min_eq_left (by omega)]
    simp only [stored, length_append]
    rw [← hfront, take_append_drop]

theorem gunzips_stored {data body : Bytes} (hlen : body.length = data.length + 23) :
    Gunzips (stored data) body fun n => data.take (n - 15) := by
  constructor
  · intro g taken out piece hfed _ hinitial
    obtain ⟨rfl, -⟩ := fed_stored hfed
    have hle := hinitial.length_le
    rw [length_append] at hle
    simp only [stored, Prod.mk.injEq, true_and]
    by_cases hall : taken ++ piece = body
    · rw [if_pos hall, if_neg]
      rw [← hall, length_append] at hlen
      omega
    · rw [if_neg hall, if_pos]
      have hne : (taken ++ piece).length ≠ body.length := fun heq => hall (hinitial.eq_of_length heq)
      rw [length_append] at hne
      omega
  · exact fun g taken out hfed _ => (fed_stored hfed).2

/-- A gzip stream of one stored block with the text `hello`. -/
def storedHello : Bytes :=
  [0x1f, 0x8b, 8, 0, 0, 0, 0, 0, 0, 0xff, 1, 5, 0, 0xfa, 0xff] ++ ascii "hello" ++
    [0x86, 0xa6, 0x10, 0x36, 5, 0, 0, 0]

/-- The header of a compressed reply in chunks. -/
def gzipHeader : Header :=
  { Header.cleared true with
    firstLineType := .statusLine, statusCode := 200, httpVersion := .v1_1
    fields := [(kHeaderContentEncoding, ascii "gzip"), (kHeaderTransferEncoding, ascii "chunked")] }

/-- The stream in one chunk. -/
def oneChunk : ChunkedText := ⟨[⟨ascii "1c;x\r", storedHello⟩], ascii "0\r", ascii "\r\n"⟩

/-- The stream in two chunks, of 18 and of 10 bytes. -/
def twoChunks : ChunkedText :=
  ⟨[⟨ascii "12\r", storedHello.take 18⟩, ⟨ascii "a\r", storedHello.drop 18⟩], ascii "0\r", ascii "\r\n"⟩

theorem gzipReply_gzipHeader : GzipReply gzipHeader (answered .get []) := by
  refine ⟨⟨rfl, not_mem_nil, fun e he => ?_, rfl⟩, by decide, by decide, by decide⟩
  simp only [gzipHeader, mem_cons, not_mem_nil, or_false] at he
  rcases he with rfl | rfl
  · exact ⟨by decide, by decide, by decide⟩
  · exact ⟨by decide, by decide, by decide⟩

/-- A stream in one chunk of which the last three bytes come later. -/
theorem gzip_delivered_oneChunk : ∃ c c', receive .server (stored (ascii "hello")) .default
      [gzipHeader.toBytes ++ oneChunk.text.take 31] ⟨.cleared, [], answered .get []⟩ = some c ∧
    receive .server (stored (ascii "hello")) .default
      ([gzipHeader.toBytes ++ oneChunk.text.take 31] ++ [oneChunk.text.drop 31]) ⟨.cleared, [], answered .get []⟩ =
        some c' ∧
    (Delivered ((ascii "hello").take (oneChunk.content.length - 15)) [] c' ↔
      ∃ k, oneChunk.undecoded (c.io.length + (oneChunk.text.drop 31).length) c.parser.partialData.length
          oneChunk.chunks = some k ∧
        (ascii "hello").take (oneChunk.content.length - k - 15) =
          (ascii "hello").take (oneChunk.content.length - 15)) :=
  gzip_delivered_iff (stored (ascii "hello")) .default (fun n => (ascii "hello").take (n - 15)) gzipReply_gzipHeader
    ⟨by decide, by decide, by decide, by decide⟩
    ⟨by simp only [oneChunk, mem_singleton, forall_eq]
        exact ⟨⟨by decide, by decide, by decide, by decide⟩, by decide, by decide⟩,
      by decide, ⟨by decide, by decide, by decide, by decide⟩, ⟨by decide, by decide, by decide, by decide⟩,
      _, rfl, by decide⟩
    (gunzips_stored (by decide)) _ (by decide) (by decide)

/-- In two chunks the stream is not decoded to its end by the call on all of it, and with a further call the last two
bytes of the text are missing. -/
theorem not_gzip_delivered :
    (¬ ∃ c, receive .server (stored (ascii "hello")) .default [gzipHeader.toBytes ++ twoChunks.text]
        ⟨.cleared, [], answered .get []⟩ = some c ∧ Delivered (ascii "hello") [] c) ∧
      ∃ c, receive .server (stored (ascii "hello")) .default [gzipHeader.toBytes ++ twoChunks.text, []]
        ⟨.cleared, [], answered .get []⟩ = some c ∧ Delivered (ascii "hel") [] c := by
  constructor
  · rintro ⟨c, hrun, hdelivered⟩
    have hstate : (receive .server (stored (ascii "hello")) .default [gzipHeader.toBytes ++ twoChunks.text]
        ⟨.cleared, [], answered .get []⟩).map (fun c => c.parser.parseState) = some .endOfChunk := by decide +kernel
    rw [hrun, Option.map_some, Option.some.injEq] at hstate
    have hfinal := hdelivered.final
    rw [hstate] at hfinal
    cases hfinal
  · have hrun : (receive .server (stored (ascii "hello")) .default [gzipHeader.toBytes ++ twoChunks.text, []]
        ⟨.cleared, [], answered .get []⟩).any (fun c => c.parser.parseState.isFinal && !c.parser.parseState.isError &&
          c.request.serverData == ascii "hel" && c.io == []) = true := by decide +kernel
    obtain ⟨c, hrun, hall⟩ := (Option.any_eq_true _ _).1 hrun
    simp only [Bool.and_eq_true, Bool.not_eq_true', beq_iff_eq] at hall
    exact ⟨c, hrun, hall.1.1.1, hall.1.1.2, hall.1.2, hall.2⟩

end Connection

end Whispercast.Http
