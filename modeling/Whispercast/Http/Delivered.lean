import Whispercast.Http.ChunkedBody
import Whispercast.Http.Receive

/-!
# What is delivered of a payload

From the end of a header on, a payload arrives in pieces. A body with a length is delivered byte for byte up to that
length (`body_honoured`); a chunked body is delivered as the grammar says, and the parser is where the reader of the
grammar is (`chunks_honoured`). Both hold for all pieces as long as the lengths are honoured (`lengths_honoured`).
-/

namespace Whispercast.Http

open Io Library ChunkedBody List ParseState Work RequestParser

variable {γ δ : Type}

namespace Work

/-- The message with more data in its stream. -/
def arrive (w : Work γ δ) (piece : Bytes) : Work γ δ := { w with io := w.io ++ piece }

/-! ## Chunked bodies -/

/-- The parser is at the end of a header without content encoding whose transfer encoding is chunked. -/
structure HasChunks (w : Work γ δ) : Prop where
  state : w.parser.parseState = .endOfHeader
  plain : w.header.findField kHeaderContentEncoding = none
  known : isKnownTransferEncoding w.header = true
  chunked : w.header.isChunkedTransfer = true

/-- The parser is where the reader of the grammar is behind the whole body, up to the line it is in the middle of,
and has delivered the same. -/
def ChunksHonoured (b : Bytes) (w : Work γ δ) : Prop :=
  w.out = (ChunkedBody.read b).out ∧
    match (ChunkedBody.read b).phase with
    | .head line => w.parser.parseState = .chunkHeadReading ∧ w.io = line
    | .data left => w.parser.parseState = .chunkReading ∧ w.parser.chunkSizeToRead = left ∧ w.io = []
    | .close line => w.parser.parseState = .endOfChunk ∧ w.io = line
    | .trailer rest =>
      (w.parser.parseState = .lastChunkRead ∨ w.parser.parseState = .endOfTrailHeader ∨
        w.parser.parseState = .errorChunkTrailerTooLong ∨ w.parser.parseState = .errorChunkTrailHeader) ∧
        w.io <:+ rest
    | .bad rest => w.parser.parseState.isError = true ∧ w.io <:+ rest

variable {p : Limits} {b before : Bytes} {w : Work γ δ}

/-- A parser that has settled on all of a body is where the reader is behind it. -/
theorem chunksHonoured_of_settled (h : Settled p b b w) :
    ChunksHonoured b w ∨ (w.parser.parseState.isError = true ∧ Exceeds p b) := by
  rcases h with herr | ⟨c, ⟨hsplit, hsynced⟩, hwaiting⟩
  · exact Or.inr herr
  left
  have hread : read b = (read c).bytes w.io := by
    rw [← hsplit, read_append]
  rw [ChunksHonoured, hread]
  rcases hphase : read c with ⟨line | left | line | rest | rest, _, _⟩
  · rw [hphase] at hsynced
    obtain ⟨hout, rfl, hstate, -⟩ := hsynced
    rw [Waiting, hstate] at hwaiting
    rw [bytes_head hwaiting]
    exact ⟨hout, hstate, rfl⟩
  · rw [hphase] at hsynced
    obtain ⟨hout, -, hstate, hsize, -⟩ := hsynced
    rw [Waiting, hstate] at hwaiting
    rw [show w.io = [] from hwaiting]
    exact ⟨hout, hstate, hsize, rfl⟩
  · rw [hphase] at hsynced
    obtain ⟨hout, rfl, hstate, -⟩ := hsynced
    rw [Waiting, hstate] at hwaiting
    rw [bytes_close hwaiting]
    exact ⟨hout, hstate, rfl⟩
  · rw [hphase] at hsynced
    rw [bytes_trailer]
    exact ⟨hsynced.1, hsynced.2, suffix_append _ _⟩
  · rw [hphase] at hsynced
    rw [bytes_bad]
    exact ⟨hsynced.1, hsynced.2, suffix_append _ _⟩

theorem Clean.arrive {s : ChunkedBody} (h : Clean w s) (piece : Bytes) : Clean (w.arrive piece) s :=
  ⟨h.chunks, h.pending, h.expectation, h.plain⟩

theorem Synced.arrive {s : ChunkedBody} (h : Synced w s) (piece : Bytes) : Synced (w.arrive piece) s := by
  obtain ⟨hout, hphase⟩ := h
  refine ⟨hout, ?_⟩
  cases hs : s.phase with
  | head line =>
    rw [hs] at hphase
    exact ⟨hphase.1, hphase.2.1, hphase.2.2.arrive piece⟩
  | data left =>
    rw [hs] at hphase
    exact ⟨hphase.1, hphase.2.1, hphase.2.2.1, hphase.2.2.2.arrive piece⟩
  | close line =>
    rw [hs] at hphase
    exact ⟨hphase.1, hphase.2.1, hphase.2.2.arrive piece⟩
  | trailer rest =>
    rw [hs] at hphase
    exact hphase
  | bad rest =>
    rw [hs] at hphase
    exact hphase

theorem Tracks.arrive {c : Bytes} (h : Tracks before w c) (piece : Bytes) :
    Tracks (before ++ piece) (w.arrive piece) c := by
  refine ⟨?_, h.synced.arrive piece⟩
  rw [← h.split, append_assoc]
  rfl

theorem Settled.arrive_of_final (h : Settled p b before w) (hfinal : w.parser.parseState.isFinal = true)
    (piece : Bytes) : Settled p b (before ++ piece) (w.arrive piece) := by
  rcases h with herr | ⟨c, htracks, -⟩
  · exact Or.inl herr
  · exact Or.inr ⟨c, htracks.arrive piece, waiting_of_final hfinal⟩

/-- A parser that is not in a final state is in the middle of the chunks, where the reader is. -/
theorem Tracks.chunking {c : Bytes} (h : Tracks before w c) (hfinal : w.parser.parseState.isFinal = false) :
    Chunking w.parser := by
  have hsynced := h.synced
  rcases hphase : read c with ⟨line | _ | line | rest | rest, _, _⟩
  · rw [hphase] at hsynced
    exact Or.inl hsynced.2.2.1
  · rw [hphase] at hsynced
    obtain ⟨-, hpos, hstate, hsize, -⟩ := hsynced
    refine Or.inr (Or.inl ⟨hstate, ?_⟩)
    rw [hsize]
    exact Int.natCast_pos.2 hpos
  · rw [hphase] at hsynced
    exact Or.inr (Or.inr (Or.inl hsynced.2.2.1))
  · rw [hphase] at hsynced
    rcases hsynced.2 with hstate | hstate | hstate | hstate
    · exact Or.inr (Or.inr (Or.inr hstate))
    all_goals
      rw [hstate] at hfinal
      cases hfinal
  · rw [hphase] at hsynced
    rw [isFinal_of_isError hsynced.2] at hfinal
    cases hfinal

variable (z : Zlib γ δ)

/-- A call in the middle of the chunks goes through the loop. -/
theorem parsePayloadInternal_chunking (p : Limits) (h : Chunking w.parser) :
    parsePayloadInternal z p w = parseChunksInternal z p w := by
  rcases h with hs | ⟨hs, -⟩ | hs | hs
  all_goals simp [parsePayloadInternal, parsePayload, hs, guard, ParseState.toNat]

theorem parseChunksInternal_settles {c : Bytes} (htracks : Tracks before w c)
    (hchunking : Chunking w.parser) (hbefore : before <+: b) (hok : HeadsOk p b) :
    ∃ r w', parseChunksInternal z p w = some (r, w') ∧ Settled p b before w' :=
  parseChunksLoop_tracks z htracks hchunking (Nat.lt_add_of_pos_right Nat.two_pos) hbefore hok

/-- Behind a header that says so the parser waits for the first chunk, whatever the encoding of its data is. -/
theorem parsePayloadInternal_chunked (p : Limits) (hstate : w.parser.parseState = .endOfHeader)
    (hcontent : isKnownContentEncoding w.header = true) (htransfer : isKnownTransferEncoding w.header = true)
    (hchunked : w.header.isChunkedTransfer = true) :
    parsePayloadInternal z p w = parseChunksInternal z p (w.setParseState .chunkHeadReading) := by
  have hbegin : beginPayload p w = .next (w.setParseState .chunkHeadReading) := by
    simp [beginPayload, hcontent, htransfer, hchunked]
  have hge : endOfHeader.toNat ≤ w.parser.parseState.toNat := by rw [hstate]
  rw [parsePayloadInternal, guard, if_pos hge, if_pos hstate, hbegin]
  rfl

/-- In front of the first chunk nothing has been consumed. -/
theorem tracks_start (hparser : w.parser = RequestParser.cleared.setParseState .endOfHeader) (hout : w.out = [])
    (hplain : w.header.findField kHeaderContentEncoding = none) :
    Tracks w.io (w.setParseState .chunkHeadReading) [] := by
  refine ⟨rfl, hout, rfl, rfl, ?_⟩
  constructor
  · simp [setParseState, hparser, RequestParser.setParseState, cleared, ChunkedBody.read,
      ChunkedBody.bytes, ChunkedBody.start]
  · simp [setParseState, hparser, RequestParser.setParseState, cleared]
  · simp [setParseState, hparser, RequestParser.setParseState, cleared]
  · exact hplain

/-! ## Bodies with a length -/

/-- Of a body of `n` bytes the bytes `before` have come: as many as belong to it are delivered, the others are left
in the stream. -/
structure BodyAt (n : Nat) (before : Bytes) (w : Work γ δ) : Prop where
  state : w.parser.parseState = if n ≤ before.length then .bodyEnd else .bodyReading
  left : w.parser.bodySizeToRead = (n - before.length : Nat)
  pending : w.parser.partialData = []
  plain : w.header.findField kHeaderContentEncoding = none
  out : w.out = before.take n
  rest : w.io = before.drop n

/-- The parser is in a body of `n` bytes, with the bytes `taken` delivered and more in the stream. -/
structure InBody (n : Nat) (taken before : Bytes) (w : Work γ δ) : Prop where
  state : w.parser.parseState = .bodyReading
  left : w.parser.bodySizeToRead = (n - taken.length : Nat)
  pending : w.parser.partialData = []
  plain : w.header.findField kHeaderContentEncoding = none
  out : w.out = taken
  le : taken.length ≤ n
  split : taken ++ w.io = before

/-- A body that is refused is left alone. -/
def BodyRefused (b : Bytes) (w : Work γ δ) : Prop := w.parser.parseState.isError = true ∧ w.out = [] ∧ w.io = b

/-- A length that is a number that fits and is in the limits is the number of bytes that are delivered, any other is
an error. -/
def BodyHonoured (p : Limits) (s b : Bytes) (w : Work γ δ) : Prop :=
  match (contentLengthOf s).filter fits with
  | none => BodyRefused b w
  | some n => if 0 ≤ p.maxBodySize ∧ p.maxBodySize < n then BodyRefused b w else BodyAt n b w

theorem parseBodyInternal_bodyAt {n : Nat} {taken : Bytes} (h : InBody n taken before w)
    (hlimit : ¬ (0 ≤ p.maxBodySize ∧ p.maxBodySize < n)) :
    ∃ r w', parseBodyInternal z p w = some (r, w') ∧ BodyAt n before w' := by
  have hlimit' : ¬ (0 ≤ p.maxBodySize ∧ p.maxBodySize < w.parser.bodySizeToRead) := by
    rw [h.left]
    omega
  have htake : (min w.parser.bodySizeToRead w.io.length).toNat = min (n - taken.length) w.io.length := by
    rw [h.left]
    omega
  have hlen : before.length = taken.length + w.io.length := by rw [← h.split, length_append]
  have hout : w.takeBody.out ++ w.takeBody.parser.partialData = before.take n := by
    show w.out ++ (w.parser.partialData ++ w.io.take _) = _
    have hmin : w.io.take (min (n - taken.length) w.io.length) = w.io.take (n - taken.length) := by
      rw [take_eq_take_iff, Nat.min_assoc, Nat.min_self]
    rw [htake, hmin, h.out, h.pending, nil_append, ← h.split, take_append, take_of_length_le h.le]
  have hrest : w.takeBody.io = before.drop n := by
    show w.io.drop _ = _
    rw [htake, ← h.split, drop_append, drop_of_length_le h.le, nil_append]
    by_cases hshort : w.io.length ≤ n - taken.length
    · rw [Nat.min_eq_right hshort, drop_length, drop_of_length_le hshort]
    · rw [Nat.min_eq_left (by omega)]
  have hleft : w.takeBody.parser.bodySizeToRead = (n - before.length : Nat) := by
    show w.parser.bodySizeToRead - ((min w.parser.bodySizeToRead w.io.length).toNat : Int) = _
    rw [htake, h.left]
    omega
  rw [parseBodyInternal_identity z p h.state (plain_of_none h.plain).2, if_neg hlimit']
  by_cases hend : n ≤ before.length
  · rw [if_pos (by rw [hleft]; omega)]
    refine ⟨_, _, rfl, ?_, hleft, rfl, h.plain, hout, hrest⟩
    rw [if_pos hend]
    rfl
  · rw [if_neg (by rw [hleft]; omega)]
    refine ⟨_, _, rfl, ?_, hleft, rfl, h.plain, hout, hrest⟩
    rw [if_neg hend]
    exact h.state

theorem parsePayloadInternal_bodyReading (p : Limits) (hstate : w.parser.parseState = .bodyReading) :
    parsePayloadInternal z p w = parseBodyInternal z p w := by
  simp [parsePayloadInternal, parsePayload, hstate, guard, ParseState.toNat]

/-- A length that is honoured begins a body, or ends in an error. -/
theorem parsePayloadInternal_body {s : Bytes}
    (hlength : HasLength w s) (hparser : w.parser = RequestParser.cleared.setParseState .endOfHeader)
    (hempty : w.out = []) (hok : ContentLengthOk p s) :
    ∃ r w', parsePayloadInternal z p w = some (r, w') ∧ BodyHonoured p s w.io w' := by
  have hlong : ∀ m : Int, 0 ≤ p.maxBodySize ∧ p.maxBodySize < m →
      ∃ r w', parseBodyInternal z p (w.reading m) = some (r, w') ∧ BodyRefused w.io w' := by
    intro m hm
    rw [parseBodyInternal_identity z p (w := w.reading m) rfl (plain_of_none hlength.plain).2,
      if_pos (show 0 ≤ p.maxBodySize ∧ p.maxBodySize < (w.reading m).parser.bodySizeToRead from hm)]
    exact ⟨_, _, rfl, rfl, hempty, rfl⟩
  rw [parsePayloadInternal_length z p hlength]
  simp only [BodyHonoured]
  rcases hn : (contentLengthOf s).filter fits with _ | n
  · have hany : ¬ ((contentLengthOf s).any fits = true) := by
      intro hany
      rw [Option.any_eq_true] at hany
      obtain ⟨n, hlen, hfits⟩ := hany
      rw [hlen, Option.filter_some, if_pos hfits] at hn
      cases hn
    by_cases hrefused : Refused 10 s
    · rw [if_pos hrefused]
      exact ⟨_, _, rfl, rfl, hempty, rfl⟩
    · rw [if_neg hrefused]
      exact hlong _ ((hok.resolve_left hany).resolve_left hrefused)
  · obtain ⟨hlen, hfits⟩ := Option.filter_eq_some_iff.1 hn
    have hstrtol := strtol_contentLength hlen hfits
    have hnot : ¬ Refused 10 s := by
      rw [Refused, hstrtol, toInt32_of_fits hfits]
      simp
    rw [if_neg hnot, hstrtol, toInt32_of_fits hfits]
    dsimp only
    split_ifs with hlimit
    · exact hlong n hlimit
    · have hin : InBody n [] w.io (w.reading n) := by
        refine ⟨rfl, rfl, ?_, hlength.plain, hempty, Nat.zero_le n, rfl⟩
        simp [reading, setParseState, hparser, RequestParser.setParseState, cleared]
      exact parseBodyInternal_bodyAt z hin hlimit

/-- A body that has come in part goes on with the next piece. -/
theorem BodyAt.inBody {n : Nat} (h : BodyAt n before w) (hlt : before.length < n) (piece : Bytes) :
    InBody n before (before ++ piece) (w.arrive piece) := by
  have hstate := h.state
  have hrest := h.rest
  rw [if_neg (by omega)] at hstate
  rw [drop_of_length_le (Nat.le_of_lt hlt)] at hrest
  refine ⟨hstate, h.left, h.pending, h.plain, ?_, Nat.le_of_lt hlt, ?_⟩
  · show w.out = before
    rw [h.out, take_of_length_le (Nat.le_of_lt hlt)]
  · show before ++ (w.io ++ piece) = _
    rw [hrest, nil_append]

/-- What comes behind a body is left in the stream. -/
theorem BodyAt.arrive {n : Nat} (h : BodyAt n before w) (hle : n ≤ before.length) (piece : Bytes) :
    BodyAt n (before ++ piece) (w.arrive piece) := by
  have hlen : (before ++ piece).length = before.length + piece.length := length_append
  refine ⟨?_, ?_, h.pending, h.plain, ?_, ?_⟩
  · show w.parser.parseState = _
    rw [h.state, if_pos hle, if_pos (by omega)]
  · show w.parser.bodySizeToRead = _
    rw [h.left]
    omega
  · show w.out = _
    rw [h.out, take_append_of_le_length hle]
  · show w.io ++ piece = _
    rw [h.rest, drop_append_of_le_length hle]

end Work

namespace Connection

variable (side : Side)

theorem work_arrive (c : Connection γ δ) (piece : Bytes) :
    (c.arrive piece).work side = (c.work side).arrive piece := by
  cases side <;> rfl

theorem io_work (c : Connection γ δ) : (c.work side).io = c.io := by
  cases side <;> rfl

variable {p : Limits} {b before : Bytes} {c : Connection γ δ}

variable (z : Zlib γ δ)

/-- One call on a piece of the chunks. -/
theorem callLoop_chunks {consumed : Bytes}
    (htracks : Work.Tracks before (c.work side) consumed) (hfinal : c.parser.parseState.isFinal = false)
    (hbefore : before <+: b) (hok : HeadsOk p b) :
    ∃ c', callLoop side z p 2 c = some c' ∧ Work.Settled p b before (c'.work side) := by
  have hchunking := htracks.chunking (by rwa [parser_work])
  have hstate := hchunking
  rw [Chunking, parser_work] at hstate
  obtain ⟨r, w, hcall, _⟩ := parseChunksInternal_settles z htracks hchunking hbefore hok
  refine ⟨c.put side w, ?_, by rwa [work_put]⟩
  rw [callLoop_payload side z p 1 _ _ hfinal, parsePayloadInternal_chunking z p hchunking, hcall]
  · rfl
  · rcases hstate with hs | ⟨hs, -⟩ | hs | hs
    all_goals
      rw [hs]
      exact noConfusion
  · rcases hstate with hs | ⟨hs, -⟩ | hs | hs
    all_goals
      rw [hs]
      exact noConfusion

/-- Each piece leaves the parser settled on what has come; in the end that is all. -/
theorem receive_chunks (pieces : List Bytes)
    (hsettled : Work.Settled p b before (c.work side)) (hb : before ++ pieces.flatten = b) (hok : HeadsOk p b) :
    ∃ c', receive side z p pieces c = some c' ∧ Work.Settled p b b (c'.work side) := by
  induction pieces generalizing c before with
  | nil =>
    rw [flatten_nil, append_nil] at hb
    exact ⟨c, rfl, hb ▸ hsettled⟩
  | cons piece pieces ih =>
    rw [flatten_cons, ← append_assoc] at hb
    rw [receive]
    cases hfinal : c.parser.parseState.isFinal with
    | true =>
      rw [if_pos rfl]
      refine ih ?_ hb
      rw [work_arrive]
      exact hsettled.arrive_of_final (by rwa [parser_work]) piece
    | false =>
      rw [if_neg Bool.false_ne_true]
      rcases hsettled with ⟨herr, -⟩ | ⟨consumed, htracks, -⟩
      · have htrue := isFinal_of_isError herr
        rw [parser_work, hfinal] at htrue
        cases htrue
      · have htracks' : Tracks (before ++ piece) ((c.arrive piece).work side) consumed := by
          rw [work_arrive]
          exact htracks.arrive piece
        obtain ⟨c', hcall, hsettled'⟩ := callLoop_chunks side z htracks' hfinal ⟨pieces.flatten, hb⟩ hok
        rw [hcall]
        exact ih hsettled' hb

/-- Each piece of a body is delivered up to the length. -/
theorem receive_body {n : Nat} (hlimit : ¬ (0 ≤ p.maxBodySize ∧ p.maxBodySize < n))
    (pieces : List Bytes) (hat : Work.BodyAt n before (c.work side)) :
    ∃ c', receive side z p pieces c = some c' ∧ Work.BodyAt n (before ++ pieces.flatten) (c'.work side) := by
  induction pieces generalizing c before with
  | nil => exact ⟨c, rfl, by rwa [flatten_nil, append_nil]⟩
  | cons piece pieces ih =>
    have hstate := hat.state
    rw [parser_work] at hstate
    rw [receive, flatten_cons, ← append_assoc]
    by_cases hle : n ≤ before.length
    · rw [if_pos (by rw [hstate, if_pos hle]; rfl)]
      refine ih ?_
      rw [work_arrive]
      exact hat.arrive hle piece
    · rw [if_neg hle] at hstate
      have hin : InBody n before (before ++ piece) ((c.arrive piece).work side) := by
        rw [work_arrive]
        exact hat.inBody (Nat.lt_of_not_le hle) piece
      obtain ⟨r, w, hcall, _⟩ := parseBodyInternal_bodyAt z hin hlimit
      have hcall' : parsePayloadInternal z p ((c.arrive piece).work side) = some (r, w) :=
        (parsePayloadInternal_bodyReading z p hin.state).trans hcall
      have hloop : callLoop side z p 2 (c.arrive piece) = some ((c.arrive piece).put side w) := by
        rw [callLoop_payload side z p 1, hcall']
        · rfl
        all_goals
          rw [parser_arrive, hstate]
          first | exact noConfusion | rfl
      rw [if_neg (by rw [hstate]; exact Bool.false_ne_true), hloop]
      exact ih (by rwa [work_put])

/-! ## Messages -/

/-- The first call behind a header. -/
theorem callLoop_endOfHeader {r : ReadState} {w : Work γ δ} (hstate : c.parser.parseState = .endOfHeader)
    (hcall : Work.parsePayloadInternal z p (c.work side) = some (r, w)) :
    callLoop side z p 2 c = some (c.put side w) := by
  rw [callLoop_payload side z p 1, hcall]
  · rfl
  all_goals
    rw [hstate]
    first | exact noConfusion | rfl

/-- Where a header ends nothing of the payload has been touched. -/
theorem Reachable.endOfHeader {side : Side} {z : Zlib γ δ} (hreach : Reachable side z c)
    (hstate : c.parser.parseState = .endOfHeader) :
    c.parser = RequestParser.cleared.setParseState .endOfHeader ∧ (c.work side).out = [] := by
  have huntouched := hreach.untouched
  rwa [Untouched, hstate] at huntouched

/-- In every run in which the length is honoured, so is the body. -/
theorem body_honoured (p : Limits) {s : Bytes} (hreach : Reachable side z c)
    (hlength : Work.HasLength (c.work side) s) (hok : Work.ContentLengthOk p s) (piece : Bytes)
    (pieces : List Bytes) :
    ∃ c', receive side z p (piece :: pieces) c = some c' ∧
      Work.BodyHonoured p s (c.io ++ (piece :: pieces).flatten) (c'.work side) := by
  have hstate := hlength.state
  rw [parser_work] at hstate
  obtain ⟨hparser, hout⟩ := hreach.endOfHeader hstate
  have hlength' : HasLength ((c.arrive piece).work side) s := by
    rw [work_arrive]
    exact ⟨hlength.state, hlength.plain, hlength.known, hlength.identity, hlength.field⟩
  obtain ⟨r, w, hcall, hhonoured⟩ := parsePayloadInternal_body (p := p) z hlength'
    (by rw [parser_work]; exact hparser) (by rw [work_arrive]; exact hout) hok
  rw [io_work, arrive_io] at hhonoured
  rw [receive, if_neg (by rw [hstate]; exact Bool.false_ne_true), callLoop_endOfHeader (c := c.arrive piece) side z hstate hcall,
    Option.bind_some, flatten_cons, ← append_assoc]
  -- A body that is refused leaves a final state, where what comes is added to the stream.
  have hrefused : BodyRefused (c.io ++ piece) w →
      ∃ c', receive side z p pieces ((c.arrive piece).put side w) = some c' ∧
        BodyRefused (c.io ++ piece ++ pieces.flatten) (c'.work side) := by
    rintro ⟨herr, hempty, hrest⟩
    refine ⟨_, receive_of_final side z p pieces ?_, ?_⟩
    · rw [parser_put]
      exact isFinal_of_isError herr
    · rw [work_arrive, work_put]
      exact ⟨herr, hempty, by rw [← hrest]; rfl⟩
  simp only [BodyHonoured] at hhonoured ⊢
  rcases hn : (contentLengthOf s).filter fits with _ | n
  · rw [hn] at hhonoured
    exact hrefused hhonoured
  · rw [hn] at hhonoured
    dsimp only at hhonoured ⊢
    split_ifs at hhonoured ⊢ with hlimit
    · exact hrefused hhonoured
    · exact receive_body side z hlimit pieces (by rwa [work_put])

/-- In every run in which the chunk heads are honoured, so are the chunks, or a limit is exceeded. -/
theorem chunks_honoured (p : Limits) (hreach : Reachable side z c)
    (hchunks : Work.HasChunks (c.work side)) (piece : Bytes) (pieces : List Bytes)
    (hok : HeadsOk p (c.io ++ (piece :: pieces).flatten)) :
    ∃ c', receive side z p (piece :: pieces) c = some c' ∧
      (Work.ChunksHonoured (c.io ++ (piece :: pieces).flatten) (c'.work side) ∨
        (c'.parser.parseState.isError = true ∧ Exceeds p (c.io ++ (piece :: pieces).flatten))) := by
  have hstate := hchunks.state
  rw [parser_work] at hstate
  obtain ⟨hparser, hout⟩ := hreach.endOfHeader hstate
  have hwork : (c.arrive piece).work side = (c.work side).arrive piece := work_arrive side c piece
  have htracks : Tracks (c.io ++ piece) (((c.arrive piece).work side).setParseState .chunkHeadReading) [] := by
    have hstart := tracks_start (w := (c.arrive piece).work side) (by rw [parser_work]; exact hparser)
      (by rw [hwork]; exact hout) (by rw [hwork]; exact hchunks.plain)
    rwa [io_work, arrive_io] at hstart
  rw [flatten_cons, ← append_assoc] at hok ⊢
  obtain ⟨r, w, hcall, _⟩ := parseChunksInternal_settles z htracks (Or.inl rfl)
    (prefix_append _ pieces.flatten) hok
  have hcall' : parsePayloadInternal z p ((c.arrive piece).work side) = some (r, w) := by
    rw [parsePayloadInternal_chunked z p, hcall]
    · rw [parser_work]
      exact hstate
    · rw [hwork]
      exact (plain_of_none hchunks.plain).1
    · rw [hwork]
      exact hchunks.known
    · rw [hwork]
      exact hchunks.chunked
  rw [receive, if_neg (by rw [hstate]; exact Bool.false_ne_true), callLoop_endOfHeader (c := c.arrive piece) side z hstate hcall',
    Option.bind_some]
  obtain ⟨c', hrun, hend⟩ := receive_chunks (c := (c.arrive piece).put side w) side z pieces
    (by rwa [work_put]) rfl hok
  refine ⟨c', hrun, ?_⟩
  rw [← parser_work side c']
  exact chunksHonoured_of_settled hend

/-- Whatever the limits are: a `Content-Length` is honoured exactly if it is a number that fits or is refused, and so
is the head of a chunk; and the payload of a message is honoured in every run in which the lengths are. -/
theorem lengths_honoured (side : Side) (z : Zlib γ δ) (p : Limits) :
    (∀ (w : Work γ δ) (s : Bytes), Work.HasLength w s →
        (Work.ContentLengthHonoured z p w s ↔ Work.ContentLengthOk p s)) ∧
      (∀ (w : Work γ δ) (line rest : Bytes), Work.HasHead w line rest →
        (Work.ChunkHeadHonoured p w line rest ↔ Work.ChunkHeadOk p w.parser.numChunksRead line)) ∧
      (∀ (c : Connection γ δ) (s piece : Bytes) (pieces : List Bytes), Reachable side z c →
        Work.HasLength (c.work side) s → Work.ContentLengthOk p s →
          ∃ c', receive side z p (piece :: pieces) c = some c' ∧
            Work.BodyHonoured p s (c.io ++ (piece :: pieces).flatten) (c'.work side)) ∧
      ∀ (c : Connection γ δ) (piece : Bytes) (pieces : List Bytes), Reachable side z c →
        Work.HasChunks (c.work side) → HeadsOk p (c.io ++ (piece :: pieces).flatten) →
          ∃ c', receive side z p (piece :: pieces) c = some c' ∧
            (Work.ChunksHonoured (c.io ++ (piece :: pieces).flatten) (c'.work side) ∨
              (c'.parser.parseState.isError = true ∧ Exceeds p (c.io ++ (piece :: pieces).flatten))) :=
  ⟨fun _ _ h => contentLength_iff z p h, fun _ _ _ h => chunkHead_iff p h,
    fun _ _ piece pieces hreach hlength hok => body_honoured side z p hreach hlength hok piece pieces,
    fun _ piece pieces hreach hchunks hok => chunks_honoured side z p hreach hchunks piece pieces hok⟩

/-- A reply whose header is read by the first call. -/
def replied (text : Bytes) : Option (ReadState × Connection Nat Unit) :=
  parse .server corruptedLater .default ⟨.cleared, text, .new true⟩

theorem reachable_replied {text : Bytes} (h : (replied text).isSome = true) :
    Reachable .server corruptedLater ((replied text).get h).2 :=
  .call (.start text (.new true)) rfl .default (Option.some_get h).symm

/-- The header of a reply of four bytes. -/
def fourBytes : Bytes := ascii "HTTP/1.1 200 OK\r\nContent-Length: 4\r\n\r\n"

/-- The header of a reply in chunks. -/
def inChunks : Bytes := ascii "HTTP/1.1 200 OK\r\nTransfer-Encoding: chunked\r\n\r\n"

/-- Four bytes with one more behind them, and a chunk of three bytes that is cut. -/
theorem lengths_honoured_plain :
    Work.ContentLengthHonoured corruptedLater .default (((replied fourBytes).get (by decide)).2.work .server)
        (ascii "4") ∧
      Work.ChunkHeadHonoured .default
        (⟨RequestParser.cleared.setParseState .chunkHeadReading, ascii "3\r\nab", .cleared true, []⟩ : Work Nat Unit)
        (ascii "3") (ascii "ab") ∧
      (∃ c', receive .server corruptedLater .default [ascii "ab", ascii "cde"]
          ((replied fourBytes).get (by decide)).2 = some c' ∧
        Work.BodyHonoured .default (ascii "4") (ascii "abcde") (c'.work .server)) ∧
      ∃ c', receive .server corruptedLater .default [ascii "3\r\na", ascii "bc\r\n0;x\r\n\r\n"]
          ((replied inChunks).get (by decide)).2 = some c' ∧
        (Work.ChunksHonoured (ascii "3\r\nabc\r\n0;x\r\n\r\n") (c'.work .server) ∨
          (c'.parser.parseState.isError = true ∧ Exceeds .default (ascii "3\r\nabc\r\n0;x\r\n\r\n"))) :=
  ⟨((lengths_honoured .server corruptedLater .default).1 _ _
      ⟨by decide, by decide, by decide, by decide, by decide⟩).2 (by decide),
    ((lengths_honoured .server corruptedLater .default).2.1 _ _ _ ⟨by decide, by decide, by decide⟩).2 (by decide),
    (lengths_honoured .server corruptedLater .default).2.2.1 _ _ (ascii "ab") [ascii "cde"]
      (reachable_replied (by decide +kernel)) ⟨by decide, by decide, by decide, by decide, by decide⟩ (by decide),
    (lengths_honoured .server corruptedLater .default).2.2.2 _ (ascii "3\r\na") [ascii "bc\r\n0;x\r\n\r\n"]
      (reachable_replied (by decide +kernel)) ⟨by decide, by decide, by decide, by decide⟩ (by decide)⟩

/-- The length 2³² + 5 is taken for 5, and a chunk head without a number for the last chunk. -/
theorem not_lengths_honoured :
    (¬ ∃ c', receive .server corruptedLater .default
        [ascii "HTTP/1.1 200 OK\r\nContent-Length: 4294967301\r\n\r\nhello"] ⟨.cleared, [], .new true⟩ = some c' ∧
          Work.BodyHonoured .default (ascii "4294967301") (ascii "hello") (c'.work .server)) ∧
      ¬ ∃ c', receive .server corruptedLater .default [inChunks ++ ascii "zz\r\n\r\n"]
          ⟨.cleared, [], .new true⟩ = some c' ∧ c'.parser.parseState.isError = true := by
  constructor
  · rintro ⟨c', hrun, hhonoured⟩
    have hstate : (receive .server corruptedLater .default
        [ascii "HTTP/1.1 200 OK\r\nContent-Length: 4294967301\r\n\r\nhello"] ⟨.cleared, [], .new true⟩).map
        (fun c => c.parser.parseState) = some .bodyEnd := by decide +kernel
    rw [hrun, Option.map_some, Option.some.injEq] at hstate
    have hlen : (contentLengthOf (ascii "4294967301")).filter fits = none := by decide
    have herr := hhonoured.1
    rw [parser_work, hstate] at herr
    cases herr
  · rintro ⟨c', hrun, herr⟩
    have hstate : (receive .server corruptedLater .default [inChunks ++ ascii "zz\r\n\r\n"]
        ⟨.cleared, [], .new true⟩).map (fun c => c.parser.parseState) = some .endOfTrailHeader := by decide +kernel
    rw [hrun, Option.map_some, Option.some.injEq] at hstate
    rw [hstate] at herr
    cases herr

end Connection

end Whispercast.Http
