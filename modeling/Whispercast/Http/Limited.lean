import Whispercast.Http.Delivered

/-!
# The limits of a parser

What a parser delivers of a body without compression is limited: by `max_body_size_` if the body is not chunked, else by
the number and the size of its chunks. What a call leaves in the stream is limited by `max_header_size_`, unless the
message is finished or the call asks for another one. In the state `STATE_END_OF_CHUNK` a line may be of any length.
-/

namespace Whispercast.Http

open Io Library List MemoryStream

variable {γ δ : Type}

namespace Work

open ReadState

variable {p : Limits} {w w' : Work γ δ} {r : ReadState}

/-! ## Bodies that are not chunked -/

/-- A body that is read up to a length; before the first call the length may be too large. -/
structure BodyWithin (p : Limits) (w : Work γ δ) : Prop where
  pending : w.parser.partialData = []
  nonneg : 0 ≤ w.parser.bodySizeToRead
  out : (w.out.length : Int) ≤ p.maxBodySize
  left : w.out = [] ∨ w.out.length + w.parser.bodySizeToRead ≤ p.maxBodySize

variable {z : Zlib γ δ}

/-- A call in such a body delivers no more than the limit, and leaves nothing in the stream unless it finishes. -/
theorem parseBodyInternal_within (hmax : 0 ≤ p.maxBodySize) (hstate : w.parser.parseState = .bodyReading)
    (hplain : IdentityContent w.header) (h : BodyWithin p w) (hcall : parseBodyInternal z p w = some (r, w')) :
    (w'.out.length : Int) ≤ p.maxBodySize ∧ (r.isFinished = false →
      w'.parser.parseState = .bodyReading ∧ w'.header = w.header ∧ w'.io = [] ∧ BodyWithin p w') := by
  obtain ⟨hpending, _, hout, hleft⟩ := h
  rw [parseBodyInternal_identity z p hstate hplain] at hcall
  have hfinished : (headerRead ||| requestFinished).isFinished = true := by decide
  by_cases htoo : 0 ≤ p.maxBodySize ∧ p.maxBodySize < w.parser.bodySizeToRead
  · rw [if_pos htoo] at hcall
    cases hcall
    exact ⟨hout, fun hr => absurd hr (by rw [hfinished]; exact Bool.noConfusion)⟩
  · dsimp only at hcall
    have hsum : w.out.length + w.parser.bodySizeToRead ≤ p.maxBodySize := by
      rcases hleft with hnil | hsum
      · rw [hnil, length_nil]
        omega
      · exact hsum
    -- What is taken of the stream goes out.
    have hlen : ((w.out ++ w.takeBody.parser.partialData).length : Int) + w.takeBody.parser.bodySizeToRead =
        w.out.length + w.parser.bodySizeToRead := by
      simp only [takeBody, hpending, nil_append, length_append, length_take]
      omega
    have hrest : 0 ≤ w.takeBody.parser.bodySizeToRead ∧ (w.takeBody.parser.bodySizeToRead ≠ 0 → w.takeBody.io = []) := by
      simp only [takeBody, drop_eq_nil_iff]
      omega
    split_ifs at hcall with hzero
    · cases hcall
      refine ⟨?_, fun hr => absurd hr (by decide)⟩
      show ((w.takeBody.out ++ w.takeBody.parser.partialData).length : Int) ≤ _
      have hsame : w.takeBody.out = w.out := rfl
      rw [hsame]
      omega
    · cases hcall
      have hbound : ((w.out ++ w.takeBody.parser.partialData).length : Int) ≤ p.maxBodySize := by omega
      exact ⟨hbound, fun _ => ⟨hstate, rfl, hrest.2 hzero, rfl, hrest.1, hbound, .inr (by
        show ((w.out ++ w.takeBody.parser.partialData).length : Int) + w.takeBody.parser.bodySizeToRead ≤ _
        omega)⟩⟩

/-! ## Chunked bodies -/

/-- The number of bytes of the chunk under way that are still to come. -/
def chunkLeft (w : Work γ δ) : Int := if w.parser.parseState = .chunkReading then w.parser.chunkSizeToRead else 0

/-- A chunked body of which some chunks have come. -/
structure ChunksWithin (p : Limits) (w : Work γ δ) : Prop where
  chunking : Chunking w.parser
  pending : w.parser.partialData = []
  nonneg : 0 ≤ w.parser.numChunksRead
  count : 0 ≤ p.maxNumChunks → w.parser.numChunksRead ≤ p.maxNumChunks
  size : w.out.length + w.chunkLeft ≤ w.parser.numChunksRead * max 0 p.maxChunkSize
  trailer : 0 ≤ w.parser.trailHeader.bytesParsed ∧ w.parser.trailHeader.bytesParsed ≤ p.maxHeaderSize

/-- No more has been delivered than the chunks that are admitted can hold. -/
def ChunksOut (p : Limits) (w : Work γ δ) : Prop :=
  0 ≤ p.maxNumChunks → (w.out.length : Int) ≤ p.maxNumChunks * max 0 p.maxChunkSize

theorem ChunksWithin.chunkLeft_nonneg (h : ChunksWithin p w) : 0 ≤ w.chunkLeft := by
  rw [chunkLeft]
  split_ifs with hstate
  · rcases h.chunking with hs | ⟨-, hpos⟩ | hs | hs
    · rw [hstate] at hs
      cases hs
    · exact hpos.le
    · rw [hstate] at hs
      cases hs
    · rw [hstate] at hs
      cases hs
  · exact le_rfl

theorem ChunksWithin.out (h : ChunksWithin p w) : ChunksOut p w := by
  intro hmax
  have hleft := h.chunkLeft_nonneg
  have hsize := h.size
  have hmono : w.parser.numChunksRead * max 0 p.maxChunkSize ≤ p.maxNumChunks * max 0 p.maxChunkSize :=
    Int.mul_le_mul_of_nonneg_right (h.count hmax) (le_max_left _ _)
  omega

/-- What a turn keeps. -/
def TurnWithin (p : Limits) (w : Work γ δ) : Turn γ δ → Prop
  | .next w' => ChunksWithin p w' ∧ w'.header = w.header
  | .returned r w' => ChunksOut p w' ∧ (r.isFinished = false → ChunksWithin p w' ∧ w'.header = w.header ∧
      (w'.parser.parseState ≠ .endOfChunk → (w'.io.length : Int) ≤ p.maxHeaderSize))

/-- A turn that finishes the message delivers nothing. -/
theorem turnWithin_finished (h : ChunksWithin p w) (hr : r.isFinished = true) (hout : w'.out = w.out) :
    TurnWithin p w (.returned r w') := by
  refine ⟨?_, fun hnot => ?_⟩
  · rw [ChunksOut, hout]
    exact h.out
  · rw [hr] at hnot
    cases hnot

theorem chunkHead_within (hheader : 0 ≤ p.maxHeaderSize) (hstate : w.parser.parseState = .chunkHeadReading)
    (h : ChunksWithin p w) : TurnWithin p w (chunkHead p w) := by
  have hfinished : (headerRead ||| chunkedBodyReading ||| requestFinished).isFinished = true := by decide
  have hleft : w.chunkLeft = 0 := by rw [chunkLeft, hstate]; rfl
  have hsize := h.size
  rw [hleft, Int.add_zero] at hsize
  rw [chunkHead]
  rcases hline : readLine w.io with ⟨_ | line, _⟩
  · have hio := readLine_none hline
    dsimp only
    split_ifs with hlong
    · exact turnWithin_finished h hfinished rfl
    · refine ⟨h.out, fun _ => ⟨h, rfl, fun _ => ?_⟩⟩
      rw [hio, toUint32] at hlong
      omega
  · dsimp only
    split_ifs with hbad hzero hexp hexp' hlong hnum
    · exact turnWithin_finished h hfinished rfl
    · exact turnWithin_finished h hfinished rfl
    · refine ⟨⟨.inr (.inr (.inr rfl)), h.pending, h.nonneg, h.count, ?_, h.trailer⟩, rfl⟩
      show (w.out.length : Int) + 0 ≤ _
      rw [Int.add_zero]
      exact hsize
    · exact turnWithin_finished h hfinished rfl
    · exact turnWithin_finished h hfinished rfl
    · exact turnWithin_finished h hfinished rfl
    · -- One chunk more, of the size that is to be read.
      have hpos : 0 < toInt32 (Numeral.strtol 16 line).1 := by omega
      have hnonneg := h.nonneg
      refine ⟨⟨.inr (.inl ⟨rfl, hpos⟩), h.pending, ?_, ?_, ?_, h.trailer⟩, rfl⟩
      · show 0 ≤ w.parser.numChunksRead + 1
        omega
      · intro hmax
        exact Int.not_lt.1 fun hlt => hnum ⟨hmax, hlt⟩
      · show (w.out.length : Int) + toInt32 (Numeral.strtol 16 line).1 ≤
          (w.parser.numChunksRead + 1) * max 0 p.maxChunkSize
        rw [Int.add_mul, Int.one_mul]
        omega

theorem chunkEnd_within (hstate : w.parser.parseState = .endOfChunk) (h : ChunksWithin p w) :
    TurnWithin p w (chunkEnd w) := by
  have hleft : w.chunkLeft = 0 := by rw [chunkLeft, hstate]; rfl
  have hsize := h.size
  rw [hleft, Int.add_zero] at hsize
  rw [chunkEnd]
  rcases readLine w.io with ⟨_ | -, -⟩
  · -- The line may be of any length.
    exact ⟨h.out, fun _ => ⟨h, rfl, fun hne => absurd hstate hne⟩⟩
  · dsimp only
    split_ifs with hempty
    · exact turnWithin_finished h (by decide) rfl
    · refine ⟨⟨.inl rfl, h.pending, h.nonneg, h.count, ?_, h.trailer⟩, rfl⟩
      show (w.out.length : Int) + 0 ≤ _
      rw [Int.add_zero]
      exact hsize

theorem chunkContent_within {z : Zlib γ δ} (hheader : 0 ≤ p.maxHeaderSize) (hplain : IdentityContent w.header)
    (hstate : w.parser.parseState = .chunkReading) (h : ChunksWithin p w) {t : Turn γ δ}
    (ht : chunkContent z w = some t) : TurnWithin p w t := by
  by_cases hio : w.io = []
  · rw [chunkContent, if_pos hio] at ht
    cases ht
    refine ⟨h.out, fun _ => ⟨h, rfl, fun _ => ?_⟩⟩
    rw [hio]
    exact hheader
  · rw [chunkContent_identity z hplain hio] at ht
    cases ht
    have hpos : 0 < w.parser.chunkSizeToRead := by
      have hleft := h.chunkLeft_nonneg
      rcases h.chunking with hs | ⟨-, hpos⟩ | hs | hs
      · rw [hstate] at hs
        cases hs
      · exact hpos
      · rw [hstate] at hs
        cases hs
      · rw [hstate] at hs
        cases hs
    have hleft : w.chunkLeft = w.parser.chunkSizeToRead := by rw [chunkLeft, if_pos hstate]
    have hsize := h.size
    refine ⟨⟨(takeChunk_ok hstate hpos hio).1, rfl, h.nonneg, h.count, ?_, h.trailer⟩, rfl⟩
    -- What is taken of the stream goes out, and is no longer to come.
    show ((w.out ++ w.takeChunk.parser.partialData).length : Int) + w.takeChunk.chunkLeft ≤ _
    have htaken : w.takeChunk.chunkLeft = w.parser.chunkSizeToRead - (min w.parser.chunkSizeToRead w.io.length).toNat := by
      rw [chunkLeft]
      by_cases hend : w.parser.chunkSizeToRead - (min w.parser.chunkSizeToRead w.io.length).toNat = 0
      · have hend' : w.takeChunk.parser.parseState = .endOfChunk := if_pos hend
        rw [hend', if_neg ParseState.noConfusion, hend]
      · have hmore : w.takeChunk.parser.parseState = .chunkReading := (if_neg hend).trans hstate
        rw [hmore, if_pos rfl]
        rfl
    rw [htaken]
    simp only [takeChunk, h.pending, nil_append, length_append, length_take]
    omega

/-- A count of bytes and the bytes that are left are within a limit that does not reject them, though both numbers are
taken modulo the sizes of their types. -/
theorem counted_le {limit count : Int} {left : Nat} (hlimit : 0 ≤ limit ∧ limit < 2 ^ 31) (hcount : 0 ≤ count)
    (hsmall : count + left < 2 ^ 32) (h : ¬ toSize limit < toSize (toSize (toInt32 count) + left)) :
    toInt32 count = count ∧ count + left ≤ limit := by
  have hlim : toSize limit = limit := by
    rw [toSize]
    omega
  rw [hlim, toSize, toSize, toInt32, Int.bmod_def] at h
  rw [toInt32, Int.bmod_def]
  omega

section

variable (hheader : 0 ≤ p.maxHeaderSize ∧ p.maxHeaderSize < 2 ^ 31)

include hheader

theorem parseTrailHeader_within
    (hstate : w.parser.parseState = .lastChunkRead) (h : ChunksWithin p w) (hsmall : w.io.length < 2 ^ 31)
    (hcall : parseTrailHeader p w = some (r, w')) : TurnWithin p w (.returned r w') := by
  have htrailer := h.trailer
  have hint : toInt32 w.parser.trailHeader.bytesParsed = w.parser.trailHeader.bytesParsed := by
    rw [toInt32, Int.bmod_def]
    omega
  rw [parseTrailHeader, guard, if_pos hstate] at hcall
  rcases hread : w.parser.trailHeader.readHeaderFields w.io with ⟨done, _, io⟩
  rw [hread] at hcall
  obtain ⟨k, _, hcount⟩ := Header.readHeaderFields_counted w.io hint hread
  cases done with
  | true =>
    dsimp only at hcall
    split_ifs at hcall
    · cases hcall
      exact turnWithin_finished h (by decide) rfl
    · cases hcall
      exact turnWithin_finished h (by decide) rfl
  | false =>
    dsimp only at hcall
    split_ifs at hcall with hlong
    · cases hcall
      exact turnWithin_finished h (by decide) rfl
    · cases hcall
      rw [hcount] at hlong
      obtain ⟨_, _⟩ := counted_le hheader (by omega) (by omega) hlong
      refine ⟨h.out, fun _ => ⟨⟨.inr (.inr (.inr hstate)), h.pending, h.nonneg, h.count, h.size, ?_⟩, rfl, fun _ => ?_⟩⟩
      · rw [hcount]
        omega
      · show (io.length : Int) ≤ p.maxHeaderSize
        omega

theorem chunkTurn_within
    (hplain : IdentityContent w.header) (h : ChunksWithin p w) (hsmall : w.io.length < 2 ^ 31) {t : Turn γ δ}
    (ht : chunkTurn z p w = some t) : TurnWithin p w t := by
  rw [chunkTurn] at ht
  rcases h.chunking with hs | ⟨hs, -⟩ | hs | hs
  · rw [hs] at ht
    cases ht
    exact chunkHead_within hheader.1 hs h
  · rw [hs] at ht
    exact chunkContent_within hheader.1 hplain hs h ht
  · rw [hs] at ht
    cases ht
    exact chunkEnd_within hs h
  · rw [hs] at ht
    obtain ⟨⟨r, _⟩, hcall, rfl⟩ := Option.map_eq_some_iff.1 ht
    exact parseTrailHeader_within hheader hs h hsmall hcall

/-- The loop over the chunks keeps what its turns keep. -/
theorem parseChunksLoop_within
    (hplain : IdentityContent w.header) (h : ChunksWithin p w) (hsmall : w.io.length < 2 ^ 31) {n : Nat}
    (hcall : parseChunksLoop z p n w = some (r, w')) : TurnWithin p w (.returned r w') := by
  induction n generalizing w with
  | zero => cases hcall
  | succ n ih =>
    obtain ⟨t, ht, hok⟩ := chunkTurn_ok z p h.chunking
    have hturn := chunkTurn_within hheader hplain h hsmall ht
    rw [parseChunksLoop, ht] at hcall
    cases t with
    | returned r₁ w₁ =>
      cases hcall
      exact hturn
    | next w₁ =>
      obtain ⟨hwithin, hsame⟩ := hturn
      have hrest := ih (hsame ▸ hplain) hwithin (hok.2.trans hsmall) hcall
      rw [TurnWithin, hsame] at hrest
      exact hrest

end

/-! ## Payloads -/

/-- A payload without compression, within its limits. -/
structure PayloadWithin (p : Limits) (w : Work γ δ) : Prop where
  body : w.parser.parseState = .bodyReading → IdentityContent w.header →
    w.header.isChunkedTransfer = false ∧ BodyWithin p w
  chunks : Chunking w.parser → IdentityContent w.header → w.header.isChunkedTransfer = true ∧ ChunksWithin p w

/-- What a call in the payload of the message `w` delivers and leaves in the stream. -/
structure AnswerWithin (p : Limits) (w : Work γ δ) (r : ReadState) (w' : Work γ δ) : Prop where
  body : w.header.isChunkedTransfer = false → (w'.out.length : Int) ≤ p.maxBodySize
  chunks : w.header.isChunkedTransfer = true → ChunksOut p w'
  left : r.isFinished = false → r.isContinue = false → w'.parser.parseState ≠ .endOfChunk →
    (w'.io.length : Int) ≤ p.maxHeaderSize
  state : InPayload w' ∨ w'.parser.parseState.isFinal = true
  payload : PayloadWithin p w'

theorem payloadWithin_of_final (h : w.parser.parseState.isFinal = true) : PayloadWithin p w := by
  constructor
  · intro hs
    rw [hs] at h
    cases h
  · intro hs
    rw [hs.isFinal] at h
    cases h

theorem BodyWithin.payload (hstate : w.parser.parseState = .bodyReading)
    (hchunked : w.header.isChunkedTransfer = false) (h : BodyWithin p w) : PayloadWithin p w := by
  refine ⟨fun _ _ => ⟨hchunked, h⟩, fun hs => ?_⟩
  rcases hs with hs | ⟨hs, -⟩ | hs | hs
  all_goals
    rw [hstate] at hs
    cases hs

theorem ChunksWithin.payload (hchunked : w.header.isChunkedTransfer = true) (h : ChunksWithin p w) :
    PayloadWithin p w := by
  refine ⟨fun hs => ?_, fun _ _ => ⟨hchunked, h⟩⟩
  rcases h.chunking with hc | ⟨hc, -⟩ | hc | hc
  all_goals
    rw [hs] at hc
    cases hc

/-- A payload that begins is within its limits. -/
theorem beginPayload_within (hheader : 0 ≤ p.maxHeaderSize) (hmax : 0 ≤ p.maxBodySize)
    (hparser : w.parser = RequestParser.cleared.setParseState .endOfHeader) (hout : w.out = []) :
    match beginPayload p w with
    | .returned r w' => r.isFinished = true ∧ w'.parser.parseState.isFinal = true ∧ w'.out = []
    | .next w' => w'.header = w.header ∧ w'.io = w.io ∧ InPayload w' ∧ PayloadWithin p w' := by
  have hfinished : (headerRead ||| requestFinished).isFinished = true := by decide
  have hpending : w.parser.partialData = [] := by rw [hparser]; rfl
  -- A body of this length begins.
  have hbody : ∀ n : Int, 0 ≤ n → w.header.isChunkedTransfer = false →
      PayloadWithin p ({ w with parser := { w.parser with bodySizeToRead := n } }.setParseState .bodyReading) := by
    intro n hn hchunked
    refine BodyWithin.payload rfl hchunked ⟨hpending, hn, ?_, .inl hout⟩
    rw [hout]
    exact hmax
  rw [beginPayload]
  split_ifs with hcontent htransfer hchunked
  · exact ⟨hfinished, rfl, hout⟩
  · exact ⟨hfinished, rfl, hout⟩
  · refine ⟨rfl, rfl, .inr (.inl rfl), ChunksWithin.payload hchunked ⟨.inl rfl, hpending, ?_, ?_, ?_, ?_⟩⟩
    · show 0 ≤ w.parser.numChunksRead
      rw [hparser]
      exact le_rfl
    · intro hcount
      show w.parser.numChunksRead ≤ _
      rw [hparser]
      exact hcount
    · show (w.out.length : Int) + 0 ≤ w.parser.numChunksRead * _
      rw [hout, hparser]
      exact le_of_eq (Int.zero_mul _).symm
    · show 0 ≤ w.parser.trailHeader.bytesParsed ∧ w.parser.trailHeader.bytesParsed ≤ _
      rw [hparser]
      exact ⟨le_rfl, hheader⟩
  · rw [Bool.not_eq_true] at hchunked
    cases w.header.findField kHeaderContentLength with
    | none =>
      by_cases haccept : !p.acceptNoContentLength ∧ 0 < w.header.defaultBodyLen
      · rw [if_pos haccept]
        exact ⟨hfinished, rfl, hout⟩
      · rw [if_neg haccept]
        refine ⟨rfl, rfl, .inl rfl, hbody _ ?_ hchunked⟩
        have hdefault : 0 ≤ w.header.defaultBodyLen := by
          rw [Header.defaultBodyLen]
          split
          · split_ifs <;> decide
          · decide
          · exact le_rfl
        split_ifs
        · exact hmax
        · exact hdefault
    | some s =>
      dsimp only
      by_cases hbad : (Numeral.strtol 10 s).2 ∨ toInt32 (Numeral.strtol 10 s).1 < 0
      · rw [if_pos hbad]
        exact ⟨hfinished, rfl, hout⟩
      · rw [if_neg hbad]
        exact ⟨rfl, rfl, .inl rfl, hbody _ (Int.not_lt.1 fun hlt => hbad (.inr hlt)) hchunked⟩

theorem not_bodyStuck_of_identity (hplain : IdentityContent w.header) : ¬ BodyStuck z p w := by
  rintro ⟨-, hgzip, -⟩
  rw [hplain.1] at hgzip
  cases hgzip

/-- A call in the payload keeps the limits. -/
theorem parsePayload_within (hheader : 0 ≤ p.maxHeaderSize ∧ p.maxHeaderSize < 2 ^ 31)
    (hmax : 0 ≤ p.maxBodySize) (hplain : IdentityContent w.header) (hsmall : w.io.length < 2 ^ 31) (hin : InPayload w)
    (h : PayloadWithin p w) (hcall : parsePayload z p w = some (r, w')) : AnswerWithin p w r w' := by
  obtain ⟨_, _, hcall₁, hnext, hpaired⟩ := parsePayload_spec z p hin
  rw [hcall] at hcall₁
  cases hcall₁
  have hpaired : Paired r w'.parser.parseState := hpaired.2 fun hstuck => not_bodyStuck_of_identity hplain hstuck.2
  have hfinal : r.isFinished = true → PayloadWithin p w' := fun hr => payloadWithin_of_final (hpaired.symm.trans hr)
  rw [parsePayload] at hcall
  rcases hin with hbody | hchunks
  · obtain ⟨hchunked, hwithin⟩ := h.body hbody hplain
    rw [if_pos hbody] at hcall
    obtain ⟨hout, hgo⟩ := parseBodyInternal_within hmax hbody hplain hwithin hcall
    refine ⟨fun _ => hout, fun htrue => ?_, fun hr _ _ => ?_, hnext, ?_⟩
    · rw [hchunked] at htrue
      cases htrue
    · rw [(hgo hr).2.2.1]
      exact hheader.1
    · cases hr : r.isFinished with
      | true => exact hfinal hr
      | false =>
        obtain ⟨hstate, hsame, -, hwithin'⟩ := hgo hr
        exact hwithin'.payload hstate (hsame ▸ hchunked)
  · obtain ⟨hchunked, hwithin⟩ := h.chunks hchunks hplain
    have hne : w.parser.parseState ≠ .bodyReading := by
      intro hs
      rcases hchunks with hc | ⟨hc, -⟩ | hc | hc
      all_goals
        rw [hs] at hc
        cases hc
    rw [if_neg hne] at hcall
    obtain ⟨-, -, hcall⟩ := Option.bind_eq_some_iff.1 hcall
    obtain ⟨hout, hgo⟩ := parseChunksLoop_within hheader hplain hwithin hsmall hcall
    refine ⟨fun hfalse => ?_, fun _ => hout, fun hr _ hne => (hgo hr).2.2 hne, hnext, ?_⟩
    · rw [hchunked] at hfalse
      cases hfalse
    · cases hr : r.isFinished with
      | true => exact hfinal hr
      | false =>
        obtain ⟨hwithin', hsame, -⟩ := hgo hr
        exact hwithin'.payload (hsame ▸ hchunked)

theorem parsePayloadInternal_within (hheader : 0 ≤ p.maxHeaderSize ∧ p.maxHeaderSize < 2 ^ 31)
    (hmax : 0 ≤ p.maxBodySize) (hplain : IdentityContent w.header) (hsmall : w.io.length < 2 ^ 31)
    (h : (InPayload w ∧ PayloadWithin p w) ∨
      (w.parser = RequestParser.cleared.setParseState .endOfHeader ∧ w.out = []))
    (hcall : parsePayloadInternal z p w = some (r, w')) : AnswerWithin p w r w' := by
  obtain ⟨-, -, hcall⟩ := Option.bind_eq_some_iff.1 hcall
  rcases h with ⟨hin, hwithin⟩ | ⟨hparser, hout⟩
  · have hne : w.parser.parseState ≠ .endOfHeader := by
      intro hs
      rcases hin with hc | hc | ⟨hc, -⟩ | hc | hc
      all_goals
        rw [hs] at hc
        cases hc
    rw [if_neg hne] at hcall
    exact parsePayload_within hheader hmax hplain hsmall hin hwithin hcall
  · have hstate : w.parser.parseState = .endOfHeader := by rw [hparser]; rfl
    rw [if_pos hstate] at hcall
    have hbegin := beginPayload_within hheader.1 hmax hparser hout
    rcases hturn : beginPayload p w with ⟨_, w₁⟩ | w₁
    · rw [hturn] at hcall hbegin
      cases hcall
      obtain ⟨hfinished, hfinal, hnil⟩ := hbegin
      refine ⟨fun _ => ?_, fun _ hcount => ?_, fun hr => ?_, .inr hfinal, payloadWithin_of_final hfinal⟩
      · rw [hnil]
        exact hmax
      · rw [hnil]
        exact Int.mul_nonneg hcount (le_max_left _ _)
      · rw [hfinished] at hr
        cases hr
    · rw [hturn] at hcall hbegin
      obtain ⟨hsame, hio, hin, hwithin⟩ := hbegin
      have hanswer := parsePayload_within hheader hmax (hsame ▸ hplain) (hio ▸ hsmall) hin hwithin hcall
      exact ⟨hsame ▸ hanswer.body, hsame ▸ hanswer.chunks, hanswer.left, hanswer.state, hanswer.payload⟩

end Work

/-! ## Headers -/

/-- What a call counts of a header that is not at its end is no more than what it takes. -/
theorem Header.parseHeader_counted {h h' : Header} {io rest : Bytes} {expected : FirstLineType}
    (hint : toInt32 h.bytesParsed = h.bytesParsed) (hcall : h.parseHeader io expected = some (false, h', rest)) :
    ∃ k : Nat, k + rest.length ≤ io.length ∧ h'.bytesParsed = toInt32 (h.bytesParsed + k) := by
  obtain ⟨-, -, hcall⟩ := Option.bind_eq_some_iff.1 hcall
  by_cases hzero : h.bytesParsed = 0
  · rw [if_pos hzero] at hcall
    obtain ⟨-, -, hcall⟩ := Option.bind_eq_some_iff.1 hcall
    by_cases hlf : 10 ∈ io
    · obtain ⟨l, tail, hl, rfl⟩ := Lines.exists_line hlf
      rw [readFirstLine_line hl] at hcall
      have hfirst : ((h.addBytesParsed (strTrimCRLF l).length).parseFirstLine expected
          (strTrimCRLF l)).bytesParsed = toInt32 (h.bytesParsed + (strTrimCRLF l).length) :=
        parseFirstLine_bytesParsed _ _
      obtain ⟨k, _, hcount⟩ := readHeaderFields_counted tail (by rw [hfirst, toInt32_toInt32])
        (Option.some.inj hcall)
      have htrim : (strTrimCRLF l).length ≤ l.length := ( rdropWhile_prefix _ _).length_le
      refine ⟨(strTrimCRLF l).length + k, ?_, ?_⟩
      · rw [length_append, length_cons]
        omega
      · rw [hcount, hfirst, toInt32_toInt32_add, Int.natCast_add, Int.add_assoc]
    · rw [readFirstLine_of_not_mem hlf] at hcall
      cases hcall
      exact ⟨0, by omega, by rw [Int.natCast_zero, Int.add_zero, hint]; rfl⟩
  · rw [if_neg hzero] at hcall
    obtain ⟨-, -, hcall⟩ := Option.bind_eq_some_iff.1 hcall
    exact readHeaderFields_counted io hint (Option.some.inj hcall)

namespace Connection

open ReadState Work

variable {p : Limits} {side : Side} {c c' : Connection γ δ} {r : ReadState}

/-- What a call in a header leaves in the stream, and what it has counted if it will go on. -/
structure HeaderWithin (p : Limits) (side : Side) (r : ReadState) (c' : Connection γ δ) : Prop where
  left : r.isFinished = false → r.isContinue = false → (c'.io.length : Int) ≤ p.maxHeaderSize
  state : c'.parser.parseState = .headerReading ∨ c'.parser.parseState = .endOfHeader ∨
    c'.parser.parseState.isFinal = true
  counted : c'.parser.parseState = .headerReading →
    0 ≤ (c'.header side).bytesParsed ∧ (c'.header side).bytesParsed ≤ p.maxHeaderSize
  out : (c'.work side).out = []

theorem headerWithin_of_final (hr : r.isFinished = true) (hfinal : c'.parser.parseState.isFinal = true)
    (hout : (c'.work side).out = []) : HeaderWithin p side r c' := by
  refine ⟨fun hnot => ?_, .inr (.inr hfinal), fun hs => ?_, hout⟩
  · rw [hr] at hnot
    cases hnot
  · rw [hs] at hfinal
    cases hfinal

/-- A header that is read to its end is followed by another call. -/
theorem headerWithin_of_end (hr : r.isContinue = true) (hend : c'.parser.parseState = .endOfHeader)
    (hout : (c'.work side).out = []) : HeaderWithin p side r c' := by
  refine ⟨fun _ hnot => ?_, .inr (.inl hend), fun hs => ?_, hout⟩
  · rw [hr] at hnot
    cases hnot
  · rw [hend] at hs
    cases hs

/-- A header that is not at its end is within the limit. -/
theorem counted_header {h h' : Header} {io rest : Bytes} {expected : FirstLineType}
    (hheader : 0 ≤ p.maxHeaderSize ∧ p.maxHeaderSize < 2 ^ 31)
    (hcount : 0 ≤ h.bytesParsed ∧ h.bytesParsed ≤ p.maxHeaderSize) (hsmall : io.length < 2 ^ 31)
    (hcall : h.parseHeader io expected = some (false, h', rest))
    (hlimit : ¬ toSize p.maxHeaderSize < toSize (rest.length + toSize h'.bytesParsed)) :
    (0 ≤ h'.bytesParsed ∧ h'.bytesParsed ≤ p.maxHeaderSize) ∧ (rest.length : Int) ≤ p.maxHeaderSize := by
  have hint : toInt32 h.bytesParsed = h.bytesParsed := by
    rw [toInt32, Int.bmod_def]
    omega
  obtain ⟨k, _, hbytes⟩ := Header.parseHeader_counted hint hcall
  rw [hbytes, Int.add_comm] at hlimit
  obtain ⟨heq, _⟩ := counted_le hheader (by omega) (by omega) hlimit
  rw [hbytes, heq]
  omega

theorem readHeader_within (hheader : 0 ≤ p.maxHeaderSize ∧ p.maxHeaderSize < 2 ^ 31)
    (hstate : c.parser.parseState = .headerReading) (hout : (c.work side).out = []) (hsmall : c.io.length < 2 ^ 31)
    (hcount : 0 ≤ (c.header side).bytesParsed ∧ (c.header side).bytesParsed ≤ p.maxHeaderSize)
    (hcall : readHeader side p c = some (r, c')) : HeaderWithin p side r c' := by
  have hspec := readHeader_call side p c
  rw [hcall] at hspec
  cases hspec with
  | final hparse hr hs hout' => exact headerWithin_of_final hr hs (hout'.trans hout)
  | read hparse hkept hout' =>
    exact headerWithin_of_end (by decide) (congrArg RequestParser.parseState hkept) (hout'.trans hout)
  | waits hparse hlimit hread hkept hout' =>
    obtain ⟨t, hread⟩ := hread
    obtain ⟨_, hleft⟩ := counted_header hheader hcount hsmall hparse hlimit
    refine ⟨fun _ _ => hleft, .inl (by rw [hkept, hstate]), fun _ => ?_, hout'.trans hout⟩
    rwa [hread]

/-! ## Runs -/

/-- The header of the message is known. -/
def BehindHeader (c : Connection γ δ) : Prop :=
  c.parser.parseState ≠ .initialized ∧ c.parser.parseState ≠ .headerReading

instance (c : Connection γ δ) : Decidable (BehindHeader c) := inferInstanceAs (Decidable (_ ∧ _))

/-- The states of a connection whose parser has these limits, with a message that is not compressed. No call is given 2³¹
bytes or more, so that the `int` in which the bytes of a header are counted does not overflow. -/
inductive Limited (side : Side) (z : Zlib γ δ) (p : Limits) : Connection γ δ → Prop where
  | start (io : Bytes) (request : Request) : Limited side z p ⟨.cleared, io, request⟩
  | arrive {c : Connection γ δ} (h : Limited side z p c) (piece : Bytes) : Limited side z p (c.arrive piece)
  | call {c c' : Connection γ δ} {r : ReadState} (h : Limited side z p c)
      (hfinal : c.parser.parseState.isFinal = false) (hsmall : c.io.length < 2 ^ 31)
      (hplain : BehindHeader c → IdentityContent (c.header side)) (hcall : parse side z p c = some (r, c')) : Limited side z p c'

variable {z : Zlib γ δ}

theorem Limited.reachable (h : Limited side z p c) : Reachable side z c := by
  induction h with
  | start io request => exact .start io request
  | arrive _ piece ih => exact ih.arrive piece
  | call _ hfinal _ _ hcall ih => exact ih.call hfinal p hcall

/-- What is counted of a header, and the payload, are within the limits. -/
structure Within (side : Side) (p : Limits) (c : Connection γ δ) : Prop where
  counted : c.parser.parseState = .headerReading →
    0 ≤ (c.header side).bytesParsed ∧ (c.header side).bytesParsed ≤ p.maxHeaderSize
  payload : PayloadWithin p (c.work side)

theorem header_work (side : Side) (c : Connection γ δ) : (c.work side).header = c.header side := by
  cases side <;> rfl

/-- Before the payload nothing is within it. -/
theorem payloadWithin_before {w : Work γ δ} (h : w.parser.parseState = .headerReading ∨
    w.parser.parseState = .endOfHeader ∨ w.parser.parseState.isFinal = true) : PayloadWithin p w := by
  rcases h with hs | hs | hfinal
  · constructor
    · intro hb
      rw [hs] at hb
      cases hb
    · intro hc
      rcases hc with hc | ⟨hc, -⟩ | hc | hc
      all_goals
        rw [hs] at hc
        cases hc
  · constructor
    · intro hb
      rw [hs] at hb
      cases hb
    · intro hc
      rcases hc with hc | ⟨hc, -⟩ | hc | hc
      all_goals
        rw [hs] at hc
        cases hc
  · exact payloadWithin_of_final hfinal

theorem Within.of_header (h : HeaderWithin p side r c') : Within side p c' :=
  ⟨h.counted, payloadWithin_before (by rw [parser_work]; exact h.state)⟩

/-- A call before the end of the header. -/
theorem parse_header_within (hheader : 0 ≤ p.maxHeaderSize ∧ p.maxHeaderSize < 2 ^ 31)
    (hreach : Reachable side z c) (hwithin : Within side p c) (hbehind : ¬ BehindHeader c) (hsmall : c.io.length < 2 ^ 31)
    (hcall : parse side z p c = some (r, c')) : HeaderWithin p side r c' := by
  have hzero : ∀ strict, 0 ≤ (Header.cleared strict).bytesParsed ∧ (Header.cleared strict).bytesParsed ≤ p.maxHeaderSize :=
    fun _ => ⟨le_rfl, hheader.1⟩
  by_cases hinit : c.parser.parseState = .initialized
  · rw [parse_initialized side z p hinit] at hcall
    cases side with
    | client => exact readHeader_within (c := c.startClient) hheader rfl rfl hsmall (hzero _) hcall
    | server => exact readHeader_within (c := c.startServer) hheader rfl rfl hsmall (hzero _) hcall
  · have hstate : c.parser.parseState = .headerReading := by
      by_contra hne
      exact hbehind ⟨hinit, hne⟩
    have huntouched := hreach.untouched
    rw [Untouched, hstate] at huntouched
    rw [parse_headerReading side z p hstate] at hcall
    exact readHeader_within hheader hstate huntouched.2 hsmall (hwithin.counted hstate) hcall

section

variable (hheader : 0 ≤ p.maxHeaderSize ∧ p.maxHeaderSize < 2 ^ 31) (hmax : 0 ≤ p.maxBodySize)

include hheader hmax

/-- A call behind the header. -/
theorem parse_payload_within (hreach : Reachable side z c) (hwithin : Within side p c) (hbehind : BehindHeader c)
    (hplain : IdentityContent (c.header side)) (hfinal : c.parser.parseState.isFinal = false)
    (hsmall : c.io.length < 2 ^ 31) (hcall : parse side z p c = some (r, c')) :
    AnswerWithin p (c.work side) r (c'.work side) := by
  have hw : ((c.work side).InPayload ∧ PayloadWithin p (c.work side)) ∨
      ((c.work side).parser = RequestParser.cleared.setParseState .endOfHeader ∧ (c.work side).out = []) := by
    by_cases hend : c.parser.parseState = .endOfHeader
    · have huntouched := hreach.untouched
      rw [Untouched, hend] at huntouched
      rw [parser_work]
      exact .inr huntouched
    · have hinv := hreach.inv
      rw [Inv] at hinv
      refine .inl ⟨?_, hwithin.payload⟩
      cases hstate : c.parser.parseState <;> rw [hstate] at hinv hfinal <;>
        first | exact absurd hstate hbehind.1 | exact absurd hstate hbehind.2 | exact absurd hstate hend |
          exact hinv.resolve_right (by rw [hfinal]; exact Bool.false_ne_true)
  rw [parse_payload side z p hbehind.1 hbehind.2 hfinal] at hcall
  obtain ⟨⟨_, w⟩, hpayload, heq⟩ := Option.map_eq_some_iff.1 hcall
  cases heq
  rw [work_put]
  exact parsePayloadInternal_within hheader hmax (by rwa [header_work]) (by rwa [io_work]) hw hpayload

/-- A call keeps the limits. -/
theorem parse_within (hreach : Reachable side z c) (hwithin : Within side p c)
    (hfinal : c.parser.parseState.isFinal = false) (hsmall : c.io.length < 2 ^ 31)
    (hplain : BehindHeader c → IdentityContent (c.header side)) (hcall : parse side z p c = some (r, c')) :
    Within side p c' := by
  by_cases hbehind : BehindHeader c
  · have hanswer := parse_payload_within hheader hmax hreach hwithin hbehind (hplain hbehind) hfinal hsmall hcall
    refine ⟨fun hstate => ?_, hanswer.payload⟩
    -- Behind the header no call goes back to it.
    rcases hanswer.state with hin | hend
    · rw [Work.InPayload, Work.Chunking, parser_work, hstate] at hin
      simp at hin
    · rw [parser_work, hstate] at hend
      cases hend
  · exact .of_header (parse_header_within hheader hreach hwithin hbehind hsmall hcall)

theorem Limited.within (h : Limited side z p c) : Within side p c := by
  induction h with
  | start io request =>
    refine ⟨fun hs => (by cases hs), ?_⟩
    constructor
    · intro hs
      rw [parser_work] at hs
      cases hs
    · intro hs
      rw [parser_work, Work.Chunking] at hs
      simp [RequestParser.cleared] at hs
  | @arrive c _ piece ih =>
    refine ⟨?_, ?_⟩
    · cases side <;> exact ih.counted
    · rw [work_arrive]
      exact ⟨fun hs hid => ⟨(ih.payload.body hs hid).1, (ih.payload.body hs hid).2.pending,
          (ih.payload.body hs hid).2.nonneg, (ih.payload.body hs hid).2.out, (ih.payload.body hs hid).2.left⟩,
        fun hs hid => ⟨(ih.payload.chunks hs hid).1, (ih.payload.chunks hs hid).2.chunking,
          (ih.payload.chunks hs hid).2.pending, (ih.payload.chunks hs hid).2.nonneg,
          (ih.payload.chunks hs hid).2.count, (ih.payload.chunks hs hid).2.size,
          (ih.payload.chunks hs hid).2.trailer⟩⟩
  | call hlimited hfinal hsmall hplain hcall ih =>
    exact parse_within hheader hmax hlimited.reachable ih hfinal hsmall hplain hcall

end

/-- Of a message that is not compressed a call delivers no more than `max_body_size_`, or if it is chunked no more than
`max_num_chunks_` chunks of `max_chunk_size_` can hold. If it neither finishes the message nor asks for another call, it
leaves no more than `max_header_size_` in the stream, except where it waits for the line behind a chunk. -/
theorem limits_hold (side : Side) (z : Zlib γ δ) (p : Limits)
    (hheader : 0 ≤ p.maxHeaderSize ∧ p.maxHeaderSize < 2 ^ 31) (hmax : 0 ≤ p.maxBodySize) {c c' : Connection γ δ}
    {r : ReadState} (h : Limited side z p c) (hfinal : c.parser.parseState.isFinal = false)
    (hsmall : c.io.length < 2 ^ 31) (hplain : BehindHeader c → IdentityContent (c.header side))
    (hcall : parse side z p c = some (r, c')) :
    (¬ BehindHeader c → (c'.work side).out = []) ∧
      (BehindHeader c → (c.header side).isChunkedTransfer = false →
        ((c'.work side).out.length : Int) ≤ p.maxBodySize) ∧
      (BehindHeader c → (c.header side).isChunkedTransfer = true → 0 ≤ p.maxNumChunks →
        ((c'.work side).out.length : Int) ≤ p.maxNumChunks * max 0 p.maxChunkSize) ∧
      (r.isFinished = false → r.isContinue = false → c'.parser.parseState ≠ .endOfChunk →
        (c'.io.length : Int) ≤ p.maxHeaderSize) := by
  have hwithin := h.within hheader hmax
  by_cases hbehind : BehindHeader c
  · have hanswer := parse_payload_within hheader hmax h.reachable hwithin hbehind (hplain hbehind) hfinal hsmall hcall
    rw [← header_work side c, ← io_work side c', ← parser_work side c']
    exact ⟨fun hb => absurd hbehind hb, fun _ => hanswer.body, fun _ => hanswer.chunks, hanswer.left⟩
  · have hanswer := parse_header_within hheader h.reachable hwithin hbehind hsmall hcall
    exact ⟨fun _ => hanswer.out, fun hb => absurd hb hbehind, fun hb => absurd hb hbehind,
      fun hr hc _ => hanswer.left hr hc⟩

/-- A parser that admits bodies of four bytes and headers of sixty. -/
def tight : Limits := { Limits.default with maxHeaderSize := 60, maxBodySize := 4 }

/-- A reply whose header is read by the first call, and the second call of the parser. -/
def tightly (text : Bytes) (holds : ReadState × Connection Nat Unit → Bool) : Bool :=
  (parse .server corruptedLater tight ⟨.cleared, text, .new true⟩).any fun x =>
    decide (x.2.parser.parseState.isFinal = false ∧ x.2.io.length < 2 ^ 31 ∧
      (x.2.header .server).isGzipContentEncoding = false ∧ (x.2.header .server).isDeflateContentEncoding = false) &&
    (parse .server corruptedLater tight x.2).any holds

theorem limited_tightly {text : Bytes} {holds : ReadState × Connection Nat Unit → Bool}
    (h : tightly text holds = true) (hsmall : text.length < 2 ^ 31) :
    ∃ c r c', Limited .server corruptedLater tight c ∧ c.parser.parseState.isFinal = false ∧ c.io.length < 2 ^ 31 ∧
      IdentityContent (c.header .server) ∧ parse .server corruptedLater tight c = some (r, c') ∧ holds (r, c') = true := by
  obtain ⟨⟨_, c⟩, hfirst, h⟩ := (Option.any_eq_true _ _).1 h
  rw [Bool.and_eq_true, decide_eq_true_iff] at h
  obtain ⟨⟨hfinal, hio, hplain⟩, h⟩ := h
  obtain ⟨⟨r, c'⟩, hsecond, hholds⟩ := (Option.any_eq_true _ _).1 h
  exact ⟨c, r, c', .call (.start text (.new true)) rfl hsmall (fun hbehind => absurd rfl hbehind.1) hfirst, hfinal, hio,
    hplain, hsecond, hholds⟩

/-- Two of four bytes are delivered. -/
theorem limits_hold_two : ∃ c r c', parse .server corruptedLater tight c = some (r, c') ∧
    (c'.work .server).out = ascii "ab" ∧
      (¬ BehindHeader c → (c'.work .server).out = []) ∧
      (BehindHeader c → (c.header .server).isChunkedTransfer = false → ((c'.work .server).out.length : Int) ≤ 4) ∧
      (BehindHeader c → (c.header .server).isChunkedTransfer = true → 0 ≤ tight.maxNumChunks →
        ((c'.work .server).out.length : Int) ≤ tight.maxNumChunks * max 0 tight.maxChunkSize) ∧
      (r.isFinished = false → r.isContinue = false → c'.parser.parseState ≠ .endOfChunk → (c'.io.length : Int) ≤ 60) := by
  have hrun : tightly (fourBytes ++ ascii "ab") (fun x => (x.2.work .server).out = ascii "ab") = true := by decide +kernel
  obtain ⟨c, r, c', hlimited, hfinal, hsmall, hplain, hcall, hout⟩ := limited_tightly hrun (by decide)
  exact ⟨c, r, c', hcall, of_decide_eq_true hout, limits_hold .server corruptedLater tight (by decide) (by decide)
    hlimited hfinal hsmall (fun _ => hplain) hcall⟩

/-- A chunked body of six bytes is delivered, though bodies are limited to four; and a call that has read a header leaves
more in the stream than a header may have. -/
theorem not_limits_hold :
    (∃ c r c', Limited .server corruptedLater tight c ∧ IdentityContent (c.header .server) ∧
      parse .server corruptedLater tight c = some (r, c') ∧ tight.maxBodySize < (c'.work .server).out.length) ∧
    ∃ c r c', Limited .server corruptedLater tight c ∧ parse .server corruptedLater tight c = some (r, c') ∧
      r.isFinished = false ∧ tight.maxHeaderSize < c'.io.length := by
  constructor
  · have hrun : tightly (inChunks ++ ascii "3\r\nabc\r\n3\r\ndef\r\n")
        (fun x => tight.maxBodySize < (x.2.work .server).out.length) = true := by decide +kernel
    obtain ⟨c, r, c', hlimited, -, -, hplain, hcall, hout⟩ := limited_tightly hrun (by decide)
    exact ⟨c, r, c', hlimited, hplain, hcall, of_decide_eq_true hout⟩
  · have hcall : (parse .server corruptedLater tight ⟨.cleared, inChunks ++ replicate 61 0, .new true⟩).any
        (fun x => x.1.isFinished = false ∧ tight.maxHeaderSize < x.2.io.length) = true := by decide +kernel
    obtain ⟨⟨r, c'⟩, hcall, hout⟩ := (Option.any_eq_true _ _).1 hcall
    have hout := of_decide_eq_true hout
    exact ⟨_, r, c', .start _ _, hcall, hout.1, hout.2⟩

end Connection

end Whispercast.Http
