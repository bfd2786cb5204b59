import Whispercast.Http.Delivered
import Whispercast.Http.Written

/-!
# Chunks, read back

The reading of chunks that were written. At each moment the text that is still to come and the data that is still to
be delivered are known from the state of the parser (`Due`); a turn of the parser consumes of the one and delivers of
the other (`chunkTurn_due`), until the trailer has been read and the stream holds what comes behind the reply.
-/

namespace Whispercast.Http

open Io Library List Numeral

variable {γ δ : Type}

/-- The header line of a chunk, without the LF at its end. -/
def headText (n : Nat) : Bytes := 48 :: Numeral.numeral 16 n ++ [13]

theorem chunkText_eq (d : Bytes) : chunkText d = headText d.length ++ 10 :: (d ++ crlf) := by
  rw [chunkText, headText, crlf, show ascii "0" = [48] from by decide]
  simp

theorem digits_headText {n : Nat} {c : UInt8} (hc : c ∈ 48 :: Numeral.numeral 16 n) : Numeral.isDigit 16 c = true := by
  rcases mem_cons.1 hc with rfl | hc
  · decide
  · exact isDigit_of_mem_numeral (by decide) (by decide) hc

theorem not_mem_headText (n : Nat) : 10 ∉ headText n := by
  rw [headText, mem_append, not_or]
  refine ⟨fun hmem => ?_, by decide⟩
  exact absurd (digits_headText hmem) (by decide)

theorem strTrimCRLF_headText (n : Nat) : MemoryStream.strTrimCRLF (headText n) = 48 :: Numeral.numeral 16 n := by
  rw [headText, MemoryStream.strTrimCRLF, rdropWhile_concat_pos _ _ _ rfl, rdropWhile_eq_self_iff]
  intro hne hbreak
  have hdigit := digits_headText (getLast_mem hne)
  simp only [Bool.or_eq_true, beq_iff_eq] at hbreak
  rcases hbreak with heq | heq <;> rw [heq] at hdigit <;> exact absurd hdigit (by decide)

/-- The line says the number that was written. -/
theorem chunkLengthOf_headText (n : Nat) : chunkLengthOf (48 :: Numeral.numeral 16 n) = some n := by
  have hall : ∀ c ∈ 48 :: numeral 16 n, isDigit 16 c = true := fun c hc => digits_headText hc
  have htake : (48 :: numeral 16 n).takeWhile (isDigit 16) = 48 :: numeral 16 n :=
    takeWhile_eq_self_iff.2 hall
  have hdrop : (48 :: numeral 16 n).dropWhile (isDigit 16) = [] := dropWhile_eq_nil_iff.2 hall
  have hvalue : value 16 (48 :: numeral 16 n) = n := by
    have hzero : value 16 (48 :: numeral 16 n) = value 16 (numeral 16 n) := rfl
    rw [hzero, value_numeral (by decide) (by decide)]
  rw [chunkLengthOf, htake, hdrop, hvalue]
  simp

theorem length_headText {n : Nat} (hn : n < 2 ^ 31) : (headText n).length ≤ 10 := by
  have hlen : (numeral 16 n).length ≤ 8 := length_numeral_le (by decide) (by decide) (by omega)
  rw [headText, length_append, length_cons, length_singleton]
  omega

namespace Work

open ReadState

/-- Chunks that are within the limits of the parser. -/
structure Fits (p : Limits) (chunks : Int) (ds : List Bytes) : Prop where
  size : ∀ d ∈ ds, d ≠ [] ∧ d.length < 2 ^ 31 ∧ (d.length : Int) ≤ p.maxChunkSize
  number : 0 ≤ p.maxNumChunks → chunks + ds.length ≤ p.maxNumChunks

/-- The text of chunks with the end of the body. -/
def chunksText (ds : List Bytes) : Bytes := ds.flatMap chunkText ++ lastText

/-- The text that is still to come and the data that is still to be delivered, as the parser is between its turns. -/
inductive Due (p : Limits) (w : Work γ δ) : Bytes → Bytes → Prop where
  | head {ds : List Bytes} (hstate : w.parser.parseState = .chunkHeadReading)
      (hfits : Fits p w.parser.numChunksRead ds) : Due p w (chunksText ds) ds.flatten
  | data {d : Bytes} {ds : List Bytes} (hstate : w.parser.parseState = .chunkReading) (hd : d ≠ [])
      (hsize : w.parser.chunkSizeToRead = d.length) (hfits : Fits p w.parser.numChunksRead ds) :
      Due p w (d ++ (crlf ++ chunksText ds)) (d ++ ds.flatten)
  | close {ds : List Bytes} (hstate : w.parser.parseState = .endOfChunk)
      (hfits : Fits p w.parser.numChunksRead ds) : Due p w (crlf ++ chunksText ds) ds.flatten
  | trailer (hstate : w.parser.parseState = .lastChunkRead) : Due p w crlf []

/-- The header of the trailer has no fields yet. -/
structure NoTrailer (h : Header) : Prop where
  bytes : h.bytesParsed = 0
  name : h.crtParsingFieldName = []
  fields : h.fields = []
  error : h.parseError.settled = .init

/-- The parser reads chunks: `total` is the body, `more` comes behind the reply, and `future` has not arrived. -/
structure Expects (p : Limits) (total more future : Bytes) (w : Work γ δ) : Prop where
  due : ∃ rest body, Due p w rest body ∧ w.io ++ future = rest ++ more ∧ w.out ++ body = total
  pending : w.parser.partialData = []
  expectation : w.parser.nextChunkExpectation = .none
  plain : w.header.findField kHeaderContentEncoding = none
  trail : NoTrailer w.parser.trailHeader

/-- The reply has been read, with its body. -/
structure Finished (total more future : Bytes) (w : Work γ δ) : Prop where
  state : w.parser.parseState = .endOfTrailHeader
  out : w.out = total
  rest : w.io ++ future = more

/-- A turn goes on with the chunks, or returns: at the end of the reply, or to wait for what has not arrived. -/
def TurnDue (p : Limits) (total more future : Bytes) : Turn γ δ → Prop
  | .returned _ w => Finished total more future w ∨ (Expects p total more future w ∧ future ≠ [])
  | .next w => Expects p total more future w

variable {p : Limits} {total more future : Bytes} {w : Work γ δ}

/-- A line that is due has come, or is still to come in part. -/
theorem line_due {io line rest : Bytes} (hline : 10 ∉ line) (heq : io ++ future = line ++ 10 :: rest) :
    (∃ io', io = line ++ 10 :: io' ∧ io' ++ future = rest) ∨ (10 ∉ io ∧ io <+: line ∧ future ≠ []) := by
  by_cases hlf : 10 ∈ io
  · left
    obtain ⟨l, io', hl, rfl⟩ := Lines.exists_line hlf
    rw [append_assoc, cons_append] at heq
    obtain ⟨rfl, hrest⟩ := Lines.line_inj hl hline heq
    exact ⟨io', rfl, hrest⟩
  · right
    refine ⟨hlf, Lines.prefix_of_not_mem hlf heq, ?_⟩
    rintro rfl
    rw [append_nil] at heq
    exact hlf (heq ▸ by simp)

theorem chunkEnd_due (h : Expects p total more future w) {ds : List Bytes} (hfits : Fits p w.parser.numChunksRead ds)
    (hio : w.io ++ future = crlf ++ chunksText ds ++ more) (hout : w.out ++ ds.flatten = total) :
    TurnDue p total more future (chunkEnd w) := by
  have hio' : w.io ++ future = [13] ++ 10 :: (chunksText ds ++ more) := by
    rw [hio, crlf]
    simp
  rcases line_due (by decide) hio' with ⟨_, hline, hrest⟩ | ⟨hlf, -, hfuture⟩
  · have htrim : MemoryStream.strTrimCRLF [13] = [] := by decide
    rw [chunkEnd, hline, readLine_line (by decide), htrim]
    dsimp only
    rw [if_neg (by simp)]
    refine ⟨⟨_, _, .head rfl hfits, ?_, hout⟩, h.pending, h.expectation, h.plain, h.trail⟩
    exact hrest
  · rw [chunkEnd, readLine_of_not_mem hlf]
    exact Or.inr ⟨h, hfuture⟩

theorem chunkHead_waits (hhead : 10 ≤ toUint32 p.maxHeaderSize) (hlf : 10 ∉ w.io) (hlen : w.io.length ≤ 10) :
    chunkHead p w = .returned (headerRead ||| chunkedBodyReading) w := by
  rw [chunkHead, readLine_of_not_mem hlf]
  dsimp only
  rw [if_neg (by omega)]

/-- The head of the next chunk is honoured. -/
theorem chunkHead_due (h : Expects p total more future w) (hhead : 10 ≤ toUint32 p.maxHeaderSize)
    {ds : List Bytes} (hstate : w.parser.parseState = .chunkHeadReading) (hfits : Fits p w.parser.numChunksRead ds)
    (hio : w.io ++ future = chunksText ds ++ more) (hout : w.out ++ ds.flatten = total) :
    TurnDue p total more future (chunkHead p w) := by
  cases ds with
  | nil =>
    have hio' : w.io ++ future = [48, 13] ++ 10 :: (crlf ++ more) := by
      rw [hio, chunksText, lastText, show ascii "0\r\n\r\n" = [48, 13, 10, 13, 10] from by decide, crlf]
      rfl
    rcases line_due (by decide) hio' with ⟨io, hline, hrest⟩ | ⟨hlf, hfront, hfuture⟩
    · have hhas : HasHead w [48] io := ⟨hstate, h.expectation, by rw [hline, readLine_line (by decide)]; rfl⟩
      have hhonoured := (chunkHead_iff p hhas).2 (Or.inl (by decide))
      rw [hhonoured]
      exact ⟨⟨_, _, .trailer rfl, hrest, hout⟩, h.pending, h.expectation, h.plain, h.trail⟩
    · rw [chunkHead_waits hhead hlf (Nat.le_trans hfront.length_le (by decide))]
      exact Or.inr ⟨h, hfuture⟩
  | cons d ds =>
    obtain ⟨hne, hsmall, hsize⟩ := hfits.size d mem_cons_self
    have hlen : 0 < d.length := length_pos_iff.2 hne
    have hio' : w.io ++ future = headText d.length ++ 10 :: (d ++ (crlf ++ chunksText ds) ++ more) := by
      rw [hio, chunksText, flatMap_cons, chunkText_eq, chunksText]
      simp
    rcases line_due (not_mem_headText _) hio' with ⟨io, hline, hrest⟩ | ⟨hlf, hfront, hfuture⟩
    · have hhas : HasHead w (48 :: numeral 16 d.length) io :=
        ⟨hstate, h.expectation, by rw [hline, readLine_line (not_mem_headText _), strTrimCRLF_headText]⟩
      have hfit : fits d.length = true := decide_eq_true hsmall
      have hlength : (chunkLengthOf (48 :: numeral 16 d.length)).filter fits = some d.length := by
        rw [chunkLengthOf_headText, Option.filter_some, if_pos hfit]
      have hhonoured := (chunkHead_iff p hhas).2 (Or.inl (by rw [chunkLengthOf_headText]; exact hfit))
      have hlimits : InLimits p w.parser.numChunksRead (d.length : Int) := by
        refine ⟨hsize, fun hmax => ?_⟩
        have hnumber := hfits.number hmax
        rw [length_cons] at hnumber
        omega
      obtain ⟨n, hn⟩ : ∃ n, d.length = n + 1 := ⟨d.length - 1, by omega⟩
      rw [ChunkHeadHonoured, hlength, hn] at hhonoured
      dsimp only at hhonoured
      rw [hn] at hlimits
      rw [if_pos hlimits, ← hn] at hhonoured
      rw [hhonoured]
      refine ⟨⟨_, _, .data rfl hne rfl ?_, hrest, by rw [← hout]; rfl⟩, h.pending, h.expectation, h.plain, h.trail⟩
      refine ⟨fun d' hd' => hfits.size d' (mem_cons_of_mem _ hd'), fun hmax => ?_⟩
      have hnumber := hfits.number hmax
      rw [length_cons] at hnumber
      show w.parser.numChunksRead + 1 + (ds.length : Int) ≤ _
      omega
    · rw [chunkHead_waits hhead hlf (Nat.le_trans hfront.length_le (length_headText hsmall))]
      exact Or.inr ⟨h, hfuture⟩

/-- What has come of a chunk is delivered. -/
theorem chunkContent_due (z : Zlib γ δ) (h : Expects p total more future w) {d : Bytes} {ds : List Bytes}
    (hstate : w.parser.parseState = .chunkReading) (hd : d ≠ [])
    (hsize : w.parser.chunkSizeToRead = d.length) (hfits : Fits p w.parser.numChunksRead ds)
    (hio : w.io ++ future = d ++ (crlf ++ chunksText ds) ++ more) (hout : w.out ++ (d ++ ds.flatten) = total) :
    ∃ t, chunkContent z w = some t ∧ TurnDue p total more future t := by
  by_cases hempty : w.io = []
  · refine ⟨.returned (headerRead ||| chunkedBodyReading) w, ?_, Or.inr ⟨h, ?_⟩⟩
    · rw [chunkContent, if_pos hempty]
      rfl
    · rintro rfl
      rw [hempty] at hio
      have hlen := congrArg length hio
      simp only [append_nil, length_nil, length_append] at hlen
      exact hd (length_eq_zero_iff.1 (by omega))
  · refine ⟨_, chunkContent_identity z (plain_of_none h.plain).2 hempty, ?_⟩
    have htake : (min w.parser.chunkSizeToRead w.io.length).toNat = min d.length w.io.length := by
      rw [hsize]
      omega
    -- As much of the stream as belongs to the chunk is a front of the chunk.
    have hfront : w.io.take (min d.length w.io.length) = d.take (min d.length w.io.length) := by
      have hcut := congrArg (take (min d.length w.io.length)) hio
      rwa [take_append_of_le_length (Nat.min_le_right _ _), append_assoc,
        take_append_of_le_length (Nat.min_le_left _ _)] at hcut
    have hback : w.io.drop (min d.length w.io.length) ++ future =
        d.drop (min d.length w.io.length) ++ (crlf ++ chunksText ds) ++ more := by
      have hcut := congrArg (drop (min d.length w.io.length)) hio
      rwa [drop_append_of_le_length (Nat.min_le_right _ _), append_assoc,
        drop_append_of_le_length (Nat.min_le_left _ _), ← append_assoc] at hcut
    have hgone : w.takeChunk.parser.partialData = d.take (min d.length w.io.length) := by
      show w.parser.partialData ++ w.io.take _ = _
      rw [htake, h.pending, nil_append, hfront]
    have hleft : w.takeChunk.parser.chunkSizeToRead = (d.drop (min d.length w.io.length)).length := by
      show w.parser.chunkSizeToRead - ((min w.parser.chunkSizeToRead w.io.length).toNat : Int) = _
      rw [htake, hsize, length_drop]
      omega
    have hrest : w.takeChunk.io = w.io.drop (min d.length w.io.length) := by
      show w.io.drop _ = _
      rw [htake]
    have hdelivered : (w.out ++ w.takeChunk.parser.partialData) ++ (d.drop (min d.length w.io.length) ++ ds.flatten) =
        total := by
      rw [hgone, ← hout, append_assoc, ← append_assoc (d.take _), take_append_drop]
    have hstate' : w.takeChunk.parser.parseState =
        if w.takeChunk.parser.chunkSizeToRead = 0 then .endOfChunk else w.parser.parseState := rfl
    refine ⟨?_, rfl, h.expectation, h.plain, h.trail⟩
    rw [← hrest] at hback
    by_cases hall : d.drop (min d.length w.io.length) = []
    · rw [hall, nil_append] at hback hdelivered
      rw [hall, length_nil, Int.natCast_zero] at hleft
      exact ⟨_, _, .close (by rw [hstate', if_pos hleft]) hfits, hback, hdelivered⟩
    · have hne : w.takeChunk.parser.chunkSizeToRead ≠ 0 := by
        rw [hleft]
        have hlen := length_pos_iff.2 hall
        omega
      exact ⟨_, _, .data (by rw [hstate', if_neg hne, hstate]) hall hleft hfits, hback, hdelivered⟩

/-- What the parser must admit for the lines between the chunks, and for a header that was read in pieces. -/
structure AdmitsLines (p : Limits) : Prop where
  head : 10 ≤ toUint32 p.maxHeaderSize
  trailer : 1 ≤ toSize p.maxHeaderSize
  error : ParseError.noData.toNat ≤ p.worstAcceptedHeaderError.toNat

theorem toNat_le_of_settled {e : ParseError} (h : e.settled = .init) : e.toNat ≤ ParseError.noData.toNat := by
  cases e <;> first | decide | cases h

/-- The empty trailer ends the reply. -/
theorem parseTrailHeader_due (h : Expects p total more future w) (hlines : AdmitsLines p)
    (hstate : w.parser.parseState = .lastChunkRead) (hio : w.io ++ future = crlf ++ more) (hout : w.out = total) :
    ∃ r w', parseTrailHeader p w = some (r, w') ∧ TurnDue p total more future (.returned r w') := by
  obtain ⟨hbytes, hname, hfields, herr⟩ := h.trail
  rw [parseTrailHeader, guard, if_pos hstate]
  simp only [Option.pure_def, Option.bind_eq_bind, Option.bind_some]
  have hio' : w.io ++ future = [13] ++ 10 :: more := by
    rw [hio, crlf]
    rfl
  rcases line_due (by decide) hio' with ⟨io, hline, hrest⟩ | ⟨hlf, hfront, hfuture⟩
  · have hread : w.parser.trailHeader.readHeaderFields w.io =
        (true, (w.parser.trailHeader.addBytesParsed 0).readLastLine, io) := by
      rw [hline]
      exact Header.readHeaderFields_line (l := [13]) (by decide) io _
    have hholds := (Header.holdsFields_start hname).addBytesParsed 0
    have hlast : (w.parser.trailHeader.addBytesParsed 0).readLastLine.fields = [] ∧
        (w.parser.trailHeader.addBytesParsed 0).readLastLine.parseError.settled = .init := by
      rw [Header.readLastLine, hholds]
      refine ⟨hfields, ?_⟩
      show (ParseError.ok.max w.parser.trailHeader.parseError).settled = .init
      rw [ParseError.settled_max, herr]
      rfl
    have hle := Nat.le_trans (toNat_le_of_settled hlast.2) hlines.error
    rw [hread]
    dsimp only
    rw [if_neg (Nat.not_lt.2 hle)]
    exact ⟨_, _, rfl, Or.inl ⟨rfl, hout, hrest⟩⟩
  · rw [Header.readHeaderFields_of_not_mem hlf]
    have hlen : w.io.length ≤ 1 := hfront.length_le
    have hsmall : ¬ (toSize p.maxHeaderSize <
        toSize (toSize (w.parser.trailHeader.setParseError .noData).bytesParsed + w.io.length)) := by
      have hzero : (w.parser.trailHeader.setParseError .noData).bytesParsed = 0 := hbytes
      have htrailer := hlines.trailer
      rw [hzero]
      simp only [toSize] at htrailer ⊢
      omega
    dsimp only
    rw [if_neg hsmall]
    refine ⟨_, _, rfl, Or.inr ⟨⟨⟨_, _, .trailer hstate, hio, by rw [append_nil]; exact hout⟩, h.pending,
      h.expectation, h.plain, hbytes, hname, hfields, ?_⟩, hfuture⟩⟩
    show (ParseError.noData.max w.parser.trailHeader.parseError).settled = .init
    rw [ParseError.settled_max, herr]
    rfl

/-- A turn consumes of what is due, or the reply has been read. -/
theorem chunkTurn_due (z : Zlib γ δ) (h : Expects p total more future w) (hlines : AdmitsLines p) :
    ∃ t, chunkTurn z p w = some t ∧ TurnDue p total more future t := by
  obtain ⟨_, _, hdue, hio, hout⟩ := h.due
  rw [chunkTurn]
  cases hdue with
  | head hstate hfits =>
    rw [hstate]
    exact ⟨_, rfl, chunkHead_due h hlines.head hstate hfits hio hout⟩
  | data hstate hd hsize hfits =>
    rw [hstate]
    exact chunkContent_due z h hstate hd hsize hfits hio hout
  | close hstate hfits =>
    rw [hstate]
    exact ⟨_, rfl, chunkEnd_due h hfits hio hout⟩
  | trailer hstate =>
    rw [append_nil] at hout
    obtain ⟨r, _, hcall, hturn⟩ := parseTrailHeader_due h hlines hstate hio hout
    rw [hstate]
    rw [hcall]
    exact ⟨_, rfl, hturn⟩

theorem Expects.chunking (h : Expects p total more future w) : Chunking w.parser := by
  obtain ⟨_, _, hdue, -, -⟩ := h.due
  cases hdue with
  | head hstate => exact Or.inl hstate
  | data hstate hd hsize =>
    have hlen := length_pos_iff.2 hd
    exact Or.inr (Or.inl ⟨hstate, by omega⟩)
  | close hstate => exact Or.inr (Or.inr (Or.inl hstate))
  | trailer hstate => exact Or.inr (Or.inr (Or.inr hstate))

theorem parseChunksLoop_due (z : Zlib γ δ) {n : Nat} (h : Expects p total more future w) (hlines : AdmitsLines p)
    (hn : w.io.length < n) : ∃ r w', parseChunksLoop z p n w = some (r, w') ∧
      TurnDue p total more future (.returned r w') := by
  induction n generalizing w with
  | zero => exact absurd hn (Nat.not_lt_zero _)
  | succ n ih =>
    obtain ⟨t, ht, hdue⟩ := chunkTurn_due z h hlines
    obtain ⟨t', ht', hok⟩ := chunkTurn_ok z p h.chunking
    obtain rfl : t = t' := by
      rw [ht, Option.some.injEq] at ht'
      exact ht'
    rw [parseChunksLoop, ht]
    cases t with
    | returned r w' => exact ⟨r, w', rfl, hdue⟩
    | next w' => exact ih hdue (Nat.lt_of_lt_of_le hok.2 (Nat.le_of_lt_succ hn))

/-- A call in the middle of the chunks: the reply has been read, or not all of it has arrived. -/
theorem parseChunksInternal_due (z : Zlib γ δ) (h : Expects p total more future w) (hlines : AdmitsLines p) :
    ∃ r w', parseChunksInternal z p w = some (r, w') ∧
      (Finished total more future w' ∨ (Expects p total more future w' ∧ future ≠ [])) :=
  parseChunksLoop_due z h hlines (Nat.lt_add_of_pos_right Nat.two_pos)

theorem Expects.arrive {piece : Bytes} (h : Expects p total more (piece ++ future) w) :
    Expects p total more future (w.arrive piece) := by
  obtain ⟨rest, body, hdue, hio, hout⟩ := h.due
  refine ⟨⟨rest, body, ?_, ?_, hout⟩, h.pending, h.expectation, h.plain, h.trail⟩
  · cases hdue with
    | head hstate hfits => exact .head hstate hfits
    | data hstate hd hsize hfits => exact .data hstate hd hsize hfits
    | close hstate hfits => exact .close hstate hfits
    | trailer hstate => exact .trailer hstate
  · show w.io ++ piece ++ future = rest ++ more
    rw [append_assoc, hio]

theorem Finished.arrive {piece : Bytes} (h : Finished total more (piece ++ future) w) :
    Finished total more future (w.arrive piece) := by
  refine ⟨h.state, h.out, ?_⟩
  show w.io ++ piece ++ future = more
  rw [append_assoc, h.rest]

end Work

namespace Connection

variable {p : Limits} {total more : Bytes} {c : Connection γ δ}

/-- The pieces that are still to come complete the reply, and what is behind it stays in the stream. -/
theorem receive_due (side : Side) (z : Zlib γ δ) (hlines : Work.AdmitsLines p) (pieces : List Bytes)
    (h : Work.Finished total more pieces.flatten (c.work side) ∨
      (Work.Expects p total more pieces.flatten (c.work side) ∧ pieces.flatten ≠ [])) :
    ∃ c', receive side z p pieces c = some c' ∧ Work.Finished total more [] (c'.work side) := by
  induction pieces generalizing c with
  | nil =>
    rcases h with hfinished | ⟨-, hne⟩
    · exact ⟨c, rfl, hfinished⟩
    · exact absurd rfl hne
  | cons piece pieces ih =>
    rw [receive]
    rcases h with hfinished | ⟨hexpects, -⟩
    · have hfinal : c.parser.parseState.isFinal = true := by
        rw [← parser_work side c, hfinished.state]
        rfl
      rw [if_pos hfinal]
      refine ih (Or.inl ?_)
      rw [work_arrive]
      exact hfinished.arrive
    · have hchunking := hexpects.chunking
      have hstate := hchunking
      rw [Work.Chunking, parser_work] at hstate
      have hfinal : c.parser.parseState.isFinal = false := by
        rw [← parser_work side c]
        exact hchunking.isFinal
      have hexpects' : Work.Expects p total more pieces.flatten ((c.arrive piece).work side) := by
        rw [work_arrive]
        exact hexpects.arrive
      obtain ⟨r, w, hcall, hnext⟩ := Work.parseChunksInternal_due z hexpects' hlines
      have hloop : callLoop side z p 2 (c.arrive piece) = some ((c.arrive piece).put side w) := by
        rw [callLoop_payload (c := c.arrive piece) side z p 1 _ _ hfinal,
          Work.parsePayloadInternal_chunking z p hexpects'.chunking, hcall]
        · rfl
        all_goals
          rw [parser_arrive]
          rcases hstate with hs | ⟨hs, -⟩ | hs | hs <;> rw [hs] <;> exact ParseState.noConfusion
      rw [if_neg (by rw [hfinal]; exact Bool.false_ne_true), hloop]
      refine ih ?_
      rw [work_put]
      exact hnext

end Connection

end Whispercast.Http
