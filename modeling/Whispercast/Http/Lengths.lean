import Whispercast.Http.Returns

/-!
# Lengths

How long a body is stands in the field `Content-Length`, how long a chunk is in its head line. What these say
by the grammar is `contentLengthOf` and `chunkLengthOf`. The parser asks `strtol`, and keeps the answer in 32
bits. The two agree on a text that is a number below 2³¹, and when `strtol` fails or the number that is left is
negative, so that the text is refused (`contentLength_iff`, `chunkHead_iff`).
-/

namespace Whispercast.Http

open Io Library Numeral

variable {γ δ : Type}

/-! ## What the texts say -/

/-- The number that is a `Content-Length`: a non-empty series of decimal digits. -/
def contentLengthOf (s : Bytes) : Option Nat :=
  if s ≠ [] ∧ s.all (Numeral.isDigit 10) then some (Numeral.value 10 s) else none

/-- The number at the head of a chunk: a non-empty series of hexadecimal digits, with the end of the line, a blank
or an extension behind it. A semicolon is the byte 59. -/
def chunkLengthOf (line : Bytes) : Option Nat :=
  let digits := line.takeWhile (Numeral.isDigit 16)
  if digits ≠ [] ∧ (line.dropWhile (Numeral.isDigit 16)).head?.all fun c => isWhiteSpace c || c = 59
  then some (Numeral.value 16 digits) else none

/-- A number that fits into an `int32`. -/
def fits (n : Nat) : Bool := n < 2 ^ 31

/-- `strtol` fails on the text, or its number is negative in 32 bits. -/
def Refused (base : Nat) (s : Bytes) : Prop :=
  (Numeral.strtol base s).2 = true ∨ toInt32 (Numeral.strtol base s).1 < 0

instance (base : Nat) (s : Bytes) : Decidable (Refused base s) := inferInstanceAs (Decidable (_ ∨ _))

theorem toInt32_of_fits {n : Nat} (h : fits n = true) : toInt32 n = n := by
  rw [fits, decide_eq_true_iff] at h
  rw [toInt32, Int.bmod_eq_of_le] <;> omega

theorem not_longMax_lt {n : Nat} (h : fits n = true) : ¬ (Numeral.longMax < (n : Int)) := by
  rw [fits, decide_eq_true_iff] at h
  rw [longMax]
  omega

theorem strtol_contentLength {s : Bytes} {n : Nat} (h : contentLengthOf s = some n) (hfits : fits n = true) :
    Numeral.strtol 10 s = ((n : Int), false) := by
  rw [contentLengthOf] at h
  split_ifs at h with hs
  rw [Option.some.injEq] at h
  have hdigits : ∀ c ∈ s, isDigit 10 c = true := List.all_eq_true.1 hs.2
  have hstrtol := strtol_digits (by decide : 10 ≤ 36) [] hdigits hs.1
    (fun c hc => by cases hc) (fun hb => absurd hb (by decide))
  rw [List.append_nil, h, if_neg (not_longMax_lt hfits)] at hstrtol
  exact hstrtol

theorem strtol_chunkLength {line : Bytes} {n : Nat} (h : chunkLengthOf line = some n) (hfits : fits n = true) :
    Numeral.strtol 16 line = ((n : Int), false) := by
  rw [chunkLengthOf] at h
  split_ifs at h with hline
  rw [Option.some.injEq] at h
  have hdigits : ∀ c ∈ line.takeWhile (isDigit 16), isDigit 16 c = true :=
    fun c hc => List.mem_takeWhile_imp hc
  have hbehind : ∀ c ∈ (line.dropWhile (isDigit 16)).head?, isWhiteSpace c = true ∨ c = 59 := by
    intro c hc
    have hall := hline.2
    rw [Option.mem_def] at hc
    simpa [hc] using hall
  have hstrtol := strtol_digits (by decide : 16 ≤ 36) (line.dropWhile (isDigit 16))
    hdigits hline.1 ?_ ?_
  · rwa [List.takeWhile_append_dropWhile, h, if_neg (not_longMax_lt hfits)] at hstrtol
  · intro c hc
    rcases hbehind c hc with hblank | rfl
    · rw [isWhiteSpace, Bool.or_eq_true, decide_eq_true_iff, decide_eq_true_iff] at hblank
      rcases hblank with rfl | rfl
      · decide
      · decide
    · decide
  · intro _ c hc
    rcases hbehind c hc with hblank | rfl
    · rw [isWhiteSpace, Bool.or_eq_true, decide_eq_true_iff, decide_eq_true_iff] at hblank
      rcases hblank with rfl | rfl
      · decide
      · decide
    · decide

namespace Work

open ReadState

/-! ## Content-Length -/

/-- The parser is at the end of a header without content encoding that gives the length as the text `s`. -/
structure HasLength (w : Work γ δ) (s : Bytes) : Prop where
  state : w.parser.parseState = .endOfHeader
  plain : w.header.findField kHeaderContentEncoding = none
  known : isKnownTransferEncoding w.header = true
  identity : w.header.isChunkedTransfer = false
  field : w.header.findField kHeaderContentLength = some s

/-- The parser with `n` bytes of a body to be read. -/
def reading (w : Work γ δ) (n : Int) : Work γ δ :=
  { w with parser := { w.parser with bodySizeToRead := n } }.setParseState .bodyReading

/-- The call ends in an error state. -/
def Errs (result : Option (ReadState × Work γ δ)) : Prop :=
  ∃ r w, result = some (r, w) ∧ w.parser.parseState.isError = true

/-- A length that is a number and fits is the length of the body, any other text is an error. -/
def ContentLengthHonoured (z : Zlib γ δ) (p : Limits) (w : Work γ δ) (s : Bytes) : Prop :=
  match (contentLengthOf s).filter fits with
  | some n => parsePayloadInternal z p w = parseBodyInternal z p (w.reading n)
  | none => Errs (parsePayloadInternal z p w)

/-- The text is a number that fits, or `strtol` or the conversion refuses it, or what they make of it is more than
the parser accepts. -/
def ContentLengthOk (p : Limits) (s : Bytes) : Prop :=
  (contentLengthOf s).any fits = true ∨ Refused 10 s ∨
    (0 ≤ p.maxBodySize ∧ p.maxBodySize < toInt32 (Numeral.strtol 10 s).1)

instance (p : Limits) (s : Bytes) : Decidable (ContentLengthOk p s) := inferInstanceAs (Decidable (_ ∨ _ ∨ _))

theorem plain_of_none {h : Header} (hplain : h.findField kHeaderContentEncoding = none) :
    isKnownContentEncoding h = true ∧ h.isGzipContentEncoding = false ∧ h.isDeflateContentEncoding = false := by
  refine ⟨?_, ?_, ?_⟩
  · rw [isKnownContentEncoding, hplain]
  · rw [Header.isGzipContentEncoding, hplain]
    decide
  · rw [Header.isDeflateContentEncoding, hplain]
    decide

theorem parsePayloadInternal_length (z : Zlib γ δ) (p : Limits) {w : Work γ δ} {s : Bytes} (h : HasLength w s) :
    parsePayloadInternal z p w =
      if Refused 10 s then
        some (headerRead ||| requestFinished, w.setParseState .errorHeaderBadContentLen)
      else parseBodyInternal z p (w.reading (toInt32 (Numeral.strtol 10 s).1)) := by
  have hge : ParseState.endOfHeader.toNat ≤ w.parser.parseState.toNat := by rw [h.state]
  rw [parsePayloadInternal, guard, if_pos hge, if_pos h.state, beginPayload]
  simp only [(plain_of_none h.plain).1, h.known, h.identity, h.field, Bool.not_true, Bool.false_eq_true, if_false,
    Option.pure_def, Option.bind_eq_bind, Option.bind_some]
  by_cases hrefused : (strtol 10 s).2 = true ∨ toInt32 (strtol 10 s).1 < 0
  · rw [if_pos hrefused, if_pos (show Refused 10 s from hrefused)]
  · rw [if_neg hrefused, if_neg (show ¬ Refused 10 s from hrefused)]
    rfl

/-- The header declares no compression. -/
def IdentityContent (h : Header) : Prop := h.isGzipContentEncoding = false ∧ h.isDeflateContentEncoding = false

/-- What is read of a body without encoding is no error, unless the body is too long. -/
theorem parseBodyInternal_identity (z : Zlib γ δ) (p : Limits) {w : Work γ δ}
    (hstate : w.parser.parseState = .bodyReading) (hplain : IdentityContent w.header) :
    parseBodyInternal z p w =
      if 0 ≤ p.maxBodySize ∧ p.maxBodySize < w.parser.bodySizeToRead then
        some (headerRead ||| requestFinished, w.setParseState .errorContentTooLong)
      else
        let w := w.takeBody
        let w := { w with parser := { w.parser with partialData := [] }, out := w.out ++ w.parser.partialData }
        if w.parser.bodySizeToRead = 0 then
          some (headerRead ||| bodyFinished ||| requestFinished, w.setParseState .bodyEnd)
        else some (headerRead ||| bodyReading, w) := by
  have hheader : w.takeBody.header = w.header := rfl
  rw [parseBodyInternal, guard, if_pos hstate]
  simp only [hheader, hplain.1, hplain.2, Bool.and_false, Bool.false_and, Bool.or_false, Bool.false_eq_true, if_false,
    Option.pure_def, Option.bind_eq_bind, Option.bind_some]

/-- Exactly when the length in a header is honoured. -/
theorem contentLength_iff (z : Zlib γ δ) (p : Limits) {w : Work γ δ} {s : Bytes} (h : HasLength w s) :
    ContentLengthHonoured z p w s ↔ ContentLengthOk p s := by
  rw [ContentLengthHonoured, ContentLengthOk, parsePayloadInternal_length z p h]
  cases hn : (contentLengthOf s).filter fits with
  | some n =>
    obtain ⟨hlen, hfits⟩ := Option.filter_eq_some_iff.1 hn
    have hstrtol := strtol_contentLength hlen hfits
    have hnot : ¬ Refused 10 s := by
      rw [Refused, hstrtol, toInt32_of_fits hfits]
      simp
    refine iff_of_true ?_ (Or.inl ?_)
    · rw [if_neg hnot, hstrtol, toInt32_of_fits hfits]
    · rw [hlen]
      exact hfits
  | none =>
    have hany : ¬ ((contentLengthOf s).any fits = true) := by
      intro hany
      rw [Option.any_eq_true] at hany
      obtain ⟨n, hlen, hfits⟩ := hany
      rw [hlen, Option.filter_some, if_pos hfits] at hn
      cases hn
    rw [or_iff_right hany]
    by_cases hrefused : Refused 10 s
    · rw [if_pos hrefused]
      exact iff_of_true ⟨_, _, rfl, rfl⟩ (Or.inl hrefused)
    · rw [if_neg hrefused, or_iff_right hrefused, parseBodyInternal_identity z p (w := w.reading _) rfl (plain_of_none h.plain).2]
      -- The number that is left is taken for a length.
      split_ifs with hmax
      · exact iff_of_true ⟨_, _, rfl, rfl⟩ hmax
      · refine iff_of_false ?_ hmax
        rintro ⟨r, _, hcall, herr⟩
        dsimp only at hcall
        split_ifs at hcall
        · cases hcall
          cases herr
        · cases hcall
          cases herr

/-! ## Chunk heads -/

/-- A chunk of `n` bytes is no longer than the parser accepts, nor is it one chunk too many. -/
def InLimits (p : Limits) (chunks n : Int) : Prop :=
  n ≤ p.maxChunkSize ∧ (0 ≤ p.maxNumChunks → chunks + 1 ≤ p.maxNumChunks)

instance (p : Limits) (chunks n : Int) : Decidable (InLimits p chunks n) := inferInstanceAs (Decidable (_ ∧ (_ → _)))

/-- The parser waits for a chunk head, with nothing expected of it, and its line has come. -/
structure HasHead (w : Work γ δ) (line rest : Bytes) : Prop where
  state : w.parser.parseState = .chunkHeadReading
  expectation : w.parser.nextChunkExpectation = .none
  line : readLine w.io = (some line, rest)

/-- The parser behind the last chunk. -/
def lastChunk (w : Work γ δ) (rest : Bytes) : Work γ δ := { w with io := rest }.setParseState .lastChunkRead

/-- The parser at the beginning of a chunk of `n` bytes. -/
def startChunk (w : Work γ δ) (n : Int) (rest : Bytes) : Work γ δ :=
  { w with
    parser := { w.parser with numChunksRead := w.parser.numChunksRead + 1, chunkSizeToRead := n }
    io := rest }.setParseState .chunkReading

/-- The turn ends in an error state behind the line, and delivers nothing. -/
def TurnErrs (w : Work γ δ) (rest : Bytes) (t : Turn γ δ) : Prop :=
  ∃ r w', t = .returned r w' ∧ w'.parser.parseState.isError = true ∧ w'.io = rest ∧ w'.out = w.out

/-- A head that says 0 is the last one, a head that says a number that fits and is in the limits begins a chunk of so
many bytes, any other head is an error. -/
def ChunkHeadHonoured (p : Limits) (w : Work γ δ) (line rest : Bytes) : Prop :=
  match (chunkLengthOf line).filter fits with
  | some 0 => chunkHead p w = .next (w.lastChunk rest)
  | some (n + 1) =>
    if InLimits p w.parser.numChunksRead (n + 1 : Nat) then chunkHead p w = .next (w.startChunk (n + 1 : Nat) rest)
    else TurnErrs w rest (chunkHead p w)
  | none => TurnErrs w rest (chunkHead p w)

/-- The head says a number that fits, or `strtol` or the conversion refuses it, or what they make of it is out of the
limits. -/
def ChunkHeadOk (p : Limits) (chunks : Int) (line : Bytes) : Prop :=
  (chunkLengthOf line).any fits = true ∨ Refused 16 line ∨
    (0 < toInt32 (Numeral.strtol 16 line).1 ∧ ¬ InLimits p chunks (toInt32 (Numeral.strtol 16 line).1))

instance (p : Limits) (chunks : Int) (line : Bytes) : Decidable (ChunkHeadOk p chunks line) :=
  inferInstanceAs (Decidable (_ ∨ _ ∨ _))

section

variable {p : Limits} {w : Work γ δ} {line rest : Bytes} (h : HasHead w line rest)

include h

theorem chunkHead_refused (hrefused : Refused 16 line) :
    chunkHead p w = .returned (headerRead ||| chunkedBodyReading ||| requestFinished)
      ({ w with io := rest }.setParseState .errorChunkBadChunkLength) := by
  rw [chunkHead, h.line]
  exact if_pos hrefused

theorem chunkHead_zero (hnot : ¬ Refused 16 line) (hzero : toInt32 (Numeral.strtol 16 line).1 = 0) :
    chunkHead p w = .next (w.lastChunk rest) := by
  have hexp : w.parser.nextChunkExpectation ≠ .nonEmpty := by
    rw [h.expectation]
    exact NextChunkExpectation.noConfusion
  rw [chunkHead, h.line]
  dsimp only
  rw [if_neg (show ¬ ((strtol 16 line).2 = true ∨ toInt32 (strtol 16 line).1 < 0) from hnot),
    if_pos hzero, if_neg hexp, ← h.expectation]
  rfl

theorem chunkHead_outside (hnot : ¬ Refused 16 line) (hzero : toInt32 (Numeral.strtol 16 line).1 ≠ 0)
    (hlimits : ¬ InLimits p w.parser.numChunksRead (toInt32 (Numeral.strtol 16 line).1)) :
    TurnErrs w rest (chunkHead p w) := by
  have hexp : w.parser.nextChunkExpectation ≠ .empty := by
    rw [h.expectation]
    exact NextChunkExpectation.noConfusion
  rw [chunkHead, h.line]
  dsimp only
  rw [if_neg (show ¬ ((strtol 16 line).2 = true ∨ toInt32 (strtol 16 line).1 < 0) from hnot),
    if_neg hzero, if_neg hexp]
  split_ifs with hsize hnum
  · exact ⟨_, _, rfl, rfl, rfl, rfl⟩
  · exact ⟨_, _, rfl, rfl, rfl, rfl⟩
  · exact absurd ⟨by omega, by omega⟩ hlimits

theorem chunkHead_inside (hnot : ¬ Refused 16 line) (hzero : toInt32 (Numeral.strtol 16 line).1 ≠ 0)
    (hlimits : InLimits p w.parser.numChunksRead (toInt32 (Numeral.strtol 16 line).1)) :
    chunkHead p w = .next (w.startChunk (toInt32 (Numeral.strtol 16 line).1) rest) := by
  have hexp : w.parser.nextChunkExpectation ≠ .empty := by
    rw [h.expectation]
    exact NextChunkExpectation.noConfusion
  have hnum : ¬ (0 ≤ p.maxNumChunks ∧ p.maxNumChunks < w.parser.numChunksRead + 1) := fun hnum =>
    absurd (hlimits.2 hnum.1) (by omega)
  rw [chunkHead, h.line]
  dsimp only
  rw [if_neg (show ¬ ((strtol 16 line).2 = true ∨ toInt32 (strtol 16 line).1 < 0) from hnot),
    if_neg hzero, if_neg hexp, if_neg (Int.not_lt.2 hlimits.1), if_neg hnum, ← h.expectation]
  rfl

end

/-- A head that says a number that fits is taken for that number. -/
theorem not_refused_of_chunkLength {line : Bytes} {n : Nat} (hlen : chunkLengthOf line = some n)
    (hfits : fits n = true) : ¬ Refused 16 line ∧ toInt32 (Numeral.strtol 16 line).1 = n := by
  have hstrtol := strtol_chunkLength hlen hfits
  rw [Refused, hstrtol, toInt32_of_fits hfits]
  exact ⟨by simp, rfl⟩

/-- Exactly when a chunk head is honoured. -/
theorem chunkHead_iff (p : Limits) {w : Work γ δ} {line rest : Bytes} (h : HasHead w line rest) :
    ChunkHeadHonoured p w line rest ↔ ChunkHeadOk p w.parser.numChunksRead line := by
  rw [ChunkHeadHonoured, ChunkHeadOk]
  cases hn : (chunkLengthOf line).filter fits with
  | some n =>
    obtain ⟨hlen, hfits⟩ := Option.filter_eq_some_iff.1 hn
    obtain ⟨hnot, hint⟩ := not_refused_of_chunkLength hlen hfits
    refine iff_of_true ?_ (Or.inl (by rw [hlen]; exact hfits))
    cases n with
    | zero => exact chunkHead_zero h hnot hint
    | succ n =>
      have hne : toInt32 (strtol 16 line).1 ≠ 0 := by
        rw [hint]
        omega
      dsimp only
      split_ifs with hlimits
      · rw [← hint] at hlimits ⊢
        exact chunkHead_inside h hnot hne hlimits
      · rw [← hint] at hlimits
        exact chunkHead_outside h hnot hne hlimits
  | none =>
    have hany : ¬ ((chunkLengthOf line).any fits = true) := by
      intro hany
      rw [Option.any_eq_true] at hany
      obtain ⟨n, hlen, hfits⟩ := hany
      rw [hlen, Option.filter_some, if_pos hfits] at hn
      cases hn
    rw [or_iff_right hany]
    by_cases hrefused : Refused 16 line
    · exact iff_of_true ⟨_, _, chunkHead_refused h hrefused, rfl, rfl, rfl⟩ (Or.inl hrefused)
    · rw [or_iff_right hrefused]
      by_cases hzero : toInt32 (strtol 16 line).1 = 0
      · -- No number is taken for the last chunk.
        refine iff_of_false ?_ fun hpos => absurd hpos.1 (by omega)
        rintro ⟨r, w', hturn, -⟩
        rw [chunkHead_zero h hrefused hzero] at hturn
        cases hturn
      · have hpos : 0 < toInt32 (strtol 16 line).1 := by
          have hge : ¬ toInt32 (strtol 16 line).1 < 0 := fun hneg => hrefused (Or.inr hneg)
          omega
        by_cases hlimits : InLimits p w.parser.numChunksRead (toInt32 (strtol 16 line).1)
        · refine iff_of_false ?_ fun hout => hout.2 hlimits
          rintro ⟨r, w', hturn, -⟩
          rw [chunkHead_inside h hrefused hzero hlimits] at hturn
          cases hturn
        · exact iff_of_true (chunkHead_outside h hrefused hzero hlimits) ⟨hpos, hlimits⟩

end Work

end Whispercast.Http
