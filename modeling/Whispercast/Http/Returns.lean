import Whispercast.Http.Incremental
import Whispercast.Http.Parser

/-!
# The ways out of a payload

Every `return` of the parser pairs a change of state with a set of bits. In a payload they fit together
(`Paired`) on all ways out but one: when the decoder of an earlier call fails on a gzip body that is not chunked
(`BodyStuck`), the bits say that the request is finished and the state says that the body is still being read.
-/

namespace Whispercast.Http

open Io Library

variable {γ δ : Type}

/-- The bits say that the request is finished when the state is final, and only then. -/
def Paired (r : ReadState) (s : ParseState) : Prop := r.isFinished = s.isFinal

instance (r : ReadState) (s : ParseState) : Decidable (Paired r s) := inferInstanceAs (Decidable (_ = _))

theorem paired_of_final {r : ReadState} {s : ParseState} (hr : r.isFinished = true) (hs : s.isFinal = true) :
    Paired r s := hr.trans hs.symm

theorem paired_of_not_final {r : ReadState} {s : ParseState} (hr : r.isFinished = false) (hs : s.isFinal = false) :
    Paired r s := hr.trans hs.symm

namespace Work

open ReadState

/-! ## Bodies with a length -/

/-- The gzip decoder fails on the data, or on what it leaves of it, before the body is over; `left` bytes of the
body are still to come. -/
def decoderFails (z : Zlib γ δ) (left : Int) : Nat → γ → Bytes → Bool
  | 0, _, _ => false
  | n + 1, g, data =>
    match z.decode g data with
    | (_, _, _, .error) => true
    | (g, _, rest, .streamEnd) =>
      if left = 0 ∧ rest = [] then false
      else if rest.length < data.length ∧ rest ≠ [] then decoderFails z left n g rest
      else false
    | (g, _, rest, .ok) =>
      if left = 0 then false
      else if rest.length < data.length ∧ rest ≠ [] then decoderFails z left n g rest
      else false

variable (z : Zlib γ δ)

/-- A way out of the gzip loop is paired, unless the decoder is an old one and fails. -/
theorem gunzipBody_spec (maybeTryDeflate : Bool) (n : Nat) (g : γ) (w : Work γ δ)
    (hstate : w.parser.parseState = .bodyReading) :
    match gunzipBody z maybeTryDeflate n g w with
    | .returned r w' =>
      (w'.parser.parseState = .bodyReading ∨ w'.parser.parseState.isFinal = true) ∧
        (Paired r w'.parser.parseState ↔
          ¬ (maybeTryDeflate = false ∧ decoderFails z w.parser.bodySizeToRead n g w.parser.partialData = true))
    | .left _ w' =>
      w'.parser.parseState = .bodyReading ∧
        ¬ (maybeTryDeflate = false ∧ decoderFails z w.parser.bodySizeToRead n g w.parser.partialData = true) := by
  induction n generalizing g w with
  | zero => simp [gunzipBody, decoderFails, hstate]
  | succ n ih =>
    rw [gunzipBody, decoderFails]
    rcases hdec : z.decode g w.parser.partialData with ⟨g', -, rest, zerr⟩
    cases zerr with
    | streamEnd =>
      dsimp only
      by_cases hend : w.parser.bodySizeToRead = 0 ∧ rest = []
      · rw [if_pos hend, if_pos hend]
        have hpaired : Paired (headerRead ||| bodyFinished ||| requestFinished) .bodyEnd := by decide
        exact ⟨Or.inr rfl, iff_of_true hpaired (by simp)⟩
      · rw [if_neg hend, if_neg hend]
        by_cases hmore : rest.length < w.parser.partialData.length ∧ rest ≠ []
        · rw [if_pos hmore, if_pos hmore]
          exact ih g' _ hstate
        · rw [if_neg hmore, if_neg hmore]
          exact ⟨hstate, by simp⟩
    | error =>
      cases maybeTryDeflate with
      | true => exact ⟨hstate, by simp⟩
      | false =>
        -- The way out that forgets the state.
        have hunpaired : ¬ Paired (headerRead ||| bodyReading ||| requestFinished) .bodyReading := by decide
        refine ⟨Or.inl hstate, iff_of_false ?_ (by simp)⟩
        rw [← hstate] at hunpaired
        exact hunpaired
    | ok =>
      dsimp only
      by_cases hend : w.parser.bodySizeToRead = 0
      · rw [if_pos hend, if_pos hend]
        have hpaired : Paired (headerRead ||| bodyFinished ||| requestFinished) .errorContentGzipUnfinished := by
          decide
        exact ⟨Or.inr rfl, iff_of_true hpaired (by simp)⟩
      · rw [if_neg hend, if_neg hend]
        by_cases hmore : rest.length < w.parser.partialData.length ∧ rest ≠ []
        · rw [if_pos hmore, if_pos hmore]
          exact ih g' _ hstate
        · rw [if_neg hmore, if_neg hmore]
          exact ⟨hstate, by simp⟩

theorem inflateBody_spec (w : Work γ δ) (hstate : w.parser.parseState = .bodyReading) :
    ((inflateBody z w).2.parser.parseState = .bodyReading ∨ (inflateBody z w).2.parser.parseState.isFinal = true) ∧
      Paired (inflateBody z w).1 (inflateBody z w).2.parser.parseState := by
  rw [inflateBody]
  rcases z.inflateSize (w.parser.inflateZwrapper.getD z.newInflate) w.parser.partialData with ⟨i, -, -, zerr⟩
  cases zerr with
  | streamEnd =>
    dsimp only
    by_cases hleft : 0 < w.parser.bodySizeToRead
    · rw [if_pos hleft]
      exact ⟨Or.inr rfl, paired_of_final (by dsimp only; decide) rfl⟩
    · rw [if_neg hleft]
      exact ⟨Or.inr rfl, paired_of_final (by dsimp only; decide) rfl⟩
  | error => exact ⟨Or.inr rfl, paired_of_final (by dsimp only; decide) rfl⟩
  | ok => exact ⟨Or.inl hstate, paired_of_not_final (by dsimp only; decide) (by dsimp only; rw [hstate]; rfl)⟩

/-- One beginning of a text at most has the letters of both names. -/
theorem not_gzip_and_deflate (h : Header) (hgzip : h.isGzipContentEncoding = true) :
    h.isDeflateContentEncoding = false := by
  rw [Header.isGzipContentEncoding, strIStartsWith, List.isPrefixOf_iff_prefix] at hgzip
  rw [Header.isDeflateContentEncoding, strIStartsWith, Bool.eq_false_iff]
  intro hdeflate
  rw [List.isPrefixOf_iff_prefix] at hdeflate
  rcases hgzip with ⟨s, hs⟩
  rcases hdeflate with ⟨t, ht⟩
  rw [← ht] at hs
  exact absurd (congrArg List.head? hs) (by simp [ascii, toUpper, isLower])

/-- The call reads a gzip body with the decoder of an earlier call, and the decoder fails. -/
def BodyStuck (z : Zlib γ δ) (p : Limits) (w : Work γ δ) : Prop :=
  ¬ (0 ≤ p.maxBodySize ∧ p.maxBodySize < w.parser.bodySizeToRead) ∧ w.header.isGzipContentEncoding = true ∧
    w.parser.inflateZwrapper.isSome = false ∧
      (w.parser.gzipZwrapper.map fun g => decoderFails z w.takeBody.parser.bodySizeToRead
        (w.takeBody.parser.partialData.length + 1) g w.takeBody.parser.partialData) = some true

instance (z : Zlib γ δ) (p : Limits) (w : Work γ δ) : Decidable (BodyStuck z p w) :=
  inferInstanceAs (Decidable (_ ∧ _))

theorem parseBodyInternal_spec (z : Zlib γ δ) (p : Limits) (w : Work γ δ)
    (hstate : w.parser.parseState = .bodyReading) :
    ∃ r w', parseBodyInternal z p w = some (r, w') ∧
      (w'.parser.parseState = .bodyReading ∨ w'.parser.parseState.isFinal = true) ∧
      (Paired r w'.parser.parseState ↔ ¬ BodyStuck z p w) := by
  rw [parseBodyInternal, guard, if_pos hstate]
  simp only [Option.pure_def, Option.bind_eq_bind, Option.bind_some]
  by_cases hlimit : 0 ≤ p.maxBodySize ∧ p.maxBodySize < w.parser.bodySizeToRead
  · rw [if_pos hlimit]
    exact ⟨_, _, rfl, Or.inr rfl, iff_of_true (paired_of_final (by decide) rfl) fun hstuck => hstuck.1 hlimit⟩
  · rw [if_neg hlimit]
    have htake : w.takeBody.parser.parseState = .bodyReading := hstate
    have hheader : w.takeBody.header = w.header := rfl
    have hinflate : w.takeBody.parser.inflateZwrapper = w.parser.inflateZwrapper := rfl
    have hgunzip : w.takeBody.parser.gzipZwrapper = w.parser.gzipZwrapper := rfl
    cases hgzip : w.header.isGzipContentEncoding with
    | true =>
      have hdeflate := not_gzip_and_deflate w.header hgzip
      cases hconvert : w.parser.inflateZwrapper.isSome with
      | true =>
        have hspec := inflateBody_spec z w.takeBody htake
        refine ⟨(inflateBody z w.takeBody).1, (inflateBody z w.takeBody).2, ?_, hspec.1, iff_of_true hspec.2 ?_⟩
        · simp [hheader, hinflate, hgzip, hdeflate, hconvert]
        · intro hstuck
          rw [BodyStuck, hconvert] at hstuck
          exact absurd hstuck.2.2.1 (by simp)
      | false =>
        have hspec := gunzipBody_spec z w.parser.gzipZwrapper.isNone
          (w.takeBody.parser.partialData.length + 1) (w.parser.gzipZwrapper.getD z.newGzip) w.takeBody htake
        have hstuck : BodyStuck z p w ↔ w.parser.gzipZwrapper.isNone = false ∧
            decoderFails z w.takeBody.parser.bodySizeToRead (w.takeBody.parser.partialData.length + 1)
              (w.parser.gzipZwrapper.getD z.newGzip) w.takeBody.parser.partialData = true := by
          rw [BodyStuck, hgzip, hconvert]
          cases hg : w.parser.gzipZwrapper with
          | none => simp
          | some g => simp [hlimit]
        rw [hstuck]
        simp only [hheader, hinflate, hgunzip, hgzip, hdeflate, hconvert, Bool.not_false, Bool.and_true,
          Bool.or_false, if_true]
        rcases hloop : gunzipBody z w.parser.gzipZwrapper.isNone (w.takeBody.parser.partialData.length + 1)
          (w.parser.gzipZwrapper.getD z.newGzip) w.takeBody with ⟨r, w'⟩ | ⟨isDeflated, w'⟩
        · rw [hloop] at hspec
          exact ⟨r, w', rfl, hspec.1, hspec.2⟩
        · rw [hloop] at hspec
          cases isDeflated with
          | true =>
            have hinf := inflateBody_spec z w' hspec.1
            exact ⟨_, _, rfl, hinf.1, iff_of_true hinf.2 hspec.2⟩
          | false =>
            refine ⟨_, _, rfl, Or.inl hspec.1, iff_of_true (paired_of_not_final (by decide) ?_) hspec.2⟩
            rw [hspec.1]
            rfl
    | false =>
      have hstuck : ¬ BodyStuck z p w := by
        rintro ⟨-, hgz, -⟩
        rw [hgzip] at hgz
        cases hgz
      cases hdeflate : w.header.isDeflateContentEncoding with
      | true =>
        have hspec := inflateBody_spec z w.takeBody htake
        refine ⟨(inflateBody z w.takeBody).1, (inflateBody z w.takeBody).2, ?_, hspec.1,
          iff_of_true hspec.2 hstuck⟩
        simp [hheader, hgzip, hdeflate]
      | false =>
        simp only [hheader, hgzip, hdeflate, Bool.and_false, Bool.false_and, Bool.or_false, Bool.false_eq_true,
          if_false]
        by_cases hzero : w.takeBody.parser.bodySizeToRead = 0
        · rw [if_pos hzero]
          exact ⟨_, _, rfl, Or.inr rfl, iff_of_true (paired_of_final (by decide) rfl) hstuck⟩
        · rw [if_neg hzero]
          refine ⟨_, _, rfl, Or.inl htake, iff_of_true (paired_of_not_final (by decide) ?_) hstuck⟩
          rw [htake]
          rfl

/-! ## Chunked bodies -/

/-- A state in the middle of a chunked body; in a chunk something is left to be read. -/
def Chunking (s : RequestParser γ δ) : Prop :=
  s.parseState = .chunkHeadReading ∨ (s.parseState = .chunkReading ∧ 0 < s.chunkSizeToRead) ∨
    s.parseState = .endOfChunk ∨ s.parseState = .lastChunkRead

theorem Chunking.isFinal {s : RequestParser γ δ} (h : Chunking s) : s.parseState.isFinal = false := by
  rcases h with h | ⟨h, -⟩ | h | h
  all_goals
    rw [h]
    rfl

/-- A call that returns is paired, and stays in the body unless the state is final. -/
def Returns (r : ReadState) (w : Work γ δ) : Prop :=
  Paired r w.parser.parseState ∧ (w.parser.parseState.isFinal = true ∨ Chunking w.parser)

/-- A turn of the loop returns properly, or goes on with a shorter stream. -/
def TurnOk (w : Work γ δ) : Turn γ δ → Prop
  | .returned r w' => Returns r w'
  | .next w' => Chunking w'.parser ∧ w'.io.length < w.io.length

variable {w : Work γ δ}

theorem returns_of_final {r : ReadState} (hr : r.isFinished = true)
    (hw : w.parser.parseState.isFinal = true) : Returns r w := ⟨paired_of_final hr hw, Or.inl hw⟩

theorem returns_of_chunking {r : ReadState} (hr : r.isFinished = false) (hw : Chunking w.parser) :
    Returns r w := ⟨paired_of_not_final hr hw.isFinal, Or.inr hw⟩

/-- A line that was read is taken off the stream. -/
theorem readLine_lt {io rest line : Bytes} (h : readLine io = (some line, rest)) : rest.length < io.length := by
  by_cases hlf : 10 ∈ io
  · obtain ⟨l, _, hl, rfl⟩ := Lines.exists_line hlf
    rw [readLine_line hl] at h
    cases h
    rw [List.length_append, List.length_cons]
    omega
  · rw [readLine_of_not_mem hlf] at h
    cases h

theorem readLine_none {io rest : Bytes} (h : readLine io = (none, rest)) : rest = io := by
  by_cases hlf : 10 ∈ io
  · obtain ⟨l, _, hl, rfl⟩ := Lines.exists_line hlf
    rw [readLine_line hl] at h
    cases h
  · rw [readLine_of_not_mem hlf] at h
    cases h
    rfl

theorem chunkHead_ok (p : Limits) (w : Work γ δ) (hstate : w.parser.parseState = .chunkHeadReading) :
    TurnOk w (chunkHead p w) := by
  have hfinished : (headerRead ||| chunkedBodyReading ||| requestFinished).isFinished = true := by decide
  rw [chunkHead]
  rcases hline : readLine w.io with ⟨_ | line, _⟩
  · dsimp only
    split_ifs
    · exact returns_of_final hfinished rfl
    · exact returns_of_chunking (by decide) (Or.inl hstate)
  · have hlt := readLine_lt hline
    dsimp only
    split_ifs with hbad hzero hexp hexp' hsize hnum
    · exact returns_of_final hfinished rfl
    · exact returns_of_final hfinished rfl
    · exact ⟨Or.inr (Or.inr (Or.inr rfl)), hlt⟩
    · exact returns_of_final hfinished rfl
    · exact returns_of_final hfinished rfl
    · exact returns_of_final hfinished rfl
    · refine ⟨Or.inr (Or.inl ⟨rfl, ?_⟩), hlt⟩
      show 0 < toInt32 (Numeral.strtol 16 line).1
      omega

theorem chunkEnd_ok (w : Work γ δ) (hstate : w.parser.parseState = .endOfChunk) : TurnOk w (chunkEnd w) := by
  rw [chunkEnd]
  rcases hline : readLine w.io with ⟨_ | _, _⟩
  · exact returns_of_chunking (by decide) (Or.inr (Or.inr (Or.inl hstate)))
  · have hlt := readLine_lt hline
    dsimp only
    split_ifs
    · exact returns_of_final (by decide) rfl
    · exact ⟨Or.inl rfl, hlt⟩

/-- The loop over gzip data leaves what is read of the stream alone. -/
theorem gunzipChunk_ok (maybeTryDeflate : Bool) (n : Nat) (g : γ) (w : Work γ δ) (hstate : Chunking w.parser) :
    match gunzipChunk z maybeTryDeflate n g w with
    | .returned r w' => Returns r w'
    | .left _ w' => Chunking w'.parser ∧ w'.io = w.io := by
  induction n generalizing g w with
  | zero => exact ⟨hstate, rfl⟩
  | succ n ih =>
    rw [gunzipChunk]
    rcases z.decode g w.parser.partialData with ⟨g', -, rest, zerr⟩
    cases zerr with
    | streamEnd =>
      dsimp only
      by_cases hmore : rest.length < w.parser.partialData.length ∧ rest ≠ []
      · rw [if_pos hmore]
        exact ih g' _ hstate
      · rw [if_neg hmore]
        exact ⟨hstate, rfl⟩
    | error =>
      cases maybeTryDeflate with
      | true => exact ⟨hstate, rfl⟩
      | false => exact returns_of_final (by decide) rfl
    | ok =>
      dsimp only
      by_cases hmore : rest.length < w.parser.partialData.length ∧ rest ≠ []
      · rw [if_pos hmore]
        exact ih g' _ hstate
      · rw [if_neg hmore]
        exact ⟨hstate, rfl⟩

theorem inflateChunk_ok {w₀ : Work γ δ} (hstate : Chunking w.parser)
    (hlt : w.io.length < w₀.io.length) : TurnOk w₀ (inflateChunk z w) := by
  rw [inflateChunk]
  rcases z.inflateSize (w.parser.inflateZwrapper.getD z.newInflate) w.parser.partialData with ⟨i, -, -, zerr⟩
  cases zerr with
  | streamEnd =>
    dsimp only
    split_ifs
    · exact returns_of_final (by decide) rfl
    · exact ⟨hstate, hlt⟩
  | error => exact returns_of_final (by decide) rfl
  | ok =>
    dsimp only
    split_ifs
    · exact ⟨hstate, hlt⟩
    · exact ⟨hstate, hlt⟩

/-- Something of the chunk is taken off a stream that is not empty. -/
theorem takeChunk_ok (hstate : w.parser.parseState = .chunkReading)
    (hsize : 0 < w.parser.chunkSizeToRead) (hio : w.io ≠ []) :
    Chunking w.takeChunk.parser ∧ w.takeChunk.io.length < w.io.length := by
  have hpos : 0 < w.io.length := List.length_pos_iff.2 hio
  constructor
  · by_cases hleft : w.parser.chunkSizeToRead - (min w.parser.chunkSizeToRead w.io.length).toNat = 0
    · refine Or.inr (Or.inr (Or.inl ?_))
      exact if_pos hleft
    · refine Or.inr (Or.inl ⟨?_, ?_⟩)
      · rw [← hstate]
        exact if_neg hleft
      · show 0 < w.parser.chunkSizeToRead - (min w.parser.chunkSizeToRead w.io.length).toNat
        omega
  · show (w.io.drop _).length < w.io.length
    rw [List.length_drop]
    omega

theorem chunkContent_ok (w : Work γ δ) (hstate : w.parser.parseState = .chunkReading)
    (hsize : 0 < w.parser.chunkSizeToRead) : ∃ t, chunkContent z w = some t ∧ TurnOk w t := by
  rw [chunkContent]
  simp only [Option.pure_def, Option.bind_eq_bind]
  by_cases hio : w.io = []
  · rw [if_pos hio]
    exact ⟨_, rfl, returns_of_chunking (by decide) (Or.inr (Or.inl ⟨hstate, hsize⟩))⟩
  · rw [if_neg hio]
    obtain ⟨htake, hlt⟩ := takeChunk_ok hstate hsize hio
    have hheader : w.takeChunk.header = w.header := rfl
    cases hgzip : w.header.isGzipContentEncoding with
    | true =>
      have hdeflate := not_gzip_and_deflate w.header hgzip
      cases hconvert : w.takeChunk.parser.inflateZwrapper.isSome with
      | true =>
        refine ⟨inflateChunk z w.takeChunk, ?_, inflateChunk_ok z htake hlt⟩
        simp [hheader, hgzip, hdeflate]
      | false =>
        simp only [hheader, hgzip, hdeflate, Bool.and_false, Bool.not_false, Bool.and_true, Bool.or_false,
          if_true, guard, Option.pure_def, Option.bind_some]
        split_ifs
        · exact ⟨_, rfl, htake, hlt⟩
        · exact ⟨_, rfl, returns_of_chunking (by decide) htake⟩
        · have hspec := gunzipChunk_ok z w.takeChunk.parser.gzipZwrapper.isNone
            (w.takeChunk.parser.partialData.length + 1) (w.takeChunk.parser.gzipZwrapper.getD z.newGzip)
            w.takeChunk htake
          rcases hloop : gunzipChunk z w.takeChunk.parser.gzipZwrapper.isNone
            (w.takeChunk.parser.partialData.length + 1) (w.takeChunk.parser.gzipZwrapper.getD z.newGzip)
            w.takeChunk with ⟨r, w'⟩ | ⟨isDeflated, w'⟩
          · rw [hloop] at hspec
            exact ⟨_, rfl, hspec⟩
          · rw [hloop] at hspec
            have hlt' : w'.io.length < w.io.length := by
              rw [hspec.2]
              exact hlt
            cases isDeflated with
            | true => exact ⟨_, rfl, inflateChunk_ok z hspec.1 hlt'⟩
            | false => exact ⟨_, rfl, hspec.1, hlt'⟩
    | false =>
      cases hdeflate : w.header.isDeflateContentEncoding with
      | true =>
        refine ⟨inflateChunk z w.takeChunk, ?_, inflateChunk_ok z htake hlt⟩
        simp [hheader, hgzip, hdeflate]
      | false =>
        refine ⟨.next { w.takeChunk with
          parser := { w.takeChunk.parser with partialData := [] }
          out := w.takeChunk.out ++ w.takeChunk.parser.partialData }, ?_, htake, hlt⟩
        simp [hheader, hgzip, hdeflate]

theorem parseTrailHeader_ok (p : Limits) (w : Work γ δ) (hstate : w.parser.parseState = .lastChunkRead) :
    ∃ r w', parseTrailHeader p w = some (r, w') ∧ Returns r w' := by
  rw [parseTrailHeader, guard, if_pos hstate]
  simp only [Option.pure_def, Option.bind_eq_bind, Option.bind_some]
  rcases w.parser.trailHeader.readHeaderFields w.io with ⟨done, -, -⟩
  cases done with
  | false =>
    dsimp only
    split_ifs
    · exact ⟨_, _, rfl, returns_of_final (by decide) rfl⟩
    · exact ⟨_, _, rfl, returns_of_chunking (by decide) (Or.inr (Or.inr (Or.inr hstate)))⟩
  | true =>
    dsimp only
    split_ifs
    · exact ⟨_, _, rfl, returns_of_final (by decide) rfl⟩
    · exact ⟨_, _, rfl, returns_of_final (by decide) rfl⟩

theorem chunkTurn_ok (p : Limits) (hstate : Chunking w.parser) : ∃ t, chunkTurn z p w = some t ∧ TurnOk w t := by
  rw [chunkTurn]
  rcases hstate with hs | ⟨hs, hsize⟩ | hs | hs
  · rw [hs]
    exact ⟨_, rfl, chunkHead_ok p w hs⟩
  · rw [hs]
    exact chunkContent_ok z w hs hsize
  · rw [hs]
    exact ⟨_, rfl, chunkEnd_ok w hs⟩
  · obtain ⟨r, _, hr, hok⟩ := parseTrailHeader_ok p w hs
    rw [hs]
    rw [hr]
    exact ⟨_, rfl, hok⟩

/-- The loop over the chunks returns: every turn that goes on takes something off the stream. -/
theorem parseChunksLoop_ok (p : Limits) {n : Nat} (hstate : Chunking w.parser)
    (hn : w.io.length < n) : ∃ r w', parseChunksLoop z p n w = some (r, w') ∧ Returns r w' := by
  induction n generalizing w with
  | zero => exact absurd hn (Nat.not_lt_zero _)
  | succ n ih =>
    obtain ⟨t, ht, hok⟩ := chunkTurn_ok z p hstate
    rw [parseChunksLoop, ht]
    cases t with
    | returned r w' => exact ⟨r, w', rfl, hok⟩
    | next w' => exact ih hok.1 (Nat.lt_of_lt_of_le hok.2 (Nat.le_of_lt_succ hn))

/-! ## Payloads -/

/-- What is left in a work in progress: the body with a length, or the chunks. -/
def InPayload (w : Work γ δ) : Prop := w.parser.parseState = .bodyReading ∨ Chunking w.parser

/-- The transmission mode is found, or the call returns with a final state. -/
theorem beginPayload_ok (p : Limits) (w : Work γ δ) : match beginPayload p w with
    | .returned r w' => Paired r w'.parser.parseState ∧ w'.parser.parseState.isFinal = true
    | .next w' => InPayload w' ∧ w'.parser.gzipZwrapper = w.parser.gzipZwrapper := by
  have hfinished : (headerRead ||| requestFinished).isFinished = true := by decide
  rw [beginPayload]
  split_ifs with hcontent htransfer hchunked
  · exact ⟨paired_of_final hfinished rfl, rfl⟩
  · exact ⟨paired_of_final hfinished rfl, rfl⟩
  · exact ⟨Or.inr (Or.inl rfl), rfl⟩
  · cases w.header.findField kHeaderContentLength with
    | none =>
      by_cases haccept : !p.acceptNoContentLength ∧ 0 < w.header.defaultBodyLen
      · rw [if_pos haccept]
        exact ⟨paired_of_final hfinished rfl, rfl⟩
      · rw [if_neg haccept]
        exact ⟨Or.inl rfl, rfl⟩
    | some s =>
      dsimp only
      by_cases hbad : (Numeral.strtol 10 s).2 ∨ toInt32 (Numeral.strtol 10 s).1 < 0
      · rw [if_pos hbad]
        exact ⟨paired_of_final hfinished rfl, rfl⟩
      · rw [if_neg hbad]
        exact ⟨Or.inl rfl, rfl⟩

theorem not_bodyStuck_of_none {z : Zlib γ δ} {p : Limits} (h : w.parser.gzipZwrapper = none) : ¬ BodyStuck z p w := by
  rintro ⟨-, -, -, hfails⟩
  rw [h] at hfails
  cases hfails

theorem parsePayload_spec (p : Limits) (hw : InPayload w) : ∃ r w', parsePayload z p w = some (r, w') ∧
      (InPayload w' ∨ w'.parser.parseState.isFinal = true) ∧
      (Paired r w'.parser.parseState ↔ ¬ (w.parser.parseState = .bodyReading ∧ BodyStuck z p w)) := by
  rw [parsePayload]
  rcases hw with hbody | hchunks
  · obtain ⟨r, w', hcall, hstate, hpaired⟩ := parseBodyInternal_spec z p w hbody
    rw [if_pos hbody]
    refine ⟨r, w', hcall, hstate.imp_left Or.inl, ?_⟩
    rw [hpaired, and_iff_right hbody]
  · obtain ⟨r, w', hcall, hpaired, hstate⟩ := parseChunksLoop_ok z p hchunks (Nat.lt_add_of_pos_right Nat.two_pos)
    have hne : w.parser.parseState ≠ .bodyReading := by
      rcases hchunks with h | ⟨h, -⟩ | h | h
      all_goals
        rw [h]
        exact ParseState.noConfusion
    have hge : ParseState.chunkHeadReading.toNat ≤ w.parser.parseState.toNat := by
      rcases hchunks with h | ⟨h, -⟩ | h | h
      all_goals simp [h, ParseState.toNat]
    rw [if_neg hne, guard, if_pos hge]
    exact ⟨r, w', hcall, hstate.symm.imp_left Or.inr, iff_of_true hpaired fun h => hne h.1⟩

theorem parsePayloadInternal_spec (p : Limits)
    (hw : InPayload w ∨ (w.parser.parseState = .endOfHeader ∧ w.parser.gzipZwrapper = none)) :
    ∃ r w', parsePayloadInternal z p w = some (r, w') ∧
      (InPayload w' ∨ w'.parser.parseState.isFinal = true) ∧
      (Paired r w'.parser.parseState ↔ ¬ (w.parser.parseState = .bodyReading ∧ BodyStuck z p w)) := by
  rw [parsePayloadInternal]
  rcases hw with hw | ⟨hend, hnone⟩
  · have hge : ParseState.endOfHeader.toNat ≤ w.parser.parseState.toNat := by
      rcases hw with h | h | ⟨h, -⟩ | h | h
      all_goals simp [h, ParseState.toNat]
    have hne : w.parser.parseState ≠ .endOfHeader := by
      rcases hw with h | h | ⟨h, -⟩ | h | h
      all_goals
        rw [h]
        exact ParseState.noConfusion
    rw [guard, if_pos hge, if_neg hne]
    exact parsePayload_spec z p hw
  · have hge : ParseState.endOfHeader.toNat ≤ w.parser.parseState.toNat := by
      rw [hend]
    have hno : ¬ (w.parser.parseState = .bodyReading ∧ BodyStuck z p w) := by
      rintro ⟨-, hstuck⟩
      exact not_bodyStuck_of_none hnone hstuck
    rw [guard, if_pos hge, if_pos hend]
    have hbegin := beginPayload_ok p w
    rcases hturn : beginPayload p w with ⟨r, w'⟩ | w'
    · rw [hturn] at hbegin
      exact ⟨r, w', rfl, Or.inr hbegin.2, iff_of_true hbegin.1 hno⟩
    · rw [hturn] at hbegin
      obtain ⟨r, w'', hcall, hstate, hpaired⟩ := parsePayload_spec z p hbegin.1
      -- The decoder is new, so the body cannot be stuck in this call.
      have hno' : ¬ (w'.parser.parseState = .bodyReading ∧ BodyStuck z p w') := by
        rintro ⟨-, hstuck⟩
        exact not_bodyStuck_of_none (hbegin.2.trans hnone) hstuck
      exact ⟨r, w'', hcall, hstate, iff_of_true (hpaired.2 hno') hno⟩

end Work

end Whispercast.Http
