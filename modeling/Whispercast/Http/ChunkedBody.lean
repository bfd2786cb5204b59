import Whispercast.Http.Finished
import Whispercast.Http.Lengths

/-!
# Chunked bodies

The grammar of a chunked body as a reader that takes one byte after the other (`ChunkedBody.byte`): head lines, the
bytes of a chunk, the line that closes it, and the trailer. It knows the lengths only by what the grammar says of
them. The parser reads lines and blocks, may be called with any part of the body there, and has limits; as long as
its chunk heads are honoured it is at each moment where the reader is after the bytes it has consumed, or a limit
is exceeded (`chunked_honoured`).
-/

namespace Whispercast.Http

open Io Library List MemoryStream ParseState

variable {γ δ : Type}

/-! ## The grammar -/

/-- Where a reader is: in a head line, in a chunk with bytes left, in the line that closes a chunk, behind the last
chunk, or behind an error. -/
inductive ChunkPhase where
  | head (line : Bytes)
  | data (left : Nat)
  | close (line : Bytes)
  | trailer (rest : Bytes)
  | bad (rest : Bytes)

/-- A reader of a chunked body: where it is, the number of chunks and what it has delivered. -/
structure ChunkedBody where
  phase : ChunkPhase
  chunks : Nat
  out : Bytes

namespace ChunkedBody

/-- The reader in front of a body. -/
def start : ChunkedBody := ⟨.head [], 0, []⟩

/-- The reader takes a byte. -/
def byte (s : ChunkedBody) (c : UInt8) : ChunkedBody :=
  match s.phase with
  | .head line =>
    if c = 10 then
      match (chunkLengthOf (MemoryStream.strTrimCRLF line)).filter fits with
      | some 0 => { s with phase := .trailer [] }
      | some (n + 1) => { s with phase := .data (n + 1), chunks := s.chunks + 1 }
      | none => { s with phase := .bad [] }
    else { s with phase := .head (line ++ [c]) }
  | .data left => { s with phase := if left ≤ 1 then .close [] else .data (left - 1), out := s.out ++ [c] }
  | .close line =>
    if c = 10 then { s with phase := if MemoryStream.strTrimCRLF line = [] then .head [] else .bad [] }
    else { s with phase := .close (line ++ [c]) }
  | .trailer rest => { s with phase := .trailer (rest ++ [c]) }
  | .bad rest => { s with phase := .bad (rest ++ [c]) }

/-- The reader takes a series of bytes. -/
def bytes (s : ChunkedBody) (b : Bytes) : ChunkedBody := b.foldl byte s

/-- The reader after a body, or a part of it. -/
def read (b : Bytes) : ChunkedBody := start.bytes b

theorem bytes_append (s : ChunkedBody) (a b : Bytes) : s.bytes (a ++ b) = (s.bytes a).bytes b := foldl_append

theorem read_append (a b : Bytes) : read (a ++ b) = (read a).bytes b := bytes_append start a b

/-- The reader collects bytes in a phase. -/
theorem bytes_collected (P : Bytes → ChunkPhase) {l : Bytes} {chunks : Nat} {out : Bytes}
    (hstep : ∀ line, ∀ c ∈ l, (⟨P line, chunks, out⟩ : ChunkedBody).byte c = ⟨P (line ++ [c]), chunks, out⟩)
    (line : Bytes) : (⟨P line, chunks, out⟩ : ChunkedBody).bytes l = ⟨P (line ++ l), chunks, out⟩ := by
  induction l generalizing line with
  | nil => rw [append_nil]; rfl
  | cons c l ih =>
    rw [bytes, foldl_cons, hstep line c mem_cons_self]
    exact (ih (fun line d hd => hstep line d (mem_cons_of_mem c hd)) (line ++ [c])).trans
      (by rw [append_assoc, singleton_append])

theorem bytes_head {l : Bytes} (hl : 10 ∉ l) (line : Bytes) (chunks : Nat) (out : Bytes) :
    (⟨.head line, chunks, out⟩ : ChunkedBody).bytes l = ⟨.head (line ++ l), chunks, out⟩ :=
  bytes_collected .head (fun _ _ hc => by simp [byte, ne_of_mem_of_not_mem hc hl]) line

theorem bytes_close {l : Bytes} (hl : 10 ∉ l) (line : Bytes) (chunks : Nat) (out : Bytes) :
    (⟨.close line, chunks, out⟩ : ChunkedBody).bytes l = ⟨.close (line ++ l), chunks, out⟩ :=
  bytes_collected .close (fun _ _ hc => by simp [byte, ne_of_mem_of_not_mem hc hl]) line

theorem bytes_trailer (b rest : Bytes) (chunks : Nat) (out : Bytes) :
    (⟨.trailer rest, chunks, out⟩ : ChunkedBody).bytes b = ⟨.trailer (rest ++ b), chunks, out⟩ :=
  bytes_collected .trailer (fun _ _ _ => rfl) rest

theorem bytes_bad (b rest : Bytes) (chunks : Nat) (out : Bytes) :
    (⟨.bad rest, chunks, out⟩ : ChunkedBody).bytes b = ⟨.bad (rest ++ b), chunks, out⟩ :=
  bytes_collected .bad (fun _ _ _ => rfl) rest

/-- The bytes of a chunk are delivered, and nothing else is. -/
theorem bytes_data {d : Bytes} {left : Nat} (hpos : 0 < left) (hle : d.length ≤ left) (chunks : Nat) (out : Bytes) :
    (⟨.data left, chunks, out⟩ : ChunkedBody).bytes d =
      ⟨if d.length = left then .close [] else .data (left - d.length), chunks, out ++ d⟩ := by
  induction d generalizing left out with
  | nil => rw [length_nil, if_neg (by omega), append_nil]; rfl
  | cons c d ih =>
    rw [length_cons] at hle
    rw [bytes, foldl_cons, byte]
    dsimp only
    by_cases hone : left ≤ 1
    · have hd : d = [] := length_eq_zero_iff.1 (by omega)
      have hlen : (c :: d).length = left := by rw [hd, length_singleton]; omega
      rw [if_pos hone, if_pos hlen, hd]
      rfl
    · rw [if_neg hone]
      refine (ih (by omega) (by omega) (out ++ [c])).trans ?_
      rw [append_assoc, singleton_append, length_cons, Nat.sub_add_eq, Nat.sub_right_comm]
      have hiff : d.length = left - 1 ↔ d.length + 1 = left := by omega
      simp only [hiff]

end ChunkedBody

/-! ## The parser and the grammar -/

/-- A chunk head of the body `b` is out of the limits: its line is too long, or its number is. -/
def Exceeds (p : Limits) (b : Bytes) : Prop :=
  ∃ front rest line, b = front ++ rest ∧ (ChunkedBody.read front).phase = .head line ∧
    (toUint32 p.maxHeaderSize < line.length ∨
      ∃ tail n, rest = 10 :: tail ∧ (chunkLengthOf (MemoryStream.strTrimCRLF line)).filter fits = some n ∧
        0 < n ∧ ¬ Work.InLimits p (ChunkedBody.read front).chunks n)

/-- Every chunk head of the body `b` says a number that fits, or is refused. -/
def HeadsOk (p : Limits) (b : Bytes) : Prop :=
  ∀ front tail line, b = front ++ 10 :: tail → (ChunkedBody.read front).phase = .head line →
    Work.ChunkHeadOk p (ChunkedBody.read front).chunks (MemoryStream.strTrimCRLF line)

/-- A line that ends behind the bytes `front` of a body is no head, or a head that is honoured. -/
def headAt (p : Limits) (front : Bytes) : Bool :=
  match (ChunkedBody.read front).phase with
  | .head line => Work.ChunkHeadOk p (ChunkedBody.read front).chunks (MemoryStream.strTrimCRLF line)
  | _ => true

theorem headsOk_iff (p : Limits) (b : Bytes) :
    HeadsOk p b ↔ ∀ i < b.length, b[i]? = some 10 → headAt p (b.take i) = true := by
  constructor
  · intro hok i hi hlf
    rw [headAt]
    split
    · next line hphase =>
      have hcut : b = b.take i ++ 10 :: b.drop (i + 1) := by
        rw [getElem?_eq_getElem hi, Option.some.injEq] at hlf
        rw [← hlf, getElem_cons_drop, take_append_drop]
      exact decide_eq_true (hok _ _ line hcut hphase)
    · rfl
  · rintro hok front _ line rfl hphase
    have hat := hok front.length (by simp) (by simp)
    rw [take_left, headAt, hphase] at hat
    exact of_decide_eq_true hat

instance (p : Limits) (b : Bytes) : Decidable (HeadsOk p b) := decidable_of_iff' _ (headsOk_iff p b)

namespace Work

open ReadState

/-- A parser in the middle of chunks has nothing pending. -/
structure Clean (w : Work γ δ) (s : ChunkedBody) : Prop where
  chunks : w.parser.numChunksRead = s.chunks
  pending : w.parser.partialData = []
  expectation : w.parser.nextChunkExpectation = .none
  plain : w.header.findField kHeaderContentEncoding = none

/-- The parser is where the reader is, and has delivered the same. It takes whole lines, so it is never in the
middle of one. -/
def Synced (w : Work γ δ) (s : ChunkedBody) : Prop :=
  w.out = s.out ∧
    match s.phase with
    | .head line => line = [] ∧ w.parser.parseState = .chunkHeadReading ∧ Clean w s
    | .data left => 0 < left ∧ w.parser.parseState = .chunkReading ∧ w.parser.chunkSizeToRead = left ∧ Clean w s
    | .close line => line = [] ∧ w.parser.parseState = .endOfChunk ∧ Clean w s
    | .trailer _ =>
      w.parser.parseState = .lastChunkRead ∨ w.parser.parseState = .endOfTrailHeader ∨
        w.parser.parseState = .errorChunkTrailerTooLong ∨ w.parser.parseState = .errorChunkTrailHeader
    | .bad _ => w.parser.parseState.isError = true

/-- The parser has taken what there is: it waits for the rest of a line, or for more of a chunk. -/
def Waiting (w : Work γ δ) : Prop :=
  match w.parser.parseState with
  | .chunkHeadReading | .endOfChunk => 10 ∉ w.io
  | .chunkReading => w.io = []
  | _ => True

/-- The parser has consumed the bytes `c` of what was there, and is where the reader is behind them. -/
structure Tracks (before : Bytes) (w : Work γ δ) (c : Bytes) : Prop where
  split : c ++ w.io = before
  synced : Synced w (ChunkedBody.read c)

/-- What a call on the body `b` leaves, when all of `before` has come: it is where the reader is and waits, or it is
in an error state since a limit is exceeded. -/
def Settled (p : Limits) (b before : Bytes) (w : Work γ δ) : Prop :=
  (w.parser.parseState.isError = true ∧ Exceeds p b) ∨ ∃ c, Tracks before w c ∧ Waiting w

/-- A turn settles, or goes on with fewer bytes. -/
def TurnTracks (p : Limits) (b before : Bytes) (w : Work γ δ) : Turn γ δ → Prop
  | .returned _ w' => Settled p b before w'
  | .next w' => (∃ c, Tracks before w' c) ∧ w'.io.length < w.io.length

variable {p : Limits} {b before c : Bytes} {w : Work γ δ}

theorem waiting_of_state {s : ParseState} (hstate : w.parser.parseState = s) (hhead : s ≠ .chunkHeadReading)
    (hclose : s ≠ .endOfChunk) (hdata : s ≠ .chunkReading) : Waiting w := by
  rw [Waiting, hstate]
  cases s <;> trivial

theorem waiting_of_final (hfinal : w.parser.parseState.isFinal = true) : Waiting w := by
  apply waiting_of_state rfl
  all_goals
    intro hstate
    rw [hstate] at hfinal
    cases hfinal

theorem isFinal_of_isError {s : ParseState} (h : s.isError = true) : s.isFinal = true := by
  rw [isError, decide_eq_true_iff] at h
  rw [isFinal, decide_eq_true_iff]
  omega

variable {chunks : Nat} {out : Bytes}

theorem chunkHead_tracks (htracks : Tracks before w c) (hbefore : before <+: b) (hok : HeadsOk p b) (hread : ChunkedBody.read c = ⟨.head [], chunks, out⟩) :
    TurnTracks p b before w (chunkHead p w) := by
  obtain ⟨hsplit, hsynced⟩ := htracks
  have hs := hsynced
  rw [hread] at hs
  obtain ⟨hout, -, hstate, hclean⟩ := hs
  obtain ⟨later, rfl⟩ := hbefore
  by_cases hlf : 10 ∈ w.io
  · obtain ⟨l, rest, hl, hio⟩ := Lines.exists_line hlf
    have hhead : HasHead w (strTrimCRLF l) rest :=
      ⟨hstate, hclean.expectation, by rw [hio, readLine_line hl]⟩
    have hfront : ChunkedBody.read (c ++ l) = ⟨.head l, chunks, out⟩ := by
      rw [ChunkedBody.read_append, hread, ChunkedBody.bytes_head hl, nil_append]
    have hline : before ++ later = (c ++ l) ++ 10 :: (rest ++ later) := by
      rw [← hsplit, hio]
      simp
    have hheadOk := hok _ _ l hline (by rw [hfront])
    rw [hfront, show ((⟨.head l, chunks, out⟩ : ChunkedBody).chunks : Int) = w.parser.numChunksRead from
      hclean.chunks.symm] at hheadOk
    have hhonoured := (chunkHead_iff p hhead).2 hheadOk
    have hsplit' : (c ++ l ++ [10]) ++ rest = before := by
      rw [← hsplit, hio]
      simp
    have hnext : ChunkedBody.read (c ++ l ++ [10]) = (⟨.head l, chunks, out⟩ : ChunkedBody).byte 10 := by
      rw [ChunkedBody.read_append, hfront]
      rfl
    rw [ChunkHeadHonoured] at hhonoured
    rcases hn : (chunkLengthOf (strTrimCRLF l)).filter fits with _ | (_ | n)
    · -- Not a number: an error behind the line.
      rw [hn] at hhonoured
      obtain ⟨r, w', hturn, herr, hio', hout'⟩ := hhonoured
      rw [hturn]
      refine Or.inr ⟨c ++ l ++ [10], ⟨by rw [hio', hsplit'], ?_⟩, waiting_of_final (isFinal_of_isError herr)⟩
      rw [hnext, ChunkedBody.byte]
      dsimp only
      rw [if_pos rfl, hn]
      exact ⟨hout'.trans hout, herr⟩
    · rw [hn] at hhonoured
      rw [hhonoured]
      refine ⟨⟨c ++ l ++ [10], ⟨hsplit', ?_⟩⟩, ?_⟩
      · rw [hnext, ChunkedBody.byte]
        dsimp only
        rw [if_pos rfl, hn]
        exact ⟨hout, Or.inl rfl⟩
      · rw [hio]
        simp only [lastChunk, setParseState, length_append, length_cons]
        omega
    · rw [hn] at hhonoured
      dsimp only at hhonoured
      by_cases hlimits : InLimits p w.parser.numChunksRead (n + 1 : Nat)
      · rw [if_pos hlimits] at hhonoured
        rw [hhonoured]
        refine ⟨⟨c ++ l ++ [10], ⟨hsplit', ?_⟩⟩, ?_⟩
        · rw [hnext, ChunkedBody.byte]
          dsimp only
          rw [if_pos rfl, hn]
          refine ⟨hout, Nat.succ_pos n, rfl, rfl, ?_, hclean.pending, hclean.expectation, hclean.plain⟩
          show w.parser.numChunksRead + 1 = ((chunks + 1 : Nat) : Int)
          rw [hclean.chunks]
          rfl
        · rw [hio]
          simp only [startChunk, setParseState, length_append, length_cons]
          omega
      · rw [if_neg hlimits] at hhonoured
        obtain ⟨r, w', hturn, herr, -, -⟩ := hhonoured
        rw [hturn]
        refine Or.inl ⟨herr, _, _, l, hline, by rw [hfront], Or.inr ⟨_, n + 1, rfl, hn, Nat.succ_pos n, ?_⟩⟩
        rw [hfront]
        rwa [hclean.chunks] at hlimits
  · have hfront : ChunkedBody.read (c ++ w.io) = ⟨.head w.io, chunks, out⟩ := by
      rw [ChunkedBody.read_append, hread, ChunkedBody.bytes_head hlf, nil_append]
    rw [chunkHead, readLine_of_not_mem hlf]
    dsimp only
    split_ifs with hlong
    · refine Or.inl ⟨rfl, c ++ w.io, later, w.io, by rw [hsplit], by rw [hfront], Or.inl hlong⟩
    · refine Or.inr ⟨c, ⟨hsplit, hsynced⟩, ?_⟩
      rw [Waiting, hstate]
      exact hlf

theorem chunkEnd_tracks (htracks : Tracks before w c)
    (hread : ChunkedBody.read c = ⟨.close [], chunks, out⟩) : TurnTracks p b before w (chunkEnd w) := by
  obtain ⟨hsplit, hsynced⟩ := htracks
  have hs := hsynced
  rw [hread] at hs
  obtain ⟨hout, -, hstate, hclean⟩ := hs
  by_cases hlf : 10 ∈ w.io
  · obtain ⟨l, rest, hl, hio⟩ := Lines.exists_line hlf
    have hsplit' : (c ++ l ++ [10]) ++ rest = before := by
      rw [← hsplit, hio]
      simp
    have hnext : ChunkedBody.read (c ++ l ++ [10]) = (⟨.close l, chunks, out⟩ : ChunkedBody).byte 10 := by
      rw [ChunkedBody.read_append, ChunkedBody.read_append, hread, ChunkedBody.bytes_close hl, nil_append]
      rfl
    rw [chunkEnd, hio, readLine_line hl]
    dsimp only
    by_cases hempty : strTrimCRLF l = []
    · rw [if_neg (not_not.2 hempty)]
      refine ⟨⟨c ++ l ++ [10], ⟨hsplit', ?_⟩⟩, ?_⟩
      · rw [hnext, ChunkedBody.byte]
        dsimp only
        rw [if_pos rfl, if_pos hempty]
        exact ⟨hout, rfl, rfl, hclean.chunks, hclean.pending, hclean.expectation, hclean.plain⟩
      · rw [hio]
        simp only [setParseState, length_append, length_cons]
        omega
    · rw [if_pos hempty]
      refine Or.inr ⟨c ++ l ++ [10], ⟨hsplit', ?_⟩, waiting_of_final rfl⟩
      rw [hnext, ChunkedBody.byte]
      dsimp only
      rw [if_pos rfl, if_neg hempty]
      exact ⟨hout, rfl⟩
  · rw [chunkEnd, readLine_of_not_mem hlf]
    refine Or.inr ⟨c, ⟨hsplit, hsynced⟩, ?_⟩
    rw [Waiting, hstate]
    exact hlf

variable (z : Zlib γ δ)

/-- The content of a chunk that is not encoded goes out as it is. -/
theorem chunkContent_identity (hplain : IdentityContent w.header) (hio : w.io ≠ []) :
    chunkContent z w = some (.next { w.takeChunk with
      parser := { w.takeChunk.parser with partialData := [] }
      out := w.takeChunk.out ++ w.takeChunk.parser.partialData }) := by
  have hheader : w.takeChunk.header = w.header := rfl
  rw [chunkContent]
  simp only [hheader, hplain.1, hplain.2, Bool.false_and, Bool.or_false, Bool.false_eq_true, if_false, if_neg hio,
    Option.pure_def, Option.bind_eq_bind]

theorem chunkContent_tracks (htracks : Tracks before w c) {left : Nat}
    (hread : ChunkedBody.read c = ⟨.data left, chunks, out⟩) :
    ∃ t, chunkContent z w = some t ∧ TurnTracks p b before w t := by
  obtain ⟨hsplit, hsynced⟩ := htracks
  have hs := hsynced
  rw [hread] at hs
  obtain ⟨hout, hpos, hstate, hsize, hclean⟩ := hs
  by_cases hio : w.io = []
  · refine ⟨.returned (headerRead ||| chunkedBodyReading) w, ?_, Or.inr ⟨c, ⟨hsplit, hsynced⟩, ?_⟩⟩
    · rw [chunkContent, if_pos hio]
      rfl
    · rw [Waiting, hstate]
      exact hio
  · refine ⟨_, chunkContent_identity z (plain_of_none hclean.plain).2 hio, ?_⟩
    have hlen : 0 < w.io.length := length_pos_iff.2 hio
    have htake : (min w.parser.chunkSizeToRead w.io.length).toNat = min left w.io.length := by
      rw [hsize]
      omega
    have hle : (w.io.take (min left w.io.length)).length ≤ left := by
      rw [length_take]
      omega
    have hnext : ChunkedBody.read (c ++ w.io.take (min left w.io.length)) =
        ⟨if min left w.io.length = left then .close [] else .data (left - min left w.io.length), chunks,
          out ++ w.io.take (min left w.io.length)⟩ := by
      rw [ChunkedBody.read_append, hread, ChunkedBody.bytes_data hpos hle, length_take, Nat.min_assoc,
        Nat.min_self]
    constructor
    · refine ⟨c ++ w.io.take (min left w.io.length), ?_, ?_⟩
      · show _ ++ w.io.drop _ = before
        rw [htake, append_assoc, take_append_drop, hsplit]
      · rw [hnext]
        have hgone : w.takeChunk.parser.partialData = w.io.take (min left w.io.length) := by
          show w.parser.partialData ++ w.io.take _ = _
          rw [htake, hclean.pending, nil_append]
        refine ⟨?_, ?_⟩
        · show w.out ++ w.takeChunk.parser.partialData = _
          rw [hgone, hout]
        · have hleft : w.takeChunk.parser.chunkSizeToRead = ((left - min left w.io.length : Nat) : Int) := by
            show w.parser.chunkSizeToRead - ((min w.parser.chunkSizeToRead w.io.length).toNat : Int) = _
            rw [htake, hsize]
            omega
          have hstate' : w.takeChunk.parser.parseState =
              if w.takeChunk.parser.chunkSizeToRead = 0 then .endOfChunk else w.parser.parseState := rfl
          by_cases hall : min left w.io.length = left
          · rw [if_pos hall]
            refine ⟨rfl, ?_, hclean.chunks, rfl, hclean.expectation, hclean.plain⟩
            rw [hstate', if_pos (by rw [hleft]; omega)]
          · rw [if_neg hall]
            refine ⟨by omega, ?_, hleft, hclean.chunks, rfl, hclean.expectation, hclean.plain⟩
            rw [hstate', if_neg (by rw [hleft]; omega), hstate]
    · show (w.io.drop _).length < w.io.length
      rw [htake, length_drop]
      omega

/-- What is left of a trailer is its end. -/
theorem readHeaderFields_suffix (io : Bytes) (h : Header) : ∃ front, front ++ (h.readHeaderFields io).2.2 = io := by
  induction io using stream_induction generalizing h with
  | tail io hlf =>
    rw [Header.readHeaderFields_of_not_mem hlf]
    exact ⟨[], rfl⟩
  | line l io hl ih =>
    rw [Header.readHeaderFields_line hl]
    dsimp only
    split_ifs with hempty
    · exact ⟨l ++ [10], by simp⟩
    · obtain ⟨front, hfront⟩ := ih ((h.addBytesParsed (strTrimCRLF l).length).readFieldLine
        (strTrimCRLF l))
      refine ⟨l ++ 10 :: front, ?_⟩
      rw [append_assoc, cons_append, hfront]

theorem parseTrailHeader_tracks (htracks : Tracks before w c) (hstate : w.parser.parseState = .lastChunkRead)
    {rest : Bytes} (hread : ChunkedBody.read c = ⟨.trailer rest, chunks, out⟩) :
    ∃ r w', parseTrailHeader p w = some (r, w') ∧ Settled p b before w' := by
  obtain ⟨hsplit, hsynced⟩ := htracks
  have hs := hsynced
  rw [hread] at hs
  have hout := hs.1
  obtain ⟨front, hfront⟩ := readHeaderFields_suffix w.io w.parser.trailHeader
  rw [parseTrailHeader, guard, if_pos hstate]
  simp only [Option.pure_def, Option.bind_eq_bind, Option.bind_some]
  rcases hcall : w.parser.trailHeader.readHeaderFields w.io with ⟨done, _, io⟩
  rw [hcall] at hfront
  have hsettled : ∀ w' : Work γ δ, w'.out = w.out → w'.io = io →
      (w'.parser.parseState = .lastChunkRead ∨ w'.parser.parseState = .endOfTrailHeader ∨
        w'.parser.parseState = .errorChunkTrailerTooLong ∨ w'.parser.parseState = .errorChunkTrailHeader) →
      Settled p b before w' := by
    intro w' hout' hio' hstate'
    refine Or.inr ⟨c ++ front, ⟨?_, ?_⟩, ?_⟩
    · rw [hio', append_assoc, hfront, hsplit]
    · rw [ChunkedBody.read_append, hread, ChunkedBody.bytes_trailer]
      exact ⟨hout'.trans hout, hstate'⟩
    · rcases hstate' with hs | hs | hs | hs
      all_goals exact waiting_of_state hs noConfusion noConfusion noConfusion
  cases done with
  | false =>
    dsimp only
    split_ifs
    · exact ⟨_, _, rfl, hsettled _ rfl rfl (Or.inr (Or.inr (Or.inl rfl)))⟩
    · exact ⟨_, _, rfl, hsettled _ rfl rfl (Or.inl hstate)⟩
  | true =>
    dsimp only
    split_ifs
    · exact ⟨_, _, rfl, hsettled _ rfl rfl (Or.inr (Or.inr (Or.inr rfl)))⟩
    · exact ⟨_, _, rfl, hsettled _ rfl rfl (Or.inr (Or.inl rfl))⟩

theorem chunkTurn_tracks (htracks : Tracks before w c) (hstate : w.parser.parseState.isFinal = false)
    (hbefore : before <+: b) (hok : HeadsOk p b) :
    ∃ t, chunkTurn z p w = some t ∧ TurnTracks p b before w t := by
  have hs := htracks.synced
  rcases hread : ChunkedBody.read c with ⟨line | _ | line | rest | rest, _, _⟩
  · rw [hread] at hs
    obtain ⟨-, rfl, hhead, -⟩ := hs
    rw [chunkTurn, hhead]
    exact ⟨_, rfl, chunkHead_tracks htracks hbefore hok hread⟩
  · rw [hread] at hs
    obtain ⟨-, -, hdata, -⟩ := hs
    rw [chunkTurn, hdata]
    exact chunkContent_tracks z htracks hread
  · rw [hread] at hs
    obtain ⟨-, rfl, hclose, -⟩ := hs
    rw [chunkTurn, hclose]
    exact ⟨_, rfl, chunkEnd_tracks htracks hread⟩
  · rw [hread] at hs
    rcases hs.2 with hlast | hlast | hlast | hlast
    · obtain ⟨r, _, hcall, hsettled⟩ := parseTrailHeader_tracks (p := p) (b := b) htracks hlast hread
      rw [chunkTurn, hlast]
      rw [hcall]
      exact ⟨_, rfl, hsettled⟩
    all_goals
      rw [hlast] at hstate
      cases hstate
  · rw [hread] at hs
    rw [isFinal_of_isError hs.2] at hstate
    cases hstate

theorem parseChunksLoop_tracks {n : Nat} (htracks : Tracks before w c)
    (hstate : Chunking w.parser) (hn : w.io.length < n) (hbefore : before <+: b) (hok : HeadsOk p b) :
    ∃ r w', parseChunksLoop z p n w = some (r, w') ∧ Settled p b before w' := by
  induction n generalizing w c with
  | zero => exact absurd hn (Nat.not_lt_zero _)
  | succ n ih =>
    obtain ⟨t, ht, hturn⟩ := chunkTurn_tracks z htracks hstate.isFinal hbefore hok
    obtain ⟨t', ht', hturnOk⟩ := chunkTurn_ok z p hstate
    obtain rfl : t = t' := by
      rw [ht, Option.some.injEq] at ht'
      exact ht'
    rw [parseChunksLoop, ht]
    cases t with
    | returned r w' => exact ⟨r, w', rfl, hturn⟩
    | next w' =>
      obtain ⟨⟨_, htracks'⟩, hlt⟩ := hturn
      exact ih htracks' hturnOk.1 (Nat.lt_of_lt_of_le hlt (Nat.le_of_lt_succ hn))

end Work

end Whispercast.Http
