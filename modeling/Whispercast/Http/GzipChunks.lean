import Whispercast.Http.RoundTrip

/-!
# Gzip in chunks

A reply whose body is compressed and comes in chunks. The decoder is an abstract one (`Gunzips`): however a stream is
split, it takes what it is given, and what it has put out depends on how much it has taken. The parser gives it the data
of the chunks, but not less than 18 bytes at once: what is less is kept, and if there are not more than 18 bytes behind
it the call returns. So the state in which the last piece of a reply arrives decides whether that call ends the reply,
and with how many bytes that were not decoded (`ChunkedText.undecoded`).
-/

namespace Whispercast.Http

open Io Library List Header

variable {γ δ : Type}

/-! ## A streaming decoder -/

/-- A new decoder was fed the bytes `taken` in some pieces, and has put out `out`. -/
inductive Fed (z : Zlib γ δ) : γ → Bytes → Bytes → Prop where
  | start : Fed z z.newGzip [] []
  | feed {g : γ} {taken out : Bytes} (piece : Bytes) (h : Fed z g taken out) :
      Fed z (z.decode g piece).1 (taken ++ piece) (out ++ (z.decode g piece).2.1)

/-- However the stream `body` is split, the decoder takes all that it is given, answers `Z_OK` up to the end of the
stream and `Z_STREAM_END` there, and has put out `emitted n` when it has taken `n` bytes. -/
structure Gunzips (z : Zlib γ δ) (body : Bytes) (emitted : Nat → Bytes) : Prop where
  step : ∀ g taken out piece, Fed z g taken out → piece ≠ [] → taken ++ piece <+: body →
    (z.decode g piece).2.2 = ([], if taken ++ piece = body then .streamEnd else .ok)
  output : ∀ g taken out, Fed z g taken out → taken <+: body → out = emitted taken.length

/-! ## Messages in chunks -/

/-- A chunk as it is sent: the line of its head, without the LF, and its data. -/
structure WireChunk where
  line : Bytes
  data : Bytes

/-- The text of a chunk. -/
def WireChunk.text (c : WireChunk) : Bytes := c.line ++ 10 :: (c.data ++ crlf)

/-- A body in chunks: the chunks, the line of the last chunk, and the trailer with the empty line at its end. -/
structure ChunkedText where
  chunks : List WireChunk
  last : Bytes
  trailer : Bytes

namespace ChunkedText

/-- What is behind the chunks. -/
def ending (m : ChunkedText) : Bytes := m.last ++ 10 :: m.trailer

/-- The text from some chunk on. -/
def textOf (m : ChunkedText) (cs : List WireChunk) : Bytes := cs.flatMap WireChunk.text ++ m.ending

/-- The text of the body. -/
def text (m : ChunkedText) : Bytes := m.textOf m.chunks

/-- The data of chunks. -/
def contentOf (cs : List WireChunk) : Bytes := cs.flatMap WireChunk.data

/-- The data of the body. -/
def content (m : ChunkedText) : Bytes := contentOf m.chunks

/-- The last `unread` bytes of the body are given to a call that has `pending` bytes to be decoded: how many it leaves
so at the end of the body, or `none` if it returns where it has less than 18 bytes and no more than 18 come behind. -/
def undecoded (m : ChunkedText) (unread : Nat) : Nat → List WireChunk → Option Nat
  | pending, [] => some pending
  | pending, c :: cs =>
    let behind := 2 + (m.textOf cs).length
    if unread ≤ behind then undecoded m unread pending cs
    else
      let got := pending + min c.data.length (unread - behind)
      if kMinGzipDataSize ≤ got then undecoded m unread 0 cs
      else if behind ≤ kMinGzipDataSize then none
      else undecoded m unread got cs

end ChunkedText

/-- The line of a chunk head says `n`, in as many bytes as the parser accepts. -/
structure Says (p : Limits) (line : Bytes) (n : Nat) : Prop where
  oneLine : 10 ∉ line
  number : chunkLengthOf (MemoryStream.strTrimCRLF line) = some n
  fits : n < 2 ^ 31
  short : (line.length : Int) ≤ toUint32 p.maxHeaderSize

/-- A body in chunks that is well formed and within the limits of the parser. -/
structure ChunkedText.Admitted (p : Limits) (m : ChunkedText) : Prop where
  chunks : ∀ c ∈ m.chunks, Says p c.line c.data.length ∧ c.data ≠ [] ∧ (c.data.length : Int) ≤ p.maxChunkSize
  number : 0 ≤ p.maxNumChunks → (m.chunks.length : Int) ≤ p.maxNumChunks
  last : Says p m.last 0
  size : AdmitsHeader p m.trailer
  trailer : ∃ h, (Header.cleared true).readHeaderFields m.trailer = (true, h, []) ∧
    h.parseError.toNat ≤ p.worstAcceptedHeaderError.toNat

namespace ChunkedText

/-- `undecoded` when all of the chunks is unread. -/
def walk (m : ChunkedText) : Nat → List WireChunk → Option Nat
  | pending, [] => some pending
  | pending, c :: cs =>
    if kMinGzipDataSize ≤ pending + c.data.length then walk m 0 cs
    else if 2 + (m.textOf cs).length ≤ kMinGzipDataSize then none
    else walk m (pending + c.data.length) cs

variable {m : ChunkedText}

theorem length_textOf_cons (m : ChunkedText) (c : WireChunk) (cs : List WireChunk) :
    (m.textOf (c :: cs)).length = c.line.length + (c.data.length + 3) + (m.textOf cs).length := by
  simp only [textOf, flatMap_cons, WireChunk.text, crlf, length_append, length_cons, length_nil]
  omega

theorem undecoded_of_le {unread : Nat} (cs : List WireChunk) (hle : (m.textOf cs).length ≤ unread) (pending : Nat) :
    m.undecoded unread pending cs = m.walk pending cs := by
  induction cs generalizing pending with
  | nil => rfl
  | cons c cs ih =>
    rw [length_textOf_cons] at hle
    have hmin : min c.data.length (unread - (2 + (m.textOf cs).length)) = c.data.length := by omega
    rw [undecoded, walk, if_neg (by omega), hmin, ih (by omega)]
    dsimp only
    rw [ih (by omega)]

/-- Chunks that have been read count no more. -/
theorem undecoded_append {unread : Nat} (read : List WireChunk) {cs : List WireChunk}
    (hle : unread ≤ 2 + (m.textOf cs).length) (pending : Nat) :
    m.undecoded unread pending (read ++ cs) = m.undecoded unread pending cs := by
  induction read with
  | nil => rfl
  | cons c read ih =>
    have hlonger : (m.textOf cs).length ≤ (m.textOf (read ++ cs)).length := by
      simp only [textOf, flatMap_append, length_append]
      omega
    rw [cons_append, undecoded, if_pos (by omega), ih]

end ChunkedText

/-! ## Where the parser is -/

/-- What is still to be read of a body: chunks from a head on, the rest of a chunk, the end of a chunk, or the rest of
the trailer. -/
inductive Place where
  | head (cs : List WireChunk)
  | data (d : Bytes) (cs : List WireChunk)
  | close (cs : List WireChunk)
  | trailer (t : Bytes)

namespace Place

/-- The text that is still to come. -/
def text (m : ChunkedText) : Place → Bytes
  | .head cs => m.textOf cs
  | .data d cs => d ++ (crlf ++ m.textOf cs)
  | .close cs => crlf ++ m.textOf cs
  | .trailer t => t

/-- The data that is still to come. -/
def content : Place → Bytes
  | .head cs => ChunkedText.contentOf cs
  | .data d cs => d ++ ChunkedText.contentOf cs
  | .close cs => ChunkedText.contentOf cs
  | .trailer _ => []

/-- What is left to be decoded at the end when all of the text has come. -/
def walk (m : ChunkedText) (pending : Nat) : Place → Option Nat
  | .head cs => m.walk pending cs
  | .data d cs =>
    if kMinGzipDataSize ≤ pending + d.length then m.walk 0 cs
    else if 2 + (m.textOf cs).length ≤ kMinGzipDataSize then none
    else m.walk (pending + d.length) cs
  | .close cs => m.walk pending cs
  | .trailer _ => some pending

end Place

/-- The header of the trailer when the rest `t` of it is still to be read. -/
structure TrailDue (m : ChunkedText) (t : Bytes) (h : Header) : Prop where
  result : Header.viewOf (h.readHeaderFields t) = Header.viewOf ((Header.cleared true).readHeaderFields m.trailer)
  count : ∃ k : Nat, h.bytesParsed = k ∧ k + t.length ≤ m.trailer.length

namespace Work

open ReadState

/-- The parser is in front of the chunks `cs` of the body, with or without the line that ends the chunk before. -/
structure Remaining (m : ChunkedText) (w : Work γ δ) (cs : List WireChunk) : Prop where
  split : ∃ read, m.chunks = read ++ cs ∧ w.parser.numChunksRead = (read.length : Int)
  trail : w.parser.trailHeader = .cleared true

/-- The state of the parser fits the place. -/
def At (m : ChunkedText) (w : Work γ δ) : Place → Prop
  | .head cs => w.parser.parseState = .chunkHeadReading ∧ Remaining m w cs
  | .data d cs =>
    w.parser.parseState = .chunkReading ∧ w.parser.nextChunkExpectation = .none ∧ d ≠ [] ∧
      w.parser.chunkSizeToRead = d.length ∧ Remaining m w cs ∧
        ∃ read c, m.chunks = read ++ c :: cs ∧ d.length ≤ c.data.length
  | .close cs => w.parser.parseState = .endOfChunk ∧ Remaining m w cs
  | .trailer t => w.parser.parseState = .lastChunkRead ∧ TrailDue m t w.parser.trailHeader

/-- The decoder has taken the stream `body` up to what is pending and what is still to come, and what it has put out was
delivered. -/
def FedTo (z : Zlib γ δ) (body content : Bytes) (w : Work γ δ) : Prop :=
  ∃ taken, Fed z (w.parser.gzipZwrapper.getD z.newGzip) taken w.out ∧
    taken ++ (w.parser.partialData ++ content) = body

/-- The parser reads the compressed chunks, and `future` has not arrived. -/
structure Awaits (z : Zlib γ δ) (m : ChunkedText) (future : Bytes) (place : Place) (w : Work γ δ) : Prop where
  here : At m w place
  text : w.io ++ future = place.text m
  fed : FedTo z m.content place.content w
  short : w.parser.partialData.length < kMinGzipDataSize
  notEmpty : w.parser.nextChunkExpectation ≠ .empty
  nonEmpty : w.parser.nextChunkExpectation = .nonEmpty → place.content ≠ []
  gzip : w.header.isGzipContentEncoding = true
  inflate : w.parser.inflateZwrapper = none

/-- The body has been read. -/
structure Over (z : Zlib γ δ) (m : ChunkedText) (future : Bytes) (w : Work γ δ) : Prop where
  state : w.parser.parseState = .endOfTrailHeader
  rest : w.io ++ future = []
  fed : FedTo z m.content [] w

/-- A turn goes on in a place from which the same is left in the end, or the call returns: at the end of the body, or to
wait, and if all has come that is where `walk` breaks off. -/
def TurnAwaits (z : Zlib γ δ) (m : ChunkedText) (future : Bytes) (walk : Option Nat) : Turn γ δ → Prop
  | .next w => ∃ place, Awaits z m future place w ∧ (future = [] → place.walk m w.parser.partialData.length = walk)
  | .returned _ w =>
    (Over z m future w ∧ walk = some w.parser.partialData.length) ∨
      ∃ place, Awaits z m future place w ∧ (future = [] → walk = none)

variable {p : Limits} {z : Zlib γ δ} {m : ChunkedText} {future : Bytes} {w : Work γ δ}

variable {cs : List WireChunk}

theorem chunkEnd_awaits (h : Awaits z m future (.close cs) w) :
    TurnAwaits z m future (Place.walk m w.parser.partialData.length (.close cs)) (chunkEnd w) := by
  have hio : w.io ++ future = [13] ++ 10 :: m.textOf cs := h.text
  rcases line_due (by decide) hio with ⟨_, hline, hrest⟩ | ⟨hlf, -, hfuture⟩
  · have htrim : MemoryStream.strTrimCRLF [13] = [] := by decide
    rw [chunkEnd, hline, readLine_line (by decide), htrim]
    dsimp only
    rw [if_neg (by simp)]
    exact ⟨.head cs, ⟨⟨rfl, h.here.2.split, h.here.2.trail⟩, hrest, h.fed, h.short, h.notEmpty, h.nonEmpty, h.gzip, h.inflate⟩,
      fun _ => rfl⟩
  · rw [chunkEnd, readLine_of_not_mem hlf]
    exact Or.inr ⟨.close cs, h, fun hnil => absurd hnil hfuture⟩

/-! ## Heads -/

/-- A head in front of data, whatever data was expected. -/
theorem chunkHead_data {line rest : Bytes} {n : Nat} (hline : readLine w.io = (some line, rest))
    (hlen : chunkLengthOf line = some n) (hfits : n < 2 ^ 31) (hpos : 0 < n)
    (hempty : w.parser.nextChunkExpectation ≠ .empty) (hlimits : InLimits p w.parser.numChunksRead n) :
    chunkHead p w = .next ({ w with
      parser := { w.parser with
        nextChunkExpectation := .none, numChunksRead := w.parser.numChunksRead + 1, chunkSizeToRead := n }
      io := rest }.setParseState .chunkReading) := by
  obtain ⟨hnot, hint⟩ := not_refused_of_chunkLength hlen (decide_eq_true hfits)
  have hnum : ¬ (0 ≤ p.maxNumChunks ∧ p.maxNumChunks < w.parser.numChunksRead + 1) := fun hnum =>
    absurd (hlimits.2 hnum.1) (by omega)
  rw [chunkHead, hline]
  dsimp only
  rw [if_neg (show ¬ ((Numeral.strtol 16 line).2 = true ∨ toInt32 (Numeral.strtol 16 line).1 < 0) from hnot), hint,
    if_neg (by omega), if_neg hempty, if_neg (Int.not_lt.2 hlimits.1), if_neg hnum]

/-- The head of the last chunk, when no data is expected. -/
theorem chunkHead_last {line rest : Bytes} (hline : readLine w.io = (some line, rest))
    (hlen : chunkLengthOf line = some 0) (hexp : w.parser.nextChunkExpectation ≠ .nonEmpty) :
    chunkHead p w = .next ({ w with
      parser := { w.parser with nextChunkExpectation := .none }, io := rest }.setParseState .lastChunkRead) := by
  obtain ⟨hnot, hint⟩ := not_refused_of_chunkLength hlen (by decide)
  rw [chunkHead, hline]
  dsimp only
  rw [if_neg (show ¬ ((Numeral.strtol 16 line).2 = true ∨ toInt32 (Numeral.strtol 16 line).1 < 0) from hnot), hint,
    if_pos Int.natCast_zero, if_neg hexp]

theorem chunkHead_short (hlf : 10 ∉ w.io) (hlen : (w.io.length : Int) ≤ toUint32 p.maxHeaderSize) :
    chunkHead p w = .returned (headerRead ||| chunkedBodyReading) w := by
  rw [chunkHead, readLine_of_not_mem hlf]
  dsimp only
  rw [if_neg (by omega)]

theorem chunkHead_awaits (hm : m.Admitted p) (h : Awaits z m future (.head cs) w) :
    TurnAwaits z m future (Place.walk m w.parser.partialData.length (.head cs)) (chunkHead p w) := by
  obtain ⟨⟨hstate, ⟨read, hsplit, hnum⟩, htrail⟩, hio, hfed, hshort, hempty, hexp, hgzip, hinflate⟩ := h
  have hwait : ∀ {line : Bytes} {n : Nat}, Says p line n → 10 ∉ w.io → w.io <+: line → future ≠ [] →
      TurnAwaits z m future (Place.walk m w.parser.partialData.length (.head cs)) (chunkHead p w) := by
    intro line n hstates hlf hfront hfuture
    have hlen := hfront.length_le
    have hle := hstates.short
    rw [chunkHead_short hlf (by omega)]
    exact Or.inr ⟨.head cs, ⟨⟨hstate, ⟨read, hsplit, hnum⟩, htrail⟩, hio, hfed, hshort, hempty, hexp, hgzip, hinflate⟩,
      fun hnil => absurd hnil hfuture⟩
  cases cs with
  | nil =>
    have hio' : w.io ++ future = m.last ++ 10 :: m.trailer := hio
    rcases line_due hm.last.oneLine hio' with ⟨io, hline, hrest⟩ | ⟨hlf, hfront, hfuture⟩
    · rw [chunkHead_last (by rw [hline, readLine_line hm.last.oneLine]) hm.last.number (fun hne => hexp hne rfl)]
      refine ⟨.trailer m.trailer, ⟨⟨rfl, ?_, ⟨0, ?_, by omega⟩⟩, hrest, hfed, hshort, NextChunkExpectation.noConfusion,
        NextChunkExpectation.noConfusion, hgzip, hinflate⟩, fun _ => rfl⟩
      · show viewOf (w.parser.trailHeader.readHeaderFields m.trailer) = _
        rw [htrail]
      · show w.parser.trailHeader.bytesParsed = _
        rw [htrail]
        rfl
    · exact hwait hm.last hlf hfront hfuture
  | cons c cs =>
    obtain ⟨hstates, hne, hsize⟩ := hm.chunks c (by rw [hsplit]; simp)
    have hio' : w.io ++ future = c.line ++ 10 :: (c.data ++ (crlf ++ m.textOf cs)) := by
      rw [hio]
      simp [Place.text, ChunkedText.textOf, WireChunk.text]
    rcases line_due hstates.oneLine hio' with ⟨io, hline, hrest⟩ | ⟨hlf, hfront, hfuture⟩
    · have hlimits : InLimits p w.parser.numChunksRead c.data.length := by
        refine ⟨hsize, fun hmax => ?_⟩
        have hnumber := hm.number hmax
        rw [hsplit, length_append, length_cons] at hnumber
        omega
      rw [chunkHead_data (by rw [hline, readLine_line hstates.oneLine]) hstates.number hstates.fits
        (length_pos_iff.2 hne) hempty hlimits]
      refine ⟨.data c.data cs, ⟨⟨rfl, rfl, hne, rfl, ⟨⟨read ++ [c], by simp [hsplit], ?_⟩, htrail⟩, read, c, hsplit,
        Nat.le_refl _⟩, hrest, hfed, hshort, NextChunkExpectation.noConfusion, NextChunkExpectation.noConfusion, hgzip,
        hinflate⟩, fun _ => rfl⟩
      rw [hnum, length_append, length_singleton]
      rfl
    · exact hwait hstates hlf hfront hfuture

/-! ## The data of a chunk -/

/-- The loop over gzip data has one turn when the decoder takes all that it is given. -/
theorem gunzipChunk_all {g g' : γ} {tmp : Bytes} {e : ZErr} (maybeTryDeflate : Bool) (n : Nat)
    (hdecode : z.decode g w.parser.partialData = (g', tmp, [], e)) (herr : e ≠ .error) :
    gunzipChunk z maybeTryDeflate (n + 1) g w = .left false { w with
      parser := { w.parser with
        gzipZwrapper := some g'
        partialData := []
        nextChunkExpectation :=
          if e = .ok ∧ w.parser.chunkSizeToRead = 0 then .nonEmpty else w.parser.nextChunkExpectation }
      out := w.out ++ tmp } := by
  rw [gunzipChunk]
  rw [hdecode]
  cases e with
  | ok => simp
  | streamEnd => simp
  | error => exact absurd rfl herr

theorem chunkContent_short (hgzip : w.header.isGzipContentEncoding = true) (hinflate : w.parser.inflateZwrapper = none)
    (hio : w.io ≠ []) (hshort : w.takeChunk.parser.partialData.length < kMinGzipDataSize) :
    chunkContent z w = some (if kMinGzipDataSize < w.takeChunk.io.length then .next w.takeChunk
      else .returned (headerRead ||| bodyReading) w.takeChunk) := by
  have hheader : w.takeChunk.header = w.header := rfl
  have hinflate' : w.takeChunk.parser.inflateZwrapper = none := hinflate
  rw [chunkContent]
  simp only [hheader, hgzip, hinflate', not_gzip_and_deflate _ hgzip, if_neg hio, if_pos hshort, guard,
    Option.isSome_none, Bool.and_false, Bool.and_true, Bool.not_false, Bool.or_false, if_true, Option.pure_def,
    Option.bind_eq_bind, Option.bind_some]
  split_ifs <;> rfl

theorem chunkContent_long {g' : γ} {tmp : Bytes} {e : ZErr} (hgzip : w.header.isGzipContentEncoding = true)
    (hinflate : w.parser.inflateZwrapper = none) (hio : w.io ≠ [])
    (hlong : kMinGzipDataSize ≤ w.takeChunk.parser.partialData.length)
    (hdecode : z.decode (w.parser.gzipZwrapper.getD z.newGzip) w.takeChunk.parser.partialData = (g', tmp, [], e))
    (herr : e ≠ .error) :
    chunkContent z w = some (.next { w.takeChunk with
      parser := { w.takeChunk.parser with
        gzipZwrapper := some g'
        partialData := []
        nextChunkExpectation :=
          if e = .ok ∧ w.takeChunk.parser.chunkSizeToRead = 0 then .nonEmpty else w.parser.nextChunkExpectation }
      out := w.out ++ tmp }) := by
  have hheader : w.takeChunk.header = w.header := rfl
  have hinflate' : w.takeChunk.parser.inflateZwrapper = none := hinflate
  have hloop := gunzipChunk_all (w := w.takeChunk) (w.takeChunk.parser.gzipZwrapper.isNone)
    w.takeChunk.parser.partialData.length hdecode herr
  rw [chunkContent]
  simp only [hheader, hgzip, hinflate', not_gzip_and_deflate _ hgzip, if_neg hio, if_neg (Nat.not_lt.2 hlong), guard,
    Option.isSome_none, Bool.and_false, Bool.and_true, Bool.not_false, Bool.or_false, if_true, Option.pure_def,
    Option.bind_eq_bind, Option.bind_some]
  rw [show w.takeChunk.parser.gzipZwrapper.getD z.newGzip = w.parser.gzipZwrapper.getD z.newGzip from rfl, hloop]
  simp only [hinflate', hheader]
  rfl

/-- Where the parser is when it has taken what there is of a chunk. -/
def afterTake (d : Bytes) (cs : List WireChunk) (n : Nat) : Place :=
  if d.drop n = [] then .close cs else .data (d.drop n) cs

theorem content_afterTake (d : Bytes) (cs : List WireChunk) (n : Nat) :
    (afterTake d cs n).content = d.drop n ++ ChunkedText.contentOf cs := by
  rw [afterTake]
  split_ifs with hall
  · rw [hall]
    rfl
  · rfl

/-- What `takeChunk` does in the middle of a chunk. -/
structure Took (m : ChunkedText) (future d : Bytes) (cs : List WireChunk) (w : Work γ δ) (n : Nat) : Prop where
  pending : w.takeChunk.parser.partialData = w.parser.partialData ++ d.take n
  rest : w.takeChunk.io ++ future = (afterTake d cs n).text m
  here : ∀ w' : Work γ δ, w'.parser.parseState = w.takeChunk.parser.parseState →
    w'.parser.chunkSizeToRead = w.takeChunk.parser.chunkSizeToRead →
    w'.parser.numChunksRead = w.parser.numChunksRead → w'.parser.trailHeader = w.parser.trailHeader →
    (w.takeChunk.parser.chunkSizeToRead ≠ 0 → w'.parser.nextChunkExpectation = .none) → At m w' (afterTake d cs n)
  all : future = [] → n = d.length
  size : w.takeChunk.parser.chunkSizeToRead = 0 ↔ d.drop n = []

theorem took_takeChunk {d : Bytes} (h : At m w (.data d cs))
    (hio : w.io ++ future = Place.text m (.data d cs)) : Took m future d cs w (min d.length w.io.length) := by
  obtain ⟨hstate, _, _, hsize, ⟨⟨read, hsplit, hnum⟩, htrail⟩, read', c, hchunks, _⟩ := h
  rw [Place.text] at hio
  have htake : (min w.parser.chunkSizeToRead w.io.length).toNat = min d.length w.io.length := by
    rw [hsize]
    omega
  -- As much of the stream as belongs to the chunk is a front of the chunk.
  have hfront : w.io.take (min d.length w.io.length) = d.take (min d.length w.io.length) := by
    have hcut := congrArg (take (min d.length w.io.length)) hio
    rwa [take_append_of_le_length (Nat.min_le_right _ _),
      take_append_of_le_length (Nat.min_le_left _ _)] at hcut
  have hback : w.io.drop (min d.length w.io.length) ++ future =
      d.drop (min d.length w.io.length) ++ (crlf ++ m.textOf cs) := by
    have hcut := congrArg (drop (min d.length w.io.length)) hio
    rwa [drop_append_of_le_length (Nat.min_le_right _ _),
      drop_append_of_le_length (Nat.min_le_left _ _)] at hcut
  have hleft : w.takeChunk.parser.chunkSizeToRead = (d.drop (min d.length w.io.length)).length := by
    show w.parser.chunkSizeToRead - ((min w.parser.chunkSizeToRead w.io.length).toNat : Int) = _
    rw [htake, hsize, length_drop]
    omega
  have hzero : w.takeChunk.parser.chunkSizeToRead = 0 ↔ d.drop (min d.length w.io.length) = [] := by
    rw [hleft, Int.natCast_eq_zero, length_eq_zero_iff]
  have hstate' : w.takeChunk.parser.parseState =
      if w.takeChunk.parser.chunkSizeToRead = 0 then .endOfChunk else w.parser.parseState := rfl
  constructor
  · show w.parser.partialData ++ w.io.take _ = _
    rw [htake, hfront]
  · have hrest : w.takeChunk.io = w.io.drop (min d.length w.io.length) := by
      show w.io.drop _ = _
      rw [htake]
    rw [hrest, hback, afterTake]
    split_ifs with hall
    · rw [hall]
      rfl
    · rfl
  · intro w' hs hc hn ht he
    rw [afterTake]
    split_ifs with hall
    · exact ⟨by rw [hs, hstate', if_pos (hzero.2 hall)], ⟨read, hsplit, by rw [hn, hnum]⟩, by rw [ht, htrail]⟩
    · have hne := fun hz => hall (hzero.1 hz)
      refine ⟨by rw [hs, hstate', if_neg hne, hstate], he hne, hall, by rw [hc, hleft],
        ⟨⟨read, hsplit, by rw [hn, hnum]⟩, by rw [ht, htrail]⟩, read', c, hchunks, ?_⟩
      rw [length_drop]
      omega
  · rintro rfl
    rw [append_nil] at hio
    rw [hio, length_append]
    omega
  · exact hzero

variable {emitted : Nat → Bytes}

theorem chunkContent_awaits (hz : Gunzips z m.content emitted) {d : Bytes} (h : Awaits z m future (.data d cs) w) : ∃ t, chunkContent z w = some t ∧
      TurnAwaits z m future (Place.walk m w.parser.partialData.length (.data d cs)) t := by
  obtain ⟨hat, hio, ⟨taken, hfed, hbody⟩, hshort, hempty, hexp, hgzip, hinflate⟩ := h
  have hnone := hat.2.1
  have hd := hat.2.2.1
  by_cases hnil : w.io = []
  · refine ⟨.returned (headerRead ||| chunkedBodyReading) w, ?_, Or.inr ⟨.data d cs,
      ⟨hat, hio, ⟨taken, hfed, hbody⟩, hshort, hempty, hexp, hgzip, hinflate⟩, ?_⟩⟩
    · rw [chunkContent, if_pos hnil]
      rfl
    · rintro rfl
      rw [hnil] at hio
      exact absurd (append_eq_nil_iff.1 hio.symm).1 hd
  · have htook := took_takeChunk hat hio
    generalize min d.length w.io.length = n at htook
    have hcontent : w.takeChunk.parser.partialData ++ (afterTake d cs n).content =
        w.parser.partialData ++ Place.content (.data d cs) := by
      rw [htook.pending, content_afterTake, append_assoc, ← append_assoc (d.take n), take_append_drop]
      rfl
    have hbody' : taken ++ (w.takeChunk.parser.partialData ++ (afterTake d cs n).content) = m.content := by
      rw [hcontent, hbody]
    -- When all has come, the chunk has been taken to its end.
    have hclose : future = [] → afterTake d cs n = .close cs ∧
        w.takeChunk.parser.partialData.length = w.parser.partialData.length + d.length ∧
          w.takeChunk.io.length = 2 + (m.textOf cs).length := by
      rintro rfl
      have hn := htook.all rfl
      have hafter : afterTake d cs n = .close cs := by rw [afterTake, if_pos (by rw [hn, drop_length])]
      have hrest := htook.rest
      rw [hafter, append_nil] at hrest
      refine ⟨hafter, ?_, ?_⟩
      · rw [htook.pending, hn, take_length, length_append]
      · rw [hrest, Place.text, length_append]
        rfl
    by_cases hlt : w.takeChunk.parser.partialData.length < kMinGzipDataSize
    · have hawaits : Awaits z m future (afterTake d cs n) w.takeChunk :=
        ⟨htook.here _ rfl rfl rfl rfl fun _ => hnone, htook.rest, ⟨taken, hfed, hbody'⟩, hlt, hempty,
          fun hne => absurd (hnone.symm.trans hne) NextChunkExpectation.noConfusion, hgzip, hinflate⟩
      refine ⟨_, chunkContent_short hgzip hinflate hnil hlt, ?_⟩
      split_ifs with hmore
      · refine ⟨_, hawaits, fun hfuture => ?_⟩
        obtain ⟨hafter, hlen, hrest⟩ := hclose hfuture
        rw [hlen] at hlt ⊢
        rw [hafter, Place.walk, Place.walk, if_neg (Nat.not_le.2 hlt), if_neg (by omega)]
      · refine Or.inr ⟨_, hawaits, fun hfuture => ?_⟩
        obtain ⟨hafter, hlen, hrest⟩ := hclose hfuture
        rw [hlen] at hlt
        rw [Place.walk, if_neg (Nat.not_le.2 hlt), if_pos (by omega)]
    · have hlong := Nat.not_lt.1 hlt
      have hne : w.takeChunk.parser.partialData ≠ [] := by
        intro hnil
        rw [hnil] at hlong
        exact absurd hlong (by decide)
      have hinitial : taken ++ w.takeChunk.parser.partialData <+: m.content :=
        ⟨_, by rw [append_assoc, hbody']⟩
      have hstep := hz.step _ _ _ _ hfed hne hinitial
      have hfed' := hfed.feed w.takeChunk.parser.partialData
      rcases hdecode : z.decode (w.parser.gzipZwrapper.getD z.newGzip) w.takeChunk.parser.partialData with
        ⟨_, _, _, e⟩
      rw [hdecode] at hstep hfed'
      obtain ⟨rfl, he⟩ := Prod.mk.inj hstep
      have herr : e ≠ .error := by
        rw [he]
        split_ifs <;> exact ZErr.noConfusion
      refine ⟨_, chunkContent_long hgzip hinflate hnil hlong hdecode herr, afterTake d cs n, ?_, fun hfuture => ?_⟩
      · refine ⟨htook.here _ rfl rfl rfl rfl fun hsize => ?_, htook.rest,
          ⟨_, hfed', by rw [nil_append, append_assoc, hbody']⟩, show 0 < kMinGzipDataSize by decide, ?_, fun hnonEmpty => ?_, hgzip,
          hinflate⟩
        · exact (if_neg fun hboth => hsize hboth.2).trans hnone
        · split_ifs
          · exact NextChunkExpectation.noConfusion
          · exact hempty
        · -- More is expected only when the stream is not at its end.
          intro hlast
          split_ifs at hnonEmpty with hboth
          · rw [hlast, append_nil] at hbody'
            rw [if_pos hbody'] at he
            cases he.symm.trans hboth.1
          · cases hnone.symm.trans hnonEmpty
      · obtain ⟨hafter, hlen, -⟩ := hclose hfuture
        rw [hlen] at hlong
        rw [hafter, Place.walk, Place.walk, if_pos hlong]
        rfl

/-! ## The trailer -/

theorem trailer_error {h h' : Header} {rest rest' : Bytes} {done done' : Bool}
    (hview : Header.viewOf (done, h, rest) = Header.viewOf (done', h', rest')) (hlimits : AdmitsHeader p m.trailer)
    (herr : h'.parseError.toNat ≤ p.worstAcceptedHeaderError.toNat) :
    h.parseError.toNat ≤ p.worstAcceptedHeaderError.toNat := by
  have hsettled : h.parseError.settled = h'.parseError.settled := by
    have heq : h.view = h'.view := (Prod.mk.inj (Prod.mk.inj hview).2).1
    exact congrArg parseError heq
  by_cases hinit : h.parseError.settled = .init
  · exact Nat.le_trans (toNat_le_of_settled hinit) hlimits.error
  · have hsame : ∀ e : ParseError, e.settled ≠ .init → e.settled = e := by
      intro e he
      cases e <;> first | rfl | exact absurd rfl he
    rw [← hsame _ hinit, hsettled, hsame _ (hsettled ▸ hinit)]
    exact herr

theorem parseTrailHeader_awaits (hm : m.Admitted p) {t : Bytes} (h : Awaits z m future (.trailer t) w) :
    ∃ r w', parseTrailHeader p w = some (r, w') ∧
      TurnAwaits z m future (Place.walk m w.parser.partialData.length (.trailer t)) (.returned r w') := by
  obtain ⟨⟨hstate, hresult, k, hcount, _⟩, hio, hfed, hshort, hempty, hexp, hgzip, hinflate⟩ := h
  obtain ⟨_, hwhole, herr⟩ := hm.trailer
  rw [Place.text] at hio
  have hsmall := hm.size.small
  have hint : toInt32 w.parser.trailHeader.bytesParsed = w.parser.trailHeader.bytesParsed := by
    rw [hcount, toInt32, Int.bmod_eq_of_le] <;> omega
  rw [hwhole, ← hio] at hresult
  rw [parseTrailHeader, guard, if_pos hstate]
  simp only [Option.pure_def, Option.bind_eq_bind, Option.bind_some]
  rcases hread : w.parser.trailHeader.readHeaderFields w.io with ⟨done, trail, io⟩
  obtain ⟨j, _, hbytes⟩ := readHeaderFields_counted w.io hint hread
  have hlen : w.io.length + future.length = t.length := by rw [← length_append, hio]
  have hbytes' : trail.bytesParsed = ((k + j : Nat) : Int) := by
    rw [hbytes, hcount, ← Int.natCast_add, toInt32, Int.bmod_eq_of_le] <;> omega
  cases done with
  | false =>
    have hsuspended := readHeaderFields_suspended w.io hint.symm hread
    have hfuture : future ≠ [] := by
      rintro rfl
      rw [append_nil, hread] at hresult
      cases (Prod.mk.inj hresult).1
    have hsize : ¬ (toSize p.maxHeaderSize < toSize (toSize trail.bytesParsed + io.length)) := by
      have hexact : toSize ((k + j : Nat) : Int) = ((k + j : Nat) : Int) := by
        rw [toSize]
        omega
      rw [hbytes', hexact]
      exact hm.size.le (by omega) (by omega)
    dsimp only
    rw [if_neg hsize]
    refine ⟨_, _, rfl, Or.inr ⟨.trailer (io ++ future), ⟨⟨hstate, ?_, k + j, hbytes', ?_⟩, rfl, hfed, hshort, hempty,
      hexp, hgzip, hinflate⟩, fun hnil => absurd hnil hfuture⟩⟩
    · rw [hwhole, ← hresult]
      exact (hsuspended.resume future).symm
    · rw [length_append]
      omega
  | true =>
    have hend := readHeaderFields_append_of_true w.io future hread
    rw [hend] at hresult
    have hrest : io ++ future = [] := (Prod.mk.inj (Prod.mk.inj hresult).2).2
    have hworst := trailer_error hresult hm.size herr
    dsimp only
    rw [if_neg (Nat.not_lt.2 hworst)]
    exact ⟨_, _, rfl, Or.inl ⟨⟨rfl, hrest, hfed⟩, rfl⟩⟩

/-! ## A call -/

variable {place : Place}

theorem Awaits.chunking (h : Awaits z m future place w) : Chunking w.parser := by
  have hhere := h.here
  cases place with
  | head cs => exact Or.inl hhere.1
  | data d cs =>
    have hlen := length_pos_iff.2 hhere.2.2.1
    have hsize := hhere.2.2.2.1
    exact Or.inr (Or.inl ⟨hhere.1, by omega⟩)
  | close cs => exact Or.inr (Or.inr (Or.inl hhere.1))
  | trailer t => exact Or.inr (Or.inr (Or.inr hhere.1))

theorem chunkTurn_awaits (hm : m.Admitted p) (hz : Gunzips z m.content emitted)
    (h : Awaits z m future place w) : ∃ t, chunkTurn z p w = some t ∧
      TurnAwaits z m future (place.walk m w.parser.partialData.length) t := by
  have hhere := h.here
  rw [chunkTurn]
  cases place with
  | head cs =>
    rw [hhere.1]
    exact ⟨_, rfl, chunkHead_awaits hm h⟩
  | data d cs =>
    rw [hhere.1]
    exact chunkContent_awaits hz h
  | close cs =>
    rw [hhere.1]
    exact ⟨_, rfl, chunkEnd_awaits h⟩
  | trailer t =>
    obtain ⟨r, _, hcall, hturn⟩ := parseTrailHeader_awaits hm h
    rw [hhere.1]
    rw [hcall]
    exact ⟨_, rfl, hturn⟩

theorem parseChunksLoop_awaits (hm : m.Admitted p) (hz : Gunzips z m.content emitted) {n : Nat} (h : Awaits z m future place w) (hn : w.io.length < n) :
    ∃ r w', parseChunksLoop z p n w = some (r, w') ∧
      TurnAwaits z m future (place.walk m w.parser.partialData.length) (.returned r w') := by
  induction n generalizing place w with
  | zero => exact absurd hn (Nat.not_lt_zero _)
  | succ n ih =>
    obtain ⟨t, ht, hturn⟩ := chunkTurn_awaits hm hz h
    obtain ⟨t', ht', hok⟩ := chunkTurn_ok z p h.chunking
    obtain rfl : t = t' := by
      rw [ht, Option.some.injEq] at ht'
      exact ht'
    rw [parseChunksLoop, ht]
    cases t with
    | returned r w' => exact ⟨r, w', rfl, hturn⟩
    | next w' =>
      obtain ⟨_, hawaits, hwalk⟩ := hturn
      obtain ⟨r, w'', hcall, hend⟩ := ih hawaits (Nat.lt_of_lt_of_le hok.2 (Nat.le_of_lt_succ hn))
      refine ⟨r, w'', hcall, ?_⟩
      rcases hend with ⟨hover, hsome⟩ | ⟨place'', hawaits', hnone⟩
      · have hfuture : future = [] := (append_eq_nil_iff.1 hover.rest).2
        exact Or.inl ⟨hover, (hwalk hfuture).symm.trans hsome⟩
      · exact Or.inr ⟨place'', hawaits', fun hfuture => (hwalk hfuture).symm.trans (hnone hfuture)⟩

/-- What is unread tells the place. -/
theorem Awaits.undecoded_eq (h : Awaits z m future place w) (pending : Nat) :
    m.undecoded (w.io.length + future.length) pending m.chunks = place.walk m pending := by
  have hhere := h.here
  have hio := congrArg length h.text
  rw [length_append] at hio
  rw [hio]
  cases place with
  | head cs =>
    obtain ⟨-, ⟨read, hsplit, -⟩, -⟩ := hhere
    rw [hsplit, Place.text, ChunkedText.undecoded_append read (by omega),
      ChunkedText.undecoded_of_le cs (Nat.le_refl _)]
    rfl
  | close cs =>
    obtain ⟨-, ⟨read, hsplit, -⟩, -⟩ := hhere
    have hlen : (crlf ++ m.textOf cs).length = 2 + (m.textOf cs).length := length_append
    rw [hsplit, Place.text, hlen, ChunkedText.undecoded_append read (by omega),
      ChunkedText.undecoded_of_le cs (by omega)]
    rfl
  | data d cs =>
    obtain ⟨-, -, hd, -, -, read, c, hsplit, _⟩ := hhere
    have hpos := length_pos_iff.2 hd
    have hlen : (d ++ (crlf ++ m.textOf cs)).length = d.length + (2 + (m.textOf cs).length) := by
      rw [length_append, length_append]
      rfl
    have hcons := m.length_textOf_cons c cs
    have hmin : min c.data.length (d.length + (2 + (m.textOf cs).length) - (2 + (m.textOf cs).length)) = d.length := by
      omega
    rw [hsplit, Place.text, hlen, ChunkedText.undecoded_append read (by omega), ChunkedText.undecoded,
      if_neg (by omega), hmin, ChunkedText.undecoded_of_le cs (by omega)]
    dsimp only
    rw [ChunkedText.undecoded_of_le cs (by omega)]
    rfl
  | trailer t =>
    obtain ⟨k, -, _⟩ := hhere.2.count
    have hrest : t.length ≤ 2 + (m.textOf []).length := by
      simp only [ChunkedText.textOf, ChunkedText.ending, flatMap_nil, nil_append, length_append,
        length_cons]
      omega
    have hnil := m.undecoded_append m.chunks hrest pending
    rw [append_nil] at hnil
    exact hnil

theorem Awaits.arrive {piece : Bytes} (h : Awaits z m (piece ++ future) place w) :
    Awaits z m future place (w.arrive piece) := by
  obtain ⟨hhere, hio, hfed, hshort, hempty, hexp, hgzip, hinflate⟩ := h
  refine ⟨?_, ?_, hfed, hshort, hempty, hexp, hgzip, hinflate⟩
  · cases place with
    | head cs => exact ⟨hhere.1, hhere.2.split, hhere.2.trail⟩
    | data d cs => exact ⟨hhere.1, hhere.2.1, hhere.2.2.1, hhere.2.2.2.1,
        ⟨hhere.2.2.2.2.1.split, hhere.2.2.2.2.1.trail⟩, hhere.2.2.2.2.2⟩
    | close cs => exact ⟨hhere.1, hhere.2.split, hhere.2.trail⟩
    | trailer t => exact hhere
  · show w.io ++ piece ++ future = _
    rw [append_assoc, hio]

theorem known_of_chunked {h : Header} (hchunked : h.isChunkedTransfer = true) : isKnownTransferEncoding h = true := by
  rw [isKnownTransferEncoding]
  cases hfield : h.findField kHeaderTransferEncoding with
  | none => rfl
  | some s =>
    rw [isChunkedTransfer, hfield] at hchunked
    simp only [Option.getD_some] at hchunked
    simp [hchunked]

theorem known_of_gzip {h : Header} (hgzip : h.isGzipContentEncoding = true) : isKnownContentEncoding h = true := by
  rw [isKnownContentEncoding]
  cases hfield : h.findField kHeaderContentEncoding with
  | none => rfl
  | some s =>
    rw [isGzipContentEncoding, hfield] at hgzip
    simp only [Option.getD_some] at hgzip
    simp [hgzip]

end Work

end Whispercast.Http
