import Whispercast.Http.ReplyChunks

/-!
# Replies, read back

The output of a reply, with anything behind it, arrives in pieces at a parser whose request has the same method. The
header is read piece by piece (`receive_header`), then the body, and what is behind the reply stays in the stream
(`reply_round_trip_iff`). It goes wrong where a body is appended to a reply that must not have one, and where the size
of the chunks comes down to 0.
-/

namespace Whispercast.Http

open Io Library List Work MemoryStream RequestParser

variable {γ δ : Type}

namespace Header

/-! ## The type of the first line -/

/-- The header with another type of its first line: the parser sets the type between two calls. -/
def withType (h : Header) (t : FirstLineType) : Header := { h with firstLineType := t }

variable (h : Header) (t : FirstLineType)

@[simp] theorem withType_bytesParsed : (h.withType t).bytesParsed = h.bytesParsed := rfl

@[simp] theorem withType_parseError : (h.withType t).parseError = h.parseError := rfl

@[simp] theorem withType_lastParseError : (h.withType t).lastParseError = h.lastParseError := rfl

theorem addCrtParsingData_withType :
    (h.withType t).addCrtParsingData = (h.addCrtParsingData.1, h.addCrtParsingData.2.withType t) := by
  by_cases hname : h.crtParsingFieldName = []
  · simp [addCrtParsingData, withType, hname]
  · cases hret : isValidFieldName h.crtParsingFieldName && isValidFieldContent h.crtParsingFieldContent with
    | true => simp [addCrtParsingData, withType, hname, hret]
    | false => cases hstrict : h.isStrict <;> simp [addCrtParsingData, withType, setParseError, hname, hret, hstrict]

theorem readFieldLine_withType (line : Bytes) :
    (h.withType t).readFieldLine line = (h.readFieldLine line).withType t := by
  have hadd := addCrtParsingData_withType h t
  have hname : (h.withType t).crtParsingFieldName = h.crtParsingFieldName := rfl
  simp only [readFieldLine, hadd, hname]
  split_ifs <;> rfl

theorem readLastLine_withType : (h.withType t).readLastLine = h.readLastLine.withType t := by
  have hadd := addCrtParsingData_withType h t
  simp only [readLastLine, hadd]
  split_ifs <;> rfl

theorem readHeaderFields_withType (io : Bytes) (h : Header) (t : FirstLineType) : (h.withType t).readHeaderFields io =
      ((h.readHeaderFields io).1, (h.readHeaderFields io).2.1.withType t, (h.readHeaderFields io).2.2) := by
  induction io using stream_induction generalizing h with
  | tail io hlf =>
    rw [readHeaderFields_of_not_mem hlf, readHeaderFields_of_not_mem hlf]
    rfl
  | line l io hl ih =>
    have hadd : (h.withType t).addBytesParsed (strTrimCRLF l).length =
      (h.addBytesParsed (strTrimCRLF l).length).withType t := rfl
    rw [readHeaderFields_line hl, readHeaderFields_line hl]
    dsimp only
    rw [hadd, readFieldLine_withType, readLastLine_withType]
    split_ifs
    · rfl
    · exact ih _

theorem parseFirstLine_withType (expected : FirstLineType) (line : Bytes) :
    ∃ t', (h.withType t).parseFirstLine expected line = (h.parseFirstLine expected line).withType t' := by
  simp only [parseFirstLine, parseStatusCode]
  split_ifs <;> exact ⟨_, rfl⟩

theorem readFirstLine_withType (io : Bytes) (expected : FirstLineType) :
    ∃ t', (h.withType t).readFirstLine io expected =
      ((h.readFirstLine io expected).1, (h.readFirstLine io expected).2.1.withType t',
        (h.readFirstLine io expected).2.2) := by
  rw [readFirstLine, readFirstLine]
  rcases readLine io with ⟨_ | line, -⟩
  · exact ⟨t, rfl⟩
  · obtain ⟨t', hfirst⟩ := parseFirstLine_withType (h.addBytesParsed line.length) t expected line
    exact ⟨t', by rw [← hfirst]; rfl⟩

/-- A call does the same whatever the type of the first line is. -/
theorem parseHeader_withType (io : Bytes) (expected : FirstLineType) : ∃ t', (h.withType t).parseHeader io expected =
      (h.parseHeader io expected).map fun r => (r.1, r.2.1.withType t', r.2.2) := by
  obtain ⟨t', hfirst⟩ := readFirstLine_withType h t io expected
  have hfields := readHeaderFields_withType io h t
  by_cases hlast : h.lastParseError ≠ .ok
  · by_cases hbytes : h.bytesParsed = 0
    · by_cases herr : h.parseError = .init ∨ h.parseError = .noData
      · refine ⟨t', ?_⟩
        rcases hread : h.readFirstLine io expected with ⟨found, h₁, io₁⟩
        cases found with
        | false => simp [parseHeader, guard, hlast, hbytes, herr, hfirst, hread]
        | true =>
          have hrest := readHeaderFields_withType io₁ h₁ t'
          simp [parseHeader, guard, hlast, hbytes, herr, hfirst, hread, hrest]
      · exact ⟨t, by simp [parseHeader, guard, hlast, hbytes, herr]⟩
    · by_cases herr : h.parseError = .init
      · exact ⟨t, by simp [parseHeader, guard, hlast, hbytes, herr]⟩
      · exact ⟨t, by simp [parseHeader, guard, hlast, hbytes, herr, hfields]⟩
  · exact ⟨t, by simp [parseHeader, guard, hlast]⟩

/-! ## Headers in pieces -/

/-- The lines of a text and what is behind them are no longer than the text. -/
theorem sum_headerLines_add_le (b : Bytes) :
    ((headerLines b).map List.length).sum + (Lines.split 10 b).2.length ≤ b.length := by
  induction b using stream_induction with
  | tail b h => simp [headerLines_of_not_mem h, Lines.split_of_not_mem h]
  | line l b h ih =>
    have htrim : (strTrimCRLF l).length ≤ l.length := ( rdropWhile_prefix _ _).length_le
    rw [headerLines_line h, Lines.split_line h, map_cons, sum_cons, length_append, length_cons]
    dsimp only
    omega

/-- The first line of a reply is not empty. -/
theorem sum_headerLines_pos {h : Header} (hh : Sendable h) {b : Bytes} (hb : b <+: h.toBytes) (hopen : Open b) :
    0 < ((headerLines b).map List.length).sum := by
  have hlf : 10 ∈ b := by
    by_contra hno
    exact hopen.1 (headerLines_of_not_mem hno)
  obtain ⟨l, _, hl, rfl⟩ := Lines.exists_line hlf
  obtain ⟨_, htail⟩ := hb
  rw [toBytes_eq hh, append_assoc, cons_append] at htail
  obtain ⟨rfl, -⟩ := Lines.line_inj hl (not_mem_statusText hh.reason) htail
  rw [headerLines_line hl, map_cons, sum_cons, strTrimCRLF_statusText, length_append, length_cons]
  omega

/-- Before the end of a header that was written, a call does not find it. -/
theorem parseCleared_of_front (isStrict : Bool) {h : Header} (hh : Sendable h) {b tail : Bytes}
    (htail : b ++ tail = h.toBytes) (hne : tail ≠ []) : (parseCleared isStrict .statusLine b).1 = false := by
  rcases hread : parseCleared isStrict .statusLine b with ⟨done, _, _⟩
  cases done with
  | false => rfl
  | true =>
    have happend := parseCleared_append_of_true hread tail
    obtain ⟨_, hwhole, -⟩ := parseCleared_toBytes isStrict hh
    rw [htail, hwhole, Prod.mk.injEq, Prod.mk.injEq] at happend
    exact absurd (append_eq_nil_iff.1 happend.2.2.symm).2 hne

/-- Nothing of a header that was written is counted twice. -/
theorem parseCleared_counted {isStrict : Bool} {h h' : Header} (hh : Sendable h) (hsmall : h.toBytes.length < 2 ^ 31)
    (hread : parseCleared isStrict .statusLine h.toBytes = (true, h', [])) :
    ∃ n : Nat, h'.bytesParsed = n ∧ n ≤ h.toBytes.length := by
  rw [toBytes_eq hh] at hread hsmall ⊢
  rw [parseCleared_line (not_mem_statusText hh.reason)] at hread
  have hfirst : (((cleared isStrict).addBytesParsed (strTrimCRLF (statusText h)).length).parseFirstLine
      .statusLine (strTrimCRLF (statusText h))).bytesParsed =
        toInt32 (strTrimCRLF (statusText h)).length := by
    have hzero : (cleared isStrict).bytesParsed = 0 := rfl
    rw [parseFirstLine_bytesParsed, addBytesParsed]
    rw [hzero, Int.zero_add]
  obtain ⟨k, hk, hcount⟩ := readHeaderFields_counted _ (by rw [hfirst]; exact toInt32_toInt32 _) hread
  have htrim : (strTrimCRLF (statusText h)).length ≤ (statusText h).length :=
    ( rdropWhile_prefix _ _).length_le
  simp only [length_append, length_cons, length_nil] at hk hsmall ⊢
  refine ⟨(strTrimCRLF (statusText h)).length + k, ?_, by omega⟩
  rw [hcount, hfirst, toInt32_toInt32_add, ← Int.natCast_add, toInt32, Int.bmod_eq_of_le] <;> omega

/-- What has been counted of a header that is being read, and what is left of it. -/
theorem Progress.counted {isStrict : Bool} {expected : FirstLineType} {b rest : Bytes} {h : Header}
    (hp : Progress isStrict expected b h rest) (hsmall : b.length < 2 ^ 31) :
    ∃ n : Nat, h.bytesParsed = n ∧ n + rest.length ≤ b.length ∧
      (Open b → n = ((headerLines b).map List.length).sum) := by
  rcases hp with ⟨hf, hlf, rfl⟩ | hm
  · refine ⟨0, hf.bytesParsed, by omega, fun hopen => ?_⟩
    rw [headerLines_of_not_mem hlf]
    rfl
  · have hle := sum_headerLines_add_le b
    refine ⟨((headerLines b).map length).sum, ?_, ?_, fun _ => rfl⟩
    · rw [hm.bytes, toInt32, Int.bmod_eq_of_le] <;> omega
    · rw [hm.tail]
      exact hle

end Header

/-- The parser admits a header of this text. The limit is an `int32`, and no limit when it is negative. -/
structure AdmitsHeader (p : Limits) (text : Bytes) : Prop where
  int : -2 ^ 31 ≤ p.maxHeaderSize ∧ p.maxHeaderSize < 2 ^ 31
  size : p.maxHeaderSize < 0 ∨ (text.length : Int) ≤ p.maxHeaderSize
  small : text.length < 2 ^ 31
  error : ParseError.noData.toNat ≤ p.worstAcceptedHeaderError.toNat

theorem AdmitsHeader.le {p : Limits} {text : Bytes} (h : AdmitsHeader p text) {n : Int} (hn : 0 ≤ n)
    (hle : n ≤ text.length) : ¬ (toSize p.maxHeaderSize < toSize n) := by
  obtain ⟨⟨_, _⟩, _, _, -⟩ := h
  simp only [toSize]
  omega

/-- A number that was written is the length that it says. -/
theorem contentLengthOf_intToString (n : Nat) : contentLengthOf (intToString n) = some n := by
  have hdigits : intToString n = Numeral.numeral 10 n := by
    rw [intToString, if_neg (by omega), Int.natAbs_natCast]
  rw [contentLengthOf, if_pos, hdigits, Numeral.value_numeral (by decide) (by decide)]
  refine ⟨intToString_ne_nil n, ?_⟩
  rw [hdigits, all_eq_true]
  exact fun c hc => Numeral.isDigit_of_mem_numeral (by decide) (by decide) hc

namespace Connection

open ReadState Header

/-- The bytes `b` of the header of a reply have come, and it is not at its end. -/
structure InHeader (isStrict : Bool) (method : HttpMethod) (b : Bytes) (c : Connection γ δ) : Prop where
  parser : c.parser = RequestParser.cleared.setParseState .headerReading
  progress : ∃ h t, c.request.serverHeader = h.withType t ∧ Progress isStrict .statusLine b h c.io
  method : c.request.clientHeader.method = method
  empty : c.request.serverData = []

/-- The header `h` has been read, and the stream holds what is behind it. -/
structure HeaderRead (method : HttpMethod) (h : Header) (rest : Bytes) (c : Connection γ δ) : Prop where
  parser : c.parser = RequestParser.cleared.setParseState
    (if c.request.noServerBodyTransmitted then .endOfHeaderFinal else .endOfHeader)
  method : c.request.clientHeader.method = method
  status : c.request.serverHeader.statusCode = h.statusCode
  fields : c.request.serverHeader.fields = Request.readFields h
  empty : c.request.serverData = []
  rest : c.io = rest

variable {p : Limits} {isStrict : Bool} {method : HttpMethod} {h : Header} {b : Bytes} {c : Connection γ δ}

section

variable (hh : Sendable h) (hlimits : AdmitsHeader p h.toBytes) (hin : InHeader isStrict method b c)

include hh hlimits hin

/-- A call in the header goes on with what has been read. -/
theorem InHeader.call (hb : b <+: h.toBytes) (piece : Bytes) :
    ∃ done h' t rest', c.request.serverHeader.parseHttpReply (c.io ++ piece) = some (done, h'.withType t, rest') ∧
      viewOf (done, h', rest') = viewOf (parseCleared isStrict .statusLine (b ++ piece)) ∧
      (done = false → Progress isStrict .statusLine (b ++ piece) h' rest') := by
  obtain ⟨h₁, t, hheader, hprogress⟩ := hin.progress
  have hlen := hb.length_le
  have hopen : Open b → h₁.bytesParsed ≠ 0 := by
    intro hopen
    obtain ⟨n, hn, -, hsum⟩ := hprogress.counted (Nat.lt_of_le_of_lt hlen hlimits.small)
    have hpos := sum_headerLines_pos hh hb hopen
    rw [hn, hsum hopen]
    omega
  obtain ⟨done, h', rest', hcall, hview, hnext⟩ := hprogress.call hopen piece
  obtain ⟨t', htype⟩ := parseHeader_withType h₁ t (c.io ++ piece) .statusLine
  refine ⟨done, h', t', rest', ?_, hview, hnext⟩
  rw [hheader, parseHttpReply, htype, hcall]
  rfl

/-- Before the end of the header a call waits. -/
theorem readServerHeader_waits {piece tail : Bytes} (htail : b ++ piece ++ tail = h.toBytes) (hne : tail ≠ []) :
    ∃ c', readServerHeader p (c.arrive piece) = some (0, c') ∧ InHeader isStrict method (b ++ piece) c' := by
  have hb : b <+: h.toBytes := ⟨piece ++ tail, by rw [← append_assoc, htail]⟩
  obtain ⟨done, h', t, rest', hcall, hview, hnext⟩ := hin.call hh hlimits hb piece
  have hdone : done = false := by
    rw [← parseCleared_of_front isStrict hh htail hne]
    exact congrArg Prod.fst hview
  subst hdone
  have hprogress := hnext rfl
  have hlen : (b ++ piece).length ≤ h.toBytes.length := by
    rw [← htail]
    exact (prefix_append _ _).length_le
  obtain ⟨n, hn, _, -⟩ := hprogress.counted (Nat.lt_of_le_of_lt hlen hlimits.small)
  have hsize : ¬ (toSize p.maxHeaderSize < toSize (rest'.length + toSize (h'.withType t).bytesParsed)) := by
    have hsmall := hlimits.small
    have hcount : toSize (n : Int) = n := by
      rw [toSize]
      omega
    rw [withType_bytesParsed, hn, hcount]
    exact hlimits.le (by omega) (by omega)
  have hcall' : (c.arrive piece).request.serverHeader.parseHttpReply (c.arrive piece).io =
    some (false, h'.withType t, rest') := hcall
  refine ⟨⟨c.parser, rest', { c.request with serverHeader := h'.withType .statusLine }⟩, ?_, hin.parser,
    ⟨h', .statusLine, rfl, hprogress⟩, hin.method, hin.empty⟩
  rw [readServerHeader, hcall']
  dsimp only
  rw [if_neg hsize]
  rfl

/-- At the end of the header a call has read it. -/
theorem readServerHeader_ends (hb : b <+: h.toBytes) {piece rest : Bytes} (hrest : b ++ piece = h.toBytes ++ rest) :
    ∃ r c', readServerHeader p (c.arrive piece) = some (r, c') ∧ HeaderRead method h rest c' ∧
      r.isContinue = !c'.request.noServerBodyTransmitted := by
  obtain ⟨done, h', t, rest', hcall, hview, -⟩ := hin.call hh hlimits hb piece
  obtain ⟨h₀, hwhole, hcode, hfields, herr⟩ := parseCleared_toBytes isStrict hh
  rw [hrest, parseCleared_append_of_true hwhole, nil_append] at hview
  obtain ⟨rfl, hheader, rfl⟩ : done = true ∧ h'.view = h₀.view ∧ rest' = rest := by
    simpa [viewOf] using hview
  have hstatus : h'.statusCode = h.statusCode := by
    have heq : h'.view.statusCode = h₀.view.statusCode := by rw [hheader]
    exact heq.trans hcode
  have hread : h'.fields = Request.readFields h := by
    have heq : h'.view.fields = h₀.view.fields := by rw [hheader]
    exact heq.trans hfields
  have hsettled : h'.parseError.settled = .init := by
    have heq : h'.view.parseError = h₀.view.parseError := by rw [hheader]
    exact heq.trans herr
  have hbytes : ¬ (toSize p.maxHeaderSize < toSize h'.bytesParsed) := by
    obtain ⟨n, hn, _⟩ := parseCleared_counted hh hlimits.small hwhole
    have heq : h'.view.bytesParsed = h₀.view.bytesParsed := by rw [hheader]
    rw [show h'.bytesParsed = n from heq.trans hn]
    exact hlimits.le (by omega) (by omega)
  have hworst : ¬ (p.worstAcceptedHeaderError.toNat < h'.parseError.toNat) :=
    Nat.not_lt.2 (Nat.le_trans (toNat_le_of_settled hsettled) hlimits.error)
  have hcall' : (c.arrive piece).request.serverHeader.parseHttpReply (c.arrive piece).io =
    some (true, h'.withType t, rest') := hcall
  have hparser : ∀ state, (c.parser.setParseState state) = cleared.setParseState state := by
    intro state
    rw [hin.parser]
    rfl
  rw [readServerHeader, hcall']
  dsimp only
  rw [withType_bytesParsed, withType_parseError, if_neg hbytes, if_neg hworst]
  split_ifs with hnone
  · refine ⟨_, _, rfl, ⟨?_, hin.method, hstatus, hread, hin.empty, rfl⟩, ?_⟩
    · exact (hparser _).trans (congrArg _ (if_pos hnone).symm)
    · exact (congrArg not hnone).symm
  · refine ⟨_, _, rfl, ⟨?_, hin.method, hstatus, hread, hin.empty, rfl⟩, ?_⟩
    · exact (hparser _).trans (congrArg _ (if_neg hnone).symm)
    · exact (congrArg not (Bool.eq_false_of_not_eq_true hnone)).symm

end

/-- The first call begins the header; the request keeps nothing of an earlier reply. -/
theorem startServer_inHeader (request : Request) (isStrict : Bool) (hstrict : request.serverHeader.isStrict = isStrict) :
    InHeader isStrict request.clientHeader.method []
      (⟨.cleared, [], request⟩ : Connection γ δ).startServer := by
  refine ⟨rfl, ⟨cleared isStrict, (cleared isStrict).firstLineType, ?_, Or.inl ⟨fresh_cleared _, not_mem_nil, rfl⟩⟩,
    rfl, rfl⟩
  rw [← hstrict]
  rfl

variable (z : Zlib γ δ)

/-- Beginning the header ahead of the first piece makes no difference. -/
theorem receive_startServer (p : Limits) (request : Request) (piece : Bytes) (pieces : List Bytes) :
    receive .server z p (piece :: pieces) (⟨.cleared, [], request⟩ : Connection γ δ) =
      receive .server z p (piece :: pieces) (⟨.cleared, [], request⟩ : Connection γ δ).startServer := rfl

theorem InHeader.isFinal (hin : InHeader isStrict method b c) : c.parser.parseState.isFinal = false := by
  rw [hin.parser]
  rfl

theorem InHeader.parse (p : Limits) (hin : InHeader isStrict method b c) (piece : Bytes) :
    parse .server z p (c.arrive piece) = readServerHeader p (c.arrive piece) := by
  have hstate : (c.arrive piece).parser.parseState = .headerReading := by
    rw [parser_arrive, hin.parser]
    rfl
  rw [Connection.parse, parseServerReply, hstate]

/-- The call that follows the header, if there is a body, and the pieces that follow. -/
def afterHeader (z : Zlib γ δ) (p : Limits) (pieces : List Bytes) (c : Connection γ δ) : Option (Connection γ δ) :=
  (if c.request.noServerBodyTransmitted then some c else callLoop .server z p 1 c).bind (receive .server z p pieces)

/-- The header is read by the pieces that it comes in. -/
theorem receive_header (hh : Sendable h) (hlimits : AdmitsHeader p h.toBytes) {rest : Bytes}
    (pieces : List Bytes) (hin : InHeader isStrict method b c) {tail : Bytes} (htail : b ++ tail = h.toBytes)
    (hne : tail ≠ []) (hpieces : pieces.flatten = tail ++ rest) :
    ∃ c' now later, HeaderRead method h now c' ∧ now ++ later.flatten = rest ∧
      receive .server z p pieces c = afterHeader z p later c' := by
  induction pieces generalizing b c tail with
  | nil => exact absurd (append_eq_nil_iff.1 hpieces.symm).1 hne
  | cons piece pieces ih =>
    rw [flatten_cons] at hpieces
    rw [receive, if_neg (by rw [hin.isFinal]; exact Bool.false_ne_true), callLoop, hin.parse]
    by_cases hshort : piece.length < tail.length
    · -- The piece ends inside the header.
      have hfront : piece <+: tail :=
        prefix_of_prefix_length_le (hpieces ▸ prefix_append _ _) (prefix_append _ _) (Nat.le_of_lt hshort)
      obtain ⟨tail', rfl⟩ := hfront
      have hne' : tail' ≠ [] := by
        rintro rfl
        rw [append_nil] at hshort
        exact Nat.lt_irrefl _ hshort
      have htail' : b ++ piece ++ tail' = h.toBytes := by rw [append_assoc, htail]
      obtain ⟨c₁, hcall, hin'⟩ := readServerHeader_waits hh hlimits hin htail' hne'
      rw [hcall]
      rw [append_assoc] at hpieces
      exact ih hin' htail' hne' (append_cancel_left hpieces)
    · have hfront : tail <+: piece :=
        prefix_of_prefix_length_le (prefix_append _ rest) (hpieces ▸ prefix_append _ _)
          (Nat.le_of_not_lt hshort)
      obtain ⟨now, rfl⟩ := hfront
      have hnow : b ++ (tail ++ now) = h.toBytes ++ now := by rw [← append_assoc, htail]
      obtain ⟨r, c₁, hcall, hread, hcontinue⟩ := readServerHeader_ends hh hlimits hin ⟨tail, htail⟩ hnow
      refine ⟨c₁, now, pieces, hread, ?_, ?_⟩
      · rw [append_assoc] at hpieces
        exact append_cancel_left hpieces
      · rw [hcall, afterHeader]
        dsimp only
        rw [hcontinue]
        cases c₁.request.noServerBodyTransmitted <;> rfl

/-- A parser that has read nothing reads the header of the reply. -/
theorem receive_reply (hh : Sendable h) (hlimits : AdmitsHeader p h.toBytes) (request : Request)
    {pieces : List Bytes} {rest : Bytes} (hpieces : pieces.flatten = h.toBytes ++ rest) :
    ∃ c' now later, HeaderRead request.clientHeader.method h now c' ∧ now ++ later.flatten = rest ∧
      receive .server z p pieces ⟨.cleared, [], request⟩ = afterHeader z p later c' := by
  have hne : h.toBytes ≠ [] := by
    rw [toBytes_eq hh]
    exact append_ne_nil_of_right_ne_nil _ (cons_ne_nil _ _)
  cases pieces with
  | nil => exact absurd (append_eq_nil_iff.1 hpieces.symm).1 hne
  | cons piece pieces =>
    rw [receive_startServer]
    exact receive_header z hh hlimits _ (startServer_inHeader request _ rfl) (nil_append _) hne hpieces

/-! ## Bodies -/

/-- Parsing has ended without an error, with the body delivered and the bytes behind the reply in the stream. -/
structure Delivered (body more : Bytes) (c : Connection γ δ) : Prop where
  final : c.parser.parseState.isFinal = true
  noError : c.parser.parseState.isError = false
  body : c.request.serverData = body
  rest : c.io = more

variable {now : Bytes}

/-- What has been read of the header decides as the reply does whether there is a body. -/
theorem HeaderRead.noServerBodyTransmitted (hread : HeaderRead method h now c) {req : Request}
    (hmethod : method = req.clientHeader.method) (hstatus : h.statusCode = req.serverHeader.statusCode) :
    c.request.noServerBodyTransmitted = req.noServerBodyTransmitted := by
  rw [Request.noServerBodyTransmitted, Request.noServerBodyTransmitted, hread.method, hread.status, hmethod, hstatus]

/-- A reply without a body ends with its header. -/
theorem afterHeader_noBody (p : Limits) (hread : HeaderRead method h now c)
    (hnone : c.request.noServerBodyTransmitted = true) (later : List Bytes) :
    ∃ c', afterHeader z p later c = some c' ∧ Delivered [] (now ++ later.flatten) c' := by
  have hparser := hread.parser
  rw [if_pos hnone] at hparser
  refine ⟨c.arrive later.flatten, ?_, ?_⟩
  · rw [afterHeader, if_pos hnone, Option.bind_some]
    exact receive_of_final .server z p later (by rw [hparser]; rfl)
  · exact ⟨by rw [parser_arrive, hparser]; rfl, by rw [parser_arrive, hparser]; rfl, hread.empty,
      by rw [arrive_io, hread.rest]⟩

section

variable (hread : HeaderRead method h now c) (hnone : c.request.noServerBodyTransmitted = false)

include hread hnone

/-- The call that follows the header works on the payload. -/
theorem afterHeader_payload {r : ReadState} {w : Work γ δ}
    (hcall : Work.parsePayloadInternal z p (c.work .server) = some (r, w)) (later : List Bytes) :
    afterHeader z p later c = receive .server z p later (c.put .server w) := by
  have hparser := hread.parser
  rw [if_neg (by rw [hnone]; exact Bool.false_ne_true)] at hparser
  rw [afterHeader, if_neg (by rw [hnone]; exact Bool.false_ne_true), callLoop_payload .server z p 0, hcall]
  · rfl
  all_goals
    rw [hparser]
    first | exact ParseState.noConfusion | rfl

/-- A body that is sent with its length is delivered. -/
theorem afterHeader_sized {data more : Bytes} {later : List Bytes}
    (hidentity : (Request.readFields h).lookup kHeaderTransferEncoding = none)
    (hplain : (Request.readFields h).lookup kHeaderContentEncoding = none)
    (hlength : (Request.readFields h).lookup kHeaderContentLength = some (intToString data.length))
    (hsmall : data.length < 2 ^ 31) (hlimit : ¬ (0 ≤ p.maxBodySize ∧ p.maxBodySize < data.length))
    (hrest : now ++ later.flatten = data ++ more) :
    ∃ c', afterHeader z p later c = some c' ∧ Delivered data more c' := by
  have hparser := hread.parser
  rw [if_neg (by rw [hnone]; exact Bool.false_ne_true)] at hparser
  have hfits : fits data.length = true := decide_eq_true hsmall
  have hnumber := contentLengthOf_intToString data.length
  have hhas : HasLength (c.work .server) (intToString data.length) := by
    refine ⟨congrArg parseState hparser, ?_, ?_, ?_, ?_⟩
    · exact (congrArg _ hread.fields).trans hplain
    · rw [isKnownTransferEncoding, show (c.work .server).header.findField kHeaderTransferEncoding = none from
        (congrArg _ hread.fields).trans hidentity]
    · rw [isChunkedTransfer, show (c.work .server).header.findField kHeaderTransferEncoding = none from
        (congrArg _ hread.fields).trans hidentity]
      decide
    · exact (congrArg _ hread.fields).trans hlength
  have hok : ContentLengthOk p (intToString data.length) := by
    left
    rw [hnumber, Option.any_some, hfits]
  obtain ⟨r, w, hcall, hhonoured⟩ := parsePayloadInternal_body z hhas hparser hread.empty hok
  rw [BodyHonoured, hnumber, Option.filter_some, if_pos hfits] at hhonoured
  dsimp only at hhonoured
  rw [if_neg hlimit, io_work, hread.rest] at hhonoured
  obtain ⟨c', hrun, hat⟩ := receive_body (c := c.put .server w) .server z hlimit later (by rwa [work_put])
  rw [hrest] at hat
  have hstate := hat.state
  rw [parser_work, if_pos (by rw [length_append]; omega)] at hstate
  refine ⟨c', (afterHeader_payload z hread hnone hcall later).trans hrun, by rw [hstate]; rfl, by rw [hstate]; rfl, ?_, ?_⟩
  · exact hat.out.trans (take_left' rfl)
  · rw [← io_work .server c']
    exact hat.rest.trans (drop_left' rfl)

/-- A body that is sent in chunks is delivered. -/
theorem afterHeader_chunked {more : Bytes} {later ds : List Bytes}
    (hchunked : (Request.readFields h).lookup kHeaderTransferEncoding = some (ascii "chunked"))
    (hplain : (Request.readFields h).lookup kHeaderContentEncoding = none)
    (hlines : Work.AdmitsLines p) (hfits : Work.Fits p 0 ds)
    (hrest : now ++ later.flatten = Work.chunksText ds ++ more) :
    ∃ c', afterHeader z p later c = some c' ∧ Delivered ds.flatten more c' := by
  have hparser := hread.parser
  rw [if_neg (by rw [hnone]; exact Bool.false_ne_true)] at hparser
  have hplain' : (c.work .server).header.findField kHeaderContentEncoding = none :=
    (congrArg _ hread.fields).trans hplain
  have hfield : (c.work .server).header.findField kHeaderTransferEncoding = some (ascii "chunked") :=
    (congrArg _ hread.fields).trans hchunked
  have hexpects : Work.Expects p ds.flatten more later.flatten
      ((c.work .server).setParseState .chunkHeadReading) := by
    have hwork : ((c.work .server).setParseState .chunkHeadReading).parser =
        cleared.setParseState .chunkHeadReading := by
      rw [Work.setParseState, parser_work, hparser]
      rfl
    refine ⟨⟨Work.chunksText ds, ds.flatten, .head rfl ?_, ?_, ?_⟩, ?_, ?_, hplain', ?_⟩
    · rw [hwork]
      exact hfits
    · rw [← hrest, ← hread.rest]
      rfl
    · show c.request.serverData ++ ds.flatten = _
      rw [hread.empty, nil_append]
    all_goals rw [hwork]
    · rfl
    · rfl
    · exact ⟨rfl, rfl, rfl, rfl⟩
  obtain ⟨r, w, hcall, _⟩ := Work.parseChunksInternal_due z hexpects hlines
  have hcall' : Work.parsePayloadInternal z p (c.work .server) = some (r, w) := by
    rw [Work.parsePayloadInternal_chunked z p (congrArg parseState hparser) (Work.plain_of_none hplain').1 _ _,
      hcall]
    · rw [isKnownTransferEncoding, hfield]
      decide
    · rw [isChunkedTransfer, hfield]
      decide
  obtain ⟨c', hrun, hend⟩ := receive_due (c := c.put .server w) .server z hlines later (by rwa [work_put])
  have hstate := hend.state
  rw [parser_work] at hstate
  refine ⟨c', (afterHeader_payload z hread hnone hcall' later).trans hrun, by rw [hstate]; rfl, by rw [hstate]; rfl,
    hend.out, ?_⟩
  have hleft := hend.rest
  rwa [append_nil, io_work] at hleft

end

end Connection

/-! ## The round trip -/

namespace Request

variable {req : Request} {maxChunkSize : Int}

/-- The header of a reply. -/
def sentHeader (req : Request) : Production → Header
  | .sized => req.sizedHeader
  | .chunked _ => req.chunkedHeader

/-- The body of a reply. -/
def sentBody (req : Request) : Production → Bytes
  | .sized => req.serverData
  | .chunked calls => req.serverData ++ (calls.getD []).flatten

/-- Chunks are for a client that understands them, and each call has new data. Without a last call there is no
body. -/
def Allowed (req : Request) : Production → Prop
  | .sized => True
  | .chunked none => ClientChunks req ∧ req.noServerBodyTransmitted = true
  | .chunked (some calls) => ClientChunks req ∧ ∀ d ∈ calls, d ≠ []

/-- The reply does not exceed the limits of the parser. -/
structure Admits (p : Limits) (req : Request) (maxChunkSize : Int) (how : Production) : Prop where
  header : AdmitsHeader p (req.sentHeader how).toBytes
  body : how = .sized → req.noServerBodyTransmitted = false →
    p.maxBodySize < 0 ∨ (req.serverData.length : Int) ≤ p.maxBodySize
  chunks : ∀ calls, how = .chunked (some calls) → Cuts maxChunkSize (req.serverData :: calls) →
    (∀ d ∈ req.sentChunks maxChunkSize calls, (d.length : Int) ≤ p.maxChunkSize) ∧
      (0 ≤ p.maxNumChunks → ((req.sentChunks maxChunkSize calls).length : Int) ≤ p.maxNumChunks)

/-- Nothing is appended to a reply without a body, and the data is cut into chunks of a positive size. -/
def Sound (req : Request) (maxChunkSize : Int) : Production → Prop
  | .sized => req.noServerBodyTransmitted = true → req.serverData = []
  | .chunked none => True
  | .chunked (some calls) => req.noServerBodyTransmitted = false ∧ Cuts maxChunkSize (req.serverData :: calls)

theorem sizedHeader_statusCode (req : Request) : req.sizedHeader.statusCode = req.serverHeader.statusCode := by
  have hcode : ∀ h : Header, ∀ n, (h.addField kHeaderContentLength (intToString n) true false).statusCode =
      h.statusCode := fun h n => rfl
  rw [sizedHeader]
  split_ifs
  · rw [setChunkedTransfer_statusCode, prepareReply_statusCode]
  · rw [hcode, setChunkedTransfer_statusCode, prepareReply_statusCode]

theorem chunkedHeader_statusCode (req : Request) : req.chunkedHeader.statusCode = req.serverHeader.statusCode := by
  rw [chunkedHeader, setChunkedTransfer_statusCode, prepareReply_statusCode]

theorem chunksOf_nil (maxChunkSize : Int) : chunksOf maxChunkSize [] = [] := rfl

variable {calls : List Bytes}

theorem sentChunks_of_empty (hempty : ∀ d ∈ req.serverData :: calls, d = []) :
    req.sentChunks maxChunkSize calls = [] := by
  have hdata : req.serverData = [] := hempty _ mem_cons_self
  rw [sentChunks, hdata, chunksOf_nil, nil_append, flatMap_eq_nil_iff]
  intro d hd
  rw [hempty d (mem_cons_of_mem _ hd), chunksOf_nil]

theorem flatten_flatMap_chunksOf (hpos : 0 < chunkSize maxChunkSize) (calls : List Bytes) :
    (calls.flatMap (chunksOf maxChunkSize)).flatten = calls.flatten := by
  induction calls with
  | nil => rfl
  | cons d calls ih =>
    rw [flatMap_cons, flatten_append, ih, chunksOf, cut_flatten hpos (Nat.lt_succ_self _), flatten_cons]

/-- The chunks are the body. -/
theorem sentChunks_flatten (hcuts : Cuts maxChunkSize (req.serverData :: calls)) :
    (req.sentChunks maxChunkSize calls).flatten = req.sentBody (.chunked (some calls)) := by
  rcases hcuts with hpos | hempty
  · rw [sentChunks, flatten_append, flatten_flatMap_chunksOf hpos, chunksOf, cut_flatten hpos (Nat.lt_succ_self _)]
    rfl
  · have hbody : req.sentBody (.chunked (some calls)) = (req.serverData :: calls).flatten := rfl
    rw [sentChunks_of_empty hempty, hbody, flatten_nil, eq_comm, flatten_eq_nil_iff]
    exact hempty

/-- A chunk has data, and no more than the body. -/
theorem mem_sentChunks (hcuts : Cuts maxChunkSize (req.serverData :: calls)) {d : Bytes}
    (hd : d ∈ req.sentChunks maxChunkSize calls) :
    d ≠ [] ∧ d.length ≤ (req.sentBody (.chunked (some calls))).length := by
  rcases hcuts with hpos | hempty
  · refine ⟨?_, ?_⟩
    · rw [sentChunks, mem_append, mem_flatMap] at hd
      rcases hd with hd | ⟨_, -, hd⟩
      · exact (mem_cut hpos hd).1
      · exact (mem_cut hpos hd).1
    · rw [← sentChunks_flatten (Or.inl hpos)]
      exact (sublist_flatten_of_mem hd).length_le
  · rw [sentChunks_of_empty hempty] at hd
    cases hd

end Request

/-- A header that is admitted is longer than the lines between the chunks. -/
theorem AdmitsHeader.lines {p : Limits} {h : Header} (hh : Header.Sendable h) (hlimits : AdmitsHeader p h.toBytes) :
    Work.AdmitsLines p := by
  have hversion : 8 ≤ (getHttpVersionName h.httpVersion).length := by
    cases h.httpVersion <;> decide
  have htext : ∀ version code reason rest : Bytes, 8 ≤ version.length →
      10 ≤ (version ++ 32 :: (code ++ 32 :: (reason ++ [13])) ++ 10 :: rest).length := by
    intro version code reason rest hle
    simp only [length_append, length_cons]
    omega
  have hlen : 10 ≤ h.toBytes.length := by
    rw [Header.toBytes_eq hh]
    exact htext _ _ _ _ hversion
  obtain ⟨⟨_, _⟩, _, -, herror⟩ := hlimits
  refine ⟨?_, ?_, herror⟩
  · rw [toUint32]
    omega
  · rw [toSize]
    omega

namespace Connection

open Request

/-- There is an output, and however it is cut with what comes behind it, the parser delivers the body of the reply and
leaves what comes behind it. -/
def RoundTrips (z : Zlib γ δ) (p : Limits) (req request : Request) (maxChunkSize : Int) (how : Production) : Prop :=
  ∃ text, produce req maxChunkSize how = some text ∧
    ∀ (more : Bytes) (pieces : List Bytes), pieces.flatten = text ++ more →
      ∃ c, receive .server z p pieces ⟨.cleared, [], request⟩ = some c ∧
        Delivered (if req.noServerBodyTransmitted then [] else req.sentBody how) more c

variable {p : Limits} {req request : Request} {maxChunkSize : Int}

/-- What is behind the header of a reply without a body is left. -/
theorem receive_noBody (z : Zlib γ δ) {h : Header} (hh : Header.Sendable h) (hlimits : AdmitsHeader p h.toBytes)
    (hmethod : request.clientHeader.method = req.clientHeader.method)
    (hstatus : h.statusCode = req.serverHeader.statusCode) (hnone : req.noServerBodyTransmitted = true)
    {pieces : List Bytes} {rest : Bytes} (hpieces : pieces.flatten = h.toBytes ++ rest) :
    ∃ c, receive .server z p pieces ⟨.cleared, [], request⟩ = some c ∧ Delivered [] rest c := by
  obtain ⟨_, _, later, hread, hrest, hrun⟩ := receive_reply z hh hlimits request hpieces
  have hnone' := (hread.noServerBodyTransmitted hmethod hstatus).trans hnone
  obtain ⟨c, hafter, hdelivered⟩ := afterHeader_noBody z p hread hnone' later
  exact ⟨c, hrun.trans hafter, hrest ▸ hdelivered⟩

theorem sized_iff (z : Zlib γ δ) (hfree : req.inChunkEncoding = false) (hcomposed : Header.Composed req.serverHeader)
    (hmethod : request.clientHeader.method = req.clientHeader.method) (hsmall : req.serverData.length < 2 ^ 31)
    (hlimits : Admits p req maxChunkSize .sized) :
    RoundTrips z p req request maxChunkSize .sized ↔ Sound req maxChunkSize .sized := by
  obtain ⟨hsendable, hidentity, hplain, hlength⟩ := sizedHeader_spec hcomposed
  have hproduce := produce_sized maxChunkSize hfree hcomposed.sendable.type
  have hheader : AdmitsHeader p req.sizedHeader.toBytes := hlimits.header
  have hstatus := sizedHeader_statusCode req
  cases hnone : req.noServerBodyTransmitted with
  | true =>
    rw [RoundTrips, Sound, hnone, if_pos rfl]
    constructor
    · rintro ⟨_, htext, hall⟩ -
      rw [hproduce, Option.some.injEq] at htext
      subst htext
      have hpiece : [req.sizedHeader.toBytes ++ req.serverData].flatten =
          req.sizedHeader.toBytes ++ req.serverData := by simp
      obtain ⟨c, hrun, hdelivered⟩ := hall [] _ (by rw [hpiece, append_nil])
      obtain ⟨c', hrun', hdelivered'⟩ := receive_noBody z hsendable hheader hmethod hstatus hnone hpiece
      obtain rfl : c = c' := Option.some.inj (hrun.symm.trans hrun')
      exact hdelivered'.rest.symm.trans hdelivered.rest
    · intro hempty
      refine ⟨_, hproduce, fun more pieces hpieces => ?_⟩
      rw [hempty rfl, append_nil] at hpieces
      exact receive_noBody z hsendable hheader hmethod hstatus hnone hpieces
  | false =>
    refine iff_of_true ⟨_, hproduce, fun more pieces hpieces => ?_⟩ fun htrue => ?_
    · rw [hnone, if_neg Bool.false_ne_true]
      rw [append_assoc] at hpieces
      obtain ⟨c', _, _, hread, hrest, hrun⟩ := receive_reply z hsendable hheader request hpieces
      have hnone' := (hread.noServerBodyTransmitted hmethod hstatus).trans hnone
      have hlimit : ¬ (0 ≤ p.maxBodySize ∧ p.maxBodySize < req.serverData.length) := by
        rintro ⟨_, _⟩
        rcases hlimits.body rfl hnone with _ | _ <;> omega
      obtain ⟨c, hafter, hdelivered⟩ :=
        afterHeader_sized z hread hnone' hidentity hplain (hlength hnone) hsmall hlimit hrest
      exact ⟨c, hrun.trans hafter, hdelivered⟩
    · rw [hnone] at htrue
      cases htrue

theorem chunked_iff (z : Zlib γ δ) (hfree : req.inChunkEncoding = false) (hcomposed : Header.Composed req.serverHeader)
    (hmethod : request.clientHeader.method = req.clientHeader.method) (hclient : ClientChunks req)
    {calls : List Bytes} (hcalls : ∀ d ∈ calls, d ≠ [])
    (hsmall : (req.sentBody (.chunked (some calls))).length < 2 ^ 31)
    (hlimits : Admits p req maxChunkSize (.chunked (some calls))) :
    RoundTrips z p req request maxChunkSize (.chunked (some calls)) ↔
      Sound req maxChunkSize (.chunked (some calls)) := by
  obtain ⟨hsendable, hchunked, hplain⟩ := chunkedHeader_spec hcomposed
  have hheader : AdmitsHeader p req.chunkedHeader.toBytes := hlimits.header
  constructor
  · rintro ⟨_, htext, -⟩
    cases hnone : req.noServerBodyTransmitted with
    | true =>
      rw [produce_chunked_noBody hfree hcomposed.sendable.type hclient hnone] at htext
      cases htext
    | false =>
      refine ⟨hnone, ?_⟩
      by_contra hcuts
      rw [produce_chunked_stuck hfree hcomposed.sendable.type hclient hcalls hcuts] at htext
      cases htext
  · rintro ⟨hnone, hcuts⟩
    refine ⟨_, produce_chunked hfree hcomposed.sendable.type hclient hnone hcalls hcuts, fun more pieces hpieces => ?_⟩
    rw [hnone, if_neg Bool.false_ne_true, ← sentChunks_flatten hcuts]
    rw [append_assoc] at hpieces
    obtain ⟨_, _, _, hread, hrest, hrun⟩ := receive_reply z hsendable hheader request hpieces
    have hnone' := (hread.noServerBodyTransmitted hmethod (chunkedHeader_statusCode req)).trans hnone
    obtain ⟨hsize, hnumber⟩ := hlimits.chunks calls rfl hcuts
    have hfits : Fits p 0 (req.sentChunks maxChunkSize calls) := by
      refine ⟨fun d hd => ?_, fun hmax => ?_⟩
      · obtain ⟨hne, hle⟩ := mem_sentChunks hcuts hd
        exact ⟨hne, Nat.lt_of_le_of_lt hle hsmall, hsize d hd⟩
      · rw [Int.zero_add]
        exact hnumber hmax
    obtain ⟨c, hafter, hdelivered⟩ :=
      afterHeader_chunked z hread hnone' hchunked hplain (hheader.lines hsendable) hfits hrest
    exact ⟨c, hrun.trans hafter, hdelivered⟩

/-- A reply is read back exactly if nothing is appended to a reply without a body, and the chunks have a positive
size. -/
theorem reply_round_trip_iff (z : Zlib γ δ) (p : Limits) (req request : Request) (maxChunkSize : Int)
    (how : Production) (hfree : req.inChunkEncoding = false) (hcomposed : Header.Composed req.serverHeader)
    (hmethod : request.clientHeader.method = req.clientHeader.method) (hallowed : Allowed req how)
    (hsmall : (req.sentBody how).length < 2 ^ 31) (hlimits : Admits p req maxChunkSize how) :
    RoundTrips z p req request maxChunkSize how ↔ Sound req maxChunkSize how := by
  cases how with
  | sized => exact sized_iff z hfree hcomposed hmethod hsmall hlimits
  | chunked calls =>
    cases calls with
    | some calls => exact chunked_iff z hfree hcomposed hmethod hallowed.1 hallowed.2 hsmall hlimits
    | none =>
      obtain ⟨hclient, hnone⟩ := hallowed
      refine iff_of_true ⟨_, produce_chunked_noBody hfree hcomposed.sendable.type hclient hnone none, ?_⟩ trivial
      intro more pieces hpieces
      rw [hnone, if_pos rfl]
      exact receive_noBody z (chunkedHeader_spec hcomposed).1 hlimits.header hmethod
        (chunkedHeader_statusCode req) hnone hpieces

/-- A request of a client of HTTP/1.1, with a body for the reply. -/
def answered (method : HttpMethod) (data : Bytes) : Request where
  clientHeader := { Header.cleared true with firstLineType := .requestLine, method := method, httpVersion := .v1_1 }
  clientData := []
  serverHeader := { Header.cleared true with firstLineType := .statusLine, statusCode := 200, httpVersion := .v1_1 }
  serverData := data
  inChunkEncoding := false

theorem composed_answered (method : HttpMethod) (data : Bytes) : Header.Composed (answered method data).serverHeader :=
  ⟨⟨rfl, not_mem_nil, nofun, rfl⟩, Pairwise.nil, nofun⟩

/-- Five bytes in chunks of two, and as the body of a reply with a length. -/
theorem reply_round_trip_hello : RoundTrips corruptedLater .default (answered .get (ascii "hel")) (answered .get []) 2
        (.chunked (some [ascii "lo"])) ∧
      RoundTrips corruptedLater .default (answered .get (ascii "hello")) (answered .get []) (-1) .sized := by
  constructor
  · refine (reply_round_trip_iff corruptedLater .default (answered .get (ascii "hel")) (answered .get []) 2
      (.chunked (some [ascii "lo"])) rfl (composed_answered _ _) rfl ⟨Nat.le_refl _, by decide⟩ (by decide)
      ⟨⟨by decide, by decide, by decide, by decide⟩, nofun, ?_⟩).2 ⟨by decide, by decide⟩
    intro calls hcalls _
    cases hcalls
    exact ⟨by decide, by decide⟩
  · exact (reply_round_trip_iff corruptedLater .default (answered .get (ascii "hello")) (answered .get []) (-1)
      .sized rfl (composed_answered _ _) rfl trivial (by decide)
      ⟨⟨by decide, by decide, by decide, by decide⟩, fun _ _ => by decide, nofun⟩).2 (fun h => absurd h (by decide))

/-- The body of a reply to `HEAD` is left in front of the next reply; a maximal size of 2³² has no output. -/
theorem not_reply_round_trip :
    ¬ RoundTrips corruptedLater .default (answered .head (ascii "hello")) (answered .head []) (-1) .sized ∧
      ¬ RoundTrips corruptedLater .default (answered .get (ascii "hello")) (answered .get []) (2 ^ 32)
        (.chunked (some [])) := by
  constructor
  · rintro ⟨text, htext, hall⟩
    have hleft : (produce (answered .head (ascii "hello")) (-1) .sized).bind (fun text =>
        (receive .server corruptedLater .default [text] ⟨.cleared, [], answered .head []⟩).map fun c => c.io) =
          some (ascii "hello") := by decide
    obtain ⟨c, hrun, hdelivered⟩ := hall [] [text] (by simp)
    rw [htext, Option.bind_some, hrun, Option.map_some, hdelivered.rest] at hleft
    cases hleft
  · rintro ⟨text, htext, -⟩
    have hnone : produce (answered .get (ascii "hello")) (2 ^ 32) (.chunked (some [])) = none := by decide
    cases htext

end Connection

end Whispercast.Http
