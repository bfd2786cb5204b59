import Whispercast.Http.Returns

/-!
# The end of a message

A call of the parser aborts or answers unpaired in two situations: in the middle of a header that was left with
lines read and nothing counted (`HeaderStuck`), and in a body that is stuck. In all others the bit
`REQUEST_FINISHED` says that the state is final, so a caller may stop at the bit and look at the state then, and
may call again without it (`finished_iff`).
-/

namespace Whispercast.Http

open Io Library Header

variable {γ δ : Type}

/-! ## Calls -/

/-- The two kinds of messages: `ParseClientRequest` and `ParseServerReply`. -/
inductive Side where
  | client | server

namespace Connection

open ReadState

/-- The header that is parsed. -/
def header (side : Side) (c : Connection γ δ) : Header :=
  match side with
  | .client => c.request.clientHeader
  | .server => c.request.serverHeader

/-- The message that is parsed. -/
def work (side : Side) (c : Connection γ δ) : Work γ δ :=
  match side with
  | .client => ⟨c.parser, c.io, c.request.clientHeader, c.request.clientData⟩
  | .server => ⟨c.parser, c.io, c.request.serverHeader, c.request.serverData⟩

/-- A call of the parser. -/
def parse (side : Side) (z : Zlib γ δ) (p : Limits) (c : Connection γ δ) :
    Option (ReadState × Connection γ δ) :=
  match side with
  | .client => parseClientRequest z p c
  | .server => parseServerReply z p c

/-- The header was left with lines read and nothing counted: the next call aborts. -/
def HeaderStuck (side : Side) (c : Connection γ δ) : Prop :=
  c.parser.parseState = .headerReading ∧ (c.header side).bytesParsed = 0 ∧
    ¬ ((c.header side).parseError = .init ∨ (c.header side).parseError = .noData)

/-- The states in which a call does not answer properly. -/
def Stuck (side : Side) (z : Zlib γ δ) (p : Limits) (c : Connection γ δ) : Prop :=
  HeaderStuck side c ∨ (c.parser.parseState = .bodyReading ∧ (c.work side).BodyStuck z p)

instance (side : Side) (z : Zlib γ δ) (p : Limits) (c : Connection γ δ) : Decidable (Stuck side z p c) :=
  inferInstanceAs (Decidable ((_ ∧ _ ∧ ¬ (_ ∨ _)) ∨ (_ ∧ _)))

/-- What holds between the calls. -/
def Inv (side : Side) (c : Connection γ δ) : Prop :=
  match c.parser.parseState with
  | .initialized => c.parser.gzipZwrapper = none
  | .headerReading =>
    c.parser.gzipZwrapper = none ∧ (c.header side).lastParseError ≠ .ok ∧
      ((c.header side).bytesParsed ≠ 0 → (c.header side).parseError ≠ .init)
  | .endOfHeader => c.parser.gzipZwrapper = none
  | _ => (c.work side).InPayload ∨ c.parser.parseState.isFinal = true

variable (side : Side)

theorem inv_cleared (io : Bytes) (request : Request) : Inv side (⟨.cleared, io, request⟩ : Connection γ δ) := rfl

theorem readHeaderFields_last (io : Bytes) {h h' : Header} {rest : Bytes}
    (hread : h.readHeaderFields io = (false, h', rest)) : h'.lastParseError = .noData := by
  induction io using stream_induction generalizing h with
  | tail io hlf =>
    rw [readHeaderFields_of_not_mem hlf] at hread
    cases hread
    rfl
  | line l io hl ih =>
    rw [readHeaderFields_line hl] at hread
    dsimp only at hread
    split_ifs at hread with hempty
    · cases hread
    · exact ih hread

/-- Reading a header aborts when it is stuck, and only then; a call that has not found its end leaves it in
order. -/
theorem parseHeader_spec {h : Header} (hlast : h.lastParseError ≠ .ok)
    (hstart : h.bytesParsed ≠ 0 → h.parseError ≠ .init) (io : Bytes) (expected : FirstLineType) :
    (h.parseHeader io expected = none ↔
        h.bytesParsed = 0 ∧ ¬ (h.parseError = .init ∨ h.parseError = .noData)) ∧
      ∀ h' io', h.parseHeader io expected = some (false, h', io') → h'.lastParseError = .noData := by
  simp only [parseHeader, guard, if_pos hlast]
  by_cases hzero : h.bytesParsed = 0
  · by_cases herr : h.parseError = .init ∨ h.parseError = .noData
    · rw [if_pos hzero, if_pos herr]
      rcases hfirst : h.readFirstLine io expected with ⟨found, h₁, io₁⟩
      cases found with
      | false =>
        refine ⟨iff_of_false (by simp) fun hstuck => hstuck.2 herr, ?_⟩
        intro h' io' hcall
        obtain ⟨rfl, rfl⟩ : h₁ = h' ∧ io₁ = io' := by simpa using hcall
        rw [readFirstLine] at hfirst
        rcases hline : readLine io with ⟨_ | _, _⟩
        · rw [hline] at hfirst
          cases hfirst
          rfl
        · rw [hline] at hfirst
          cases hfirst
      | true =>
        refine ⟨iff_of_false (by simp) fun hstuck => hstuck.2 herr, ?_⟩
        intro h' io' hcall
        have hread : h₁.readHeaderFields io₁ = (false, h', io') := by simpa using hcall
        exact readHeaderFields_last io₁ hread
    · rw [if_pos hzero, if_neg herr]
      exact ⟨iff_of_true rfl ⟨hzero, herr⟩, fun h' io' hcall => by cases hcall⟩
  · rw [if_neg hzero, if_pos (hstart hzero)]
    refine ⟨iff_of_false (by simp) fun hstuck => hzero hstuck.1, ?_⟩
    intro h' io' hcall
    have hread : h.readHeaderFields io = (false, h', io') := by simpa using hcall
    exact readHeaderFields_last io hread

/-- What a call in the header ends with: it aborts on a header that is stuck, and answers properly else. -/
def HeaderAnswer (side : Side) (c : Connection γ δ) (result : Option (ReadState × Connection γ δ)) : Prop :=
  (HeaderStuck side c ∧ result = none) ∨
    (¬ HeaderStuck side c ∧ ∃ r c', result = some (r, c') ∧ Paired r c'.parser.parseState ∧ Inv side c')

variable {c : Connection γ δ}

theorem inv_of_final {side : Side} (h : c.parser.parseState.isFinal = true) : Inv side c := by
  rw [Inv]
  cases hstate : c.parser.parseState <;> rw [hstate] at h <;> first | exact Or.inr rfl | cases h

/-- A call in the header, on either side. -/
def readHeader (side : Side) (p : Limits) (c : Connection γ δ) : Option (ReadState × Connection γ δ) :=
  match side with
  | .client => readClientHeader p c
  | .server => readServerHeader p c

/-- A message is started, on either side. -/
def start (side : Side) (c : Connection γ δ) : Connection γ δ :=
  match side with
  | .client => c.startClient
  | .server => c.startServer

variable (z : Zlib γ δ) (p : Limits)

theorem parse_initialized
    (hstate : c.parser.parseState = .initialized) : parse side z p c = readHeader side p (start side c) := by
  cases side with
  | client => rw [parse, parseClientRequest, hstate, readHeader, start]
  | server => rw [parse, parseServerReply, hstate, readHeader, start]

theorem parse_headerReading
    (hstate : c.parser.parseState = .headerReading) : parse side z p c = readHeader side p c := by
  cases side with
  | client => rw [parse, parseClientRequest, hstate, readHeader]
  | server => rw [parse, parseServerReply, hstate, readHeader]

/-- What a header starts with. -/
def firstLine : Side → FirstLineType
  | .client => .requestLine
  | .server => .statusLine

/-- What a call in the header does: it aborts, ends the message, waits for more of the header, or reads it to its end. -/
inductive HeaderCall (side : Side) (p : Limits) (c : Connection γ δ) : Option (ReadState × Connection γ δ) → Prop where
  | aborted (hparse : (c.header side).parseHeader c.io (firstLine side) = none) : HeaderCall side p c none
  | final {r : ReadState} {c' : Connection γ δ} (hparse : (c.header side).parseHeader c.io (firstLine side) ≠ none)
      (hr : r.isFinished = true) (hs : c'.parser.parseState.isFinal = true) (hout : (c'.work side).out = (c.work side).out) :
      HeaderCall side p c (some (r, c'))
  | waits {c' : Connection γ δ} {h : Header}
      (hparse : (c.header side).parseHeader c.io (firstLine side) = some (false, h, c'.io))
      (hlimit : ¬ toSize p.maxHeaderSize < toSize (c'.io.length + toSize h.bytesParsed))
      (hheader : ∃ t, c'.header side = { h with firstLineType := t })
      (hparser : c'.parser = c.parser) (hout : (c'.work side).out = (c.work side).out) :
      HeaderCall side p c (some (0, c'))
  | read {c' : Connection γ δ} (hparse : (c.header side).parseHeader c.io (firstLine side) ≠ none)
      (hparser : c'.parser = c.parser.setParseState .endOfHeader) (hout : (c'.work side).out = (c.work side).out) :
      HeaderCall side p c (some (headerRead ||| continue_, c'))

theorem readHeader_call (c : Connection γ δ) : HeaderCall side p c (readHeader side p c) := by
  rcases hparse : (c.header side).parseHeader c.io (firstLine side) with _ | ⟨done, h, _⟩ <;> cases side
  all_goals
    have hread := hparse
    simp only [header, firstLine] at hread
    simp only [readHeader, readClientHeader, readServerHeader, parseHttpRequest, parseHttpReply, hread]
  · exact .aborted hparse
  · exact .aborted hparse
  -- Both sides compare the header with the limits and end the message, wait, or go on.
  all_goals
    have hsome := hparse.trans_ne (Option.some_ne_none _)
    cases done <;> dsimp only <;> split_ifs with hlimit
    all_goals first
      | exact .final hsome (by decide) rfl rfl
      | exact .waits hparse hlimit ⟨_, rfl⟩ rfl rfl
      | exact .read hsome rfl rfl

theorem readHeader_answer (hstate : c.parser.parseState = .headerReading)
    (hinv : Inv side c) : HeaderAnswer side c (readHeader side p c) := by
  rw [Inv, hstate] at hinv
  obtain ⟨hnone, hlast, hstart⟩ := hinv
  have hspec := parseHeader_spec hlast hstart c.io (firstLine side)
  have hcall := readHeader_call side p c
  revert hcall
  generalize readHeader side p c = result
  intro hcall
  cases hcall with
  | aborted hparse => exact Or.inl ⟨⟨hstate, hspec.1.1 hparse⟩, rfl⟩
  | final hparse hr hs =>
    exact Or.inr ⟨fun hstuck => hparse (hspec.1.2 hstuck.2), _, _, rfl, paired_of_final hr hs, inv_of_final hs⟩
  | read hparse hparser =>
    have hs := congrArg RequestParser.parseState hparser
    refine Or.inr ⟨fun hstuck => hparse (hspec.1.2 hstuck.2), _, _, rfl, paired_of_not_final (by decide) (by rw [hs]; rfl), ?_⟩
    rw [Inv, hs, hparser]
    exact hnone
  | @waits c' h hparse hlimit hheader hparser =>
    have hstate' : c'.parser.parseState = .headerReading := by rw [hparser, hstate]
    refine Or.inr ⟨fun hstuck => ?_, _, _, rfl, paired_of_not_final (by decide) (by rw [hstate']; rfl), ?_⟩
    · rw [hspec.1.2 hstuck.2] at hparse
      cases hparse
    · obtain ⟨t, hheader⟩ := hheader
      rw [Inv, hstate', hparser, hheader]
      refine ⟨hnone, ?_, fun _ => show h.parseError ≠ .init from parseHeader_parseError hparse⟩
      rw [show h.lastParseError = _ from hspec.2 _ _ hparse]
      exact ParseError.noConfusion

/-- The connection with a message that was worked on. -/
def put (side : Side) (c : Connection γ δ) (w : Work γ δ) : Connection γ δ :=
  match side with
  | .client => ⟨w.parser, w.io, { c.request with clientHeader := w.header, clientData := w.out }⟩
  | .server => ⟨w.parser, w.io, { c.request with serverHeader := w.header, serverData := w.out }⟩

@[simp] theorem parser_put (c : Connection γ δ) (w : Work γ δ) : (c.put side w).parser = w.parser := by
  cases side <;> rfl

@[simp] theorem parser_work (c : Connection γ δ) : (c.work side).parser = c.parser := by
  cases side <;> rfl

@[simp] theorem work_put (c : Connection γ δ) (w : Work γ δ) : (c.put side w).work side = w := by
  cases side <;> rfl

/-- Behind the header a call works on the payload. -/
theorem parse_payload (hinit : c.parser.parseState ≠ .initialized) (hheader : c.parser.parseState ≠ .headerReading)
    (hfinal : c.parser.parseState.isFinal = false) :
    parse side z p c =
      (Work.parsePayloadInternal z p (c.work side)).map fun (r, w) => (r, c.put side w) := by
  cases side with
  | client =>
    rw [parse, parseClientRequest]
    split
    · contradiction
    · contradiction
    · rw [guard, if_pos (by simpa using hfinal), work]
      cases Work.parsePayloadInternal z p ⟨c.parser, c.io, c.request.clientHeader, c.request.clientData⟩ <;> rfl
  | server =>
    rw [parse, parseServerReply]
    split
    · contradiction
    · contradiction
    · rw [guard, if_pos (by simpa using hfinal), work]
      cases Work.parsePayloadInternal z p ⟨c.parser, c.io, c.request.serverHeader, c.request.serverData⟩ <;> rfl

theorem inv_of_payload {side : Side} (h : (c.work side).InPayload) : Inv side c := by
  have hstate := h
  rw [Work.InPayload, Work.Chunking, parser_work] at hstate
  rw [Inv]
  rcases hstate with hs | hs | ⟨hs, -⟩ | hs | hs
  all_goals
    rw [hs]
    exact Or.inl h

theorem payload_answer
    (hw : (c.work side).InPayload ∨ (c.parser.parseState = .endOfHeader ∧ c.parser.gzipZwrapper = none)) :
    ∃ r c', parse side z p c = some (r, c') ∧ Inv side c' ∧
      (Paired r c'.parser.parseState ↔ ¬ (c.parser.parseState = .bodyReading ∧ (c.work side).BodyStuck z p)) := by
  have hstate : c.parser.parseState ≠ .initialized ∧ c.parser.parseState ≠ .headerReading ∧
      c.parser.parseState.isFinal = false := by
    rw [Work.InPayload, Work.Chunking, parser_work] at hw
    rcases hw with (hs | hs | ⟨hs, -⟩ | hs | hs) | ⟨hs, -⟩
    all_goals simp [hs, ParseState.isFinal, ParseState.toNat]
  have hw' : (c.work side).InPayload ∨
      ((c.work side).parser.parseState = .endOfHeader ∧ (c.work side).parser.gzipZwrapper = none) := by
    rwa [parser_work]
  obtain ⟨r, w, hcall, hnext, hpaired⟩ := Work.parsePayloadInternal_spec z p hw'
  refine ⟨r, c.put side w, ?_, ?_, ?_⟩
  · rw [parse_payload side z p hstate.1 hstate.2.1 hstate.2.2, hcall]
    rfl
  · rcases hnext with _ | _
    · apply inv_of_payload
      rwa [work_put]
    · apply inv_of_final
      rwa [parser_put]
  · rw [parser_put, hpaired, parser_work]

/-- Starting a message clears its header, so the header is not stuck. -/
theorem start_answer (hstate : c.parser.parseState = .initialized) (hinv : Inv side c) :
    ∃ r c', parse side z p c = some (r, c') ∧ Paired r c'.parser.parseState ∧ Inv side c' := by
  rw [Inv, hstate] at hinv
  have hstart : (start side c).parser.parseState = .headerReading ∧ Inv side (start side c) := by
    cases side with
    | client | server => exact ⟨rfl, hinv, ParseError.noConfusion, fun h => absurd rfl h⟩
  rw [parse_initialized side z p hstate]
  rcases readHeader_answer side p hstart.1 hstart.2 with ⟨⟨-, -, hstuck⟩, -⟩ | ⟨-, hsome⟩
  · cases side <;> exact absurd (Or.inl rfl) hstuck
  · exact hsome

theorem header_answer (hstate : c.parser.parseState = .headerReading) (hinv : Inv side c) :
    HeaderAnswer side c (parse side z p c) := by
  rw [parse_headerReading side z p hstate]
  exact readHeader_answer side p hstate hinv

/-- A call outside a final state keeps the invariant. It aborts when the header is stuck, and answers
unpaired when the body is. -/
theorem parse_answer (hfinal : c.parser.parseState.isFinal = false) (hinv : Inv side c) :
    (HeaderStuck side c ∧ parse side z p c = none) ∨
      (¬ HeaderStuck side c ∧ ∃ r c', parse side z p c = some (r, c') ∧ Inv side c' ∧
        (Paired r c'.parser.parseState ↔
          ¬ (c.parser.parseState = .bodyReading ∧ (c.work side).BodyStuck z p))) := by
  by_cases hheader : c.parser.parseState = .headerReading
  · have hbody : ¬ (c.parser.parseState = .bodyReading ∧ (c.work side).BodyStuck z p) := by
      rintro ⟨hbody, -⟩
      rw [hheader] at hbody
      cases hbody
    rcases header_answer side z p hheader hinv with hnone | ⟨hnot, r, c', hcall, hpaired, hinv'⟩
    · exact Or.inl hnone
    · exact Or.inr ⟨hnot, r, c', hcall, hinv', iff_of_true hpaired hbody⟩
  · right
    refine ⟨fun hstuck => hheader hstuck.1, ?_⟩
    by_cases hinit : c.parser.parseState = .initialized
    · have hbody : ¬ (c.parser.parseState = .bodyReading ∧ (c.work side).BodyStuck z p) := by
        rintro ⟨hbody, -⟩
        rw [hinit] at hbody
        cases hbody
      obtain ⟨r, c', hcall, hpaired, hinv'⟩ := start_answer side z p hinit hinv
      exact ⟨r, c', hcall, hinv', iff_of_true hpaired hbody⟩
    · apply payload_answer
      rw [Inv] at hinv
      cases hstate : c.parser.parseState <;> rw [hstate] at hinv hfinal <;>
        first | exact absurd hstate hinit | exact absurd hstate hheader | exact Or.inr ⟨rfl, hinv⟩ |
          exact Or.inl (hinv.resolve_right (by rw [hfinal]; exact Bool.false_ne_true))

/-! ## Runs -/

/-- The connection with a piece of data that has arrived. -/
def arrive (c : Connection γ δ) (piece : Bytes) : Connection γ δ := { c with io := c.io ++ piece }

/-- The states of a connection: the parser is cleared before a message, pieces of data arrive, and the parser is
called outside of final states, with limits that may be changed between the calls. -/
inductive Reachable (side : Side) (z : Zlib γ δ) : Connection γ δ → Prop where
  | start (io : Bytes) (request : Request) : Reachable side z ⟨.cleared, io, request⟩
  | arrive {c : Connection γ δ} (h : Reachable side z c) (piece : Bytes) : Reachable side z (c.arrive piece)
  | call {c c' : Connection γ δ} {r : ReadState} (h : Reachable side z c)
      (hfinal : c.parser.parseState.isFinal = false) (p : Limits) (hcall : parse side z p c = some (r, c')) :
      Reachable side z c'

theorem Inv.arrive {side : Side} (h : Inv side c) (piece : Bytes) : Inv side (c.arrive piece) := by
  cases side <;> exact h

theorem Reachable.inv {side : Side} {z : Zlib γ δ} (h : Reachable side z c) : Inv side c := by
  induction h with
  | start io request => exact inv_cleared side io request
  | arrive _ piece ih => exact ih.arrive piece
  | call _ hfinal p hcall ih =>
    rcases parse_answer side z p hfinal ih with ⟨-, hnone⟩ | ⟨-, r, _, hsome, hinv, -⟩
    · rw [hcall] at hnone
      cases hnone
    · rw [hcall] at hsome
      cases hsome
      exact hinv

/-- The call returns, and its value has the bit `REQUEST_FINISHED` when the state is final, and only then. -/
def Answered (side : Side) (z : Zlib γ δ) (p : Limits) (c : Connection γ δ) : Prop :=
  ∃ r c', parse side z p c = some (r, c') ∧ (r.isFinished = true ↔ c'.parser.parseState.isFinal = true)

theorem answered_iff {side : Side} {z : Zlib γ δ} {p : Limits}
    (hfinal : c.parser.parseState.isFinal = false) (hinv : Inv side c) :
    Answered side z p c ↔ ¬ Stuck side z p c := by
  have hiff : ∀ (r : ReadState) (s : ParseState), (r.isFinished = true ↔ s.isFinal = true) ↔ Paired r s :=
    fun r s => Bool.eq_iff_iff.symm
  rcases parse_answer side z p hfinal hinv with ⟨hstuck, hnone⟩ | ⟨hnot, r, c', hcall, -, hpaired⟩
  · refine iff_of_false ?_ fun hno => hno (Or.inl hstuck)
    rintro ⟨r, c', hcall, -⟩
    rw [hnone] at hcall
    cases hcall
  · rw [Stuck, not_or, and_iff_right hnot, ← hpaired]
    constructor
    · rintro ⟨_, _, hcall', hanswer⟩
      rw [hcall] at hcall'
      cases hcall'
      exact (hiff _ _).1 hanswer
    · intro hok
      exact ⟨r, c', hcall, (hiff _ _).2 hok⟩

/-- A caller that stops at `REQUEST_FINISHED`: before each call a piece arrives, which may be empty. It ends with
whether it has seen the bit. -/
def drive (side : Side) (z : Zlib γ δ) :
    List (Limits × Bytes) → Connection γ δ → Option (Bool × Connection γ δ)
  | [], c => some (false, c)
  | (p, piece) :: calls, c =>
    match parse side z p (c.arrive piece) with
    | none => none
    | some (r, c) => if r.isFinished then some (true, c) else drive side z calls c

/-- No call of the caller is stuck. -/
def NeverStuck (side : Side) (z : Zlib γ δ) : List (Limits × Bytes) → Connection γ δ → Prop
  | [], _ => True
  | (p, piece) :: calls, c =>
    ¬ Stuck side z p (c.arrive piece) ∧
      match parse side z p (c.arrive piece) with
      | none => True
      | some (r, c) => r.isFinished = true ∨ NeverStuck side z calls c

instance decidableNeverStuck (side : Side) (z : Zlib γ δ) :
    (calls : List (Limits × Bytes)) → (c : Connection γ δ) → Decidable (NeverStuck side z calls c)
  | [], _ => .isTrue trivial
  | (p, piece) :: calls, c =>
    have : Decidable (match parse side z p (c.arrive piece) with
        | none => True
        | some (r, c) => r.isFinished = true ∨ NeverStuck side z calls c) :=
      match parse side z p (c.arrive piece) with
      | none => .isTrue trivial
      | some (r, c) =>
        have := decidableNeverStuck side z calls c
        inferInstanceAs (Decidable (r.isFinished = true ∨ NeverStuck side z calls c))
    inferInstanceAs (Decidable (¬ Stuck side z p (c.arrive piece) ∧ _))

/-- The caller is never aborted, and has seen the bit when the state is final, and only then. -/
def Finishes (side : Side) (z : Zlib γ δ) (calls : List (Limits × Bytes)) (c : Connection γ δ) : Prop :=
  ∃ finished c', drive side z calls c = some (finished, c') ∧
    (finished = true ↔ c'.parser.parseState.isFinal = true)

theorem finishes_of_neverStuck {side : Side} {z : Zlib γ δ} {calls : List (Limits × Bytes)}
    (hfinal : c.parser.parseState.isFinal = false) (hinv : Inv side c) (h : NeverStuck side z calls c) :
    Finishes side z calls c := by
  induction calls generalizing c with
  | nil => exact ⟨false, c, rfl, iff_of_false Bool.false_ne_true (by rw [hfinal]; exact Bool.false_ne_true)⟩
  | cons call calls ih =>
    obtain ⟨p, piece⟩ := call
    rw [NeverStuck] at h
    have hfinal' : (c.arrive piece).parser.parseState.isFinal = false := hfinal
    obtain ⟨r, c', hcall, hanswer⟩ := (answered_iff hfinal' (hinv.arrive piece)).2 h.1
    rw [hcall] at h
    rw [Finishes, drive, hcall]
    cases hfinished : r.isFinished with
    | true =>
      rw [hfinished] at hanswer
      refine ⟨true, c', ?_, hanswer⟩
      simp [hfinished]
    | false =>
      have hnot : c'.parser.parseState.isFinal = false := by
        rw [hfinished] at hanswer
        exact Bool.eq_false_iff.2 fun htrue => Bool.false_ne_true (hanswer.2 htrue)
      have hinv' : Inv side c' := by
        rcases parse_answer side z p hfinal' (hinv.arrive piece) with ⟨-, hnone⟩ | ⟨-, _, c'', hsome, hinv', -⟩
        · rw [hcall] at hnone
          cases hnone
        · rw [hcall] at hsome
          cases hsome
          exact hinv'
      have hnext : NeverStuck side z calls c' := by
        rcases h.2 with htrue | hnext
        · rw [hfinished] at htrue
          cases htrue
        · exact hnext
      obtain ⟨finished, c'', hdrive, hiff⟩ := ih hnot hinv' hnext
      refine ⟨finished, c'', ?_, hiff⟩
      simpa [hfinished] using hdrive

/-- Whatever the limits, the pieces and the decompressors are, a call outside a final state answers properly
unless the header or the body is stuck; and a caller that is not stuck and stops at `REQUEST_FINISHED` is in a final
state when it stops, and never in one when it calls again. -/
theorem finished_iff (side : Side) (z : Zlib γ δ) :
    (∀ c, Reachable side z c → c.parser.parseState.isFinal = false →
        ∀ p, Answered side z p c ↔ ¬ Stuck side z p c) ∧
      ∀ io request calls, NeverStuck side z calls ⟨.cleared, io, request⟩ →
        Finishes side z calls ⟨.cleared, io, request⟩ := by
  constructor
  · intro c hreach hfinal p
    exact answered_iff hfinal hreach.inv
  · intro io request calls h
    exact finishes_of_neverStuck rfl (inv_cleared side io request) h

/-- A decoder that takes the first data it is given for the beginning of a stream, and then fails. -/
def corruptedLater : Zlib Nat Unit where
  newGzip := 0
  decode := fun n data => if n = 0 then (1, [], [], .ok) else (n, [], data, .error)
  newInflate := ()
  inflateSize := fun _ data => ((), [], data, .error)

/-- A reply whose body comes in two pieces. -/
theorem finishes_plain : Answered .server corruptedLater .default ⟨.cleared, ascii "HTTP/1.1 200 ", .new true⟩ ∧
    Finishes .server corruptedLater
      [(.default, ascii "HTTP/1.1 200 OK\r\nContent-Length: 4\r\n\r\nab"), (.default, []), (.default, ascii "cd")]
      ⟨.cleared, [], .new true⟩ :=
  ⟨((finished_iff .server corruptedLater).1 _ (.start _ _) rfl _).2 (by decide +kernel),
    (finished_iff .server corruptedLater).2 _ _ _ (by decide +kernel)⟩

/-- A gzip body that is corrupted in its second piece: the caller sees `REQUEST_FINISHED`, and the state is neither
final nor an error. -/
theorem not_finishes_gzip : ¬ Finishes .server corruptedLater
    [(.default, ascii "HTTP/1.1 200 OK\r\nContent-Encoding: gzip\r\nContent-Length: 40\r\n\r\n0123456789"),
      (.default, []), (.default, ascii "0123456789")] ⟨.cleared, [], .new true⟩ := by
  rintro ⟨_, c, hdrive, hiff⟩
  have hrun : (drive .server corruptedLater
      [(.default, ascii "HTTP/1.1 200 OK\r\nContent-Encoding: gzip\r\nContent-Length: 40\r\n\r\n0123456789"),
        (.default, []), (.default, ascii "0123456789")] ⟨.cleared, [], .new true⟩).map
      (fun r => (r.1, r.2.parser.parseState)) = some (true, .bodyReading) := by decide +kernel
  rw [hdrive, Option.map_some, Option.some.injEq, Prod.mk.injEq] at hrun
  have hfinal := hiff.1 hrun.1
  rw [hrun.2] at hfinal
  cases hfinal

end Connection

end Whispercast.Http
