import Whispercast.Http.Finished

/-!
# Receiving

What the protocols do with the data of a connection: whenever a piece has arrived they call the parser, again
while it answers `CONTINUE`, and they leave it alone once its state is final. Only the end of a header is answered
so (`parsePayloadInternal_stops`), and there nothing of the payload has been touched (`Reachable.untouched`).
-/

namespace Whispercast.Http

open Io Library Option ParseState

variable {γ δ : Type}

namespace Work

open ReadState

/-! ## Payloads do not continue -/

/-- A turn that returns does not ask for another call. -/
def Stops : Turn γ δ → Prop
  | .returned r _ => r.isContinue = false
  | .next _ => True

variable {r : ReadState} {w : Work γ δ}

theorem stops_of (h : r.isContinue = false) : Stops (.returned r w) := h

variable (z : Zlib γ δ) {w' : Work γ δ}

theorem gunzipChunk_stops (maybeTryDeflate : Bool) (n : Nat) (g : γ) (w : Work γ δ) (h : gunzipChunk z maybeTryDeflate n g w = .returned r w') : r.isContinue = false := by
  induction n generalizing g w with
  | zero => cases h
  | succ n ih =>
    rw [gunzipChunk] at h
    rcases hdec : z.decode g w.parser.partialData with ⟨_, _, _, zerr⟩
    rw [hdec] at h
    cases zerr with
    | streamEnd =>
      dsimp only at h
      split_ifs at h
      exact ih _ _ h
    | error =>
      dsimp only at h
      split_ifs at h
      cases h
      decide
    | ok =>
      dsimp only at h
      split_ifs at h <;> exact ih _ _ h

theorem inflateChunk_stops (w : Work γ δ) : Stops (inflateChunk z w) := by
  rw [inflateChunk]
  rcases z.inflateSize (w.parser.inflateZwrapper.getD z.newInflate) w.parser.partialData with ⟨i, -, -, zerr⟩
  cases zerr with
  | streamEnd =>
    dsimp only
    split_ifs
    · exact stops_of (by decide)
    · trivial
  | error => exact stops_of (by decide)
  | ok =>
    dsimp only
    split_ifs <;> trivial

variable (p : Limits)

theorem chunkHead_stops (w : Work γ δ) : Stops (chunkHead p w) := by
  rw [chunkHead]
  rcases readLine w.io with ⟨_ | -, -⟩
  · dsimp only
    split_ifs <;> exact stops_of (by decide)
  · dsimp only
    split_ifs <;> first | exact stops_of (by decide) | trivial

theorem chunkEnd_stops (w : Work γ δ) : Stops (chunkEnd w) := by
  rw [chunkEnd]
  rcases readLine w.io with ⟨_ | -, -⟩
  · exact stops_of (by decide)
  · dsimp only
    split_ifs
    · exact stops_of (by decide)
    · trivial

theorem chunkContent_stops {t : Turn γ δ} (h : chunkContent z w = some t) : Stops t := by
  rw [chunkContent] at h
  simp only [pure_def, bind_eq_bind] at h
  by_cases hio : w.io = []
  · rw [if_pos hio] at h
    cases h
    exact stops_of (by decide)
  · rw [if_neg hio] at h
    by_cases hgzip : (w.takeChunk.header.isGzipContentEncoding &&
        !(w.takeChunk.header.isGzipContentEncoding && w.takeChunk.parser.inflateZwrapper.isSome)) = true
    · rw [if_pos hgzip, bind_eq_some_iff] at h
      obtain ⟨-, -, h⟩ := h
      split_ifs at h
      · cases h
        trivial
      · cases h
        exact stops_of (by decide)
      · split at h
        · next r w' hloop =>
          cases h
          exact stops_of (gunzipChunk_stops z _ _ _ _ hloop)
        · cases h
          exact inflateChunk_stops z _
        · cases h
          trivial
    · split_ifs at h
      · cases h
        exact inflateChunk_stops z _
      · cases h
        trivial

theorem parseTrailHeader_stops (h : parseTrailHeader p w = some (r, w')) : r.isContinue = false := by
  rw [parseTrailHeader] at h
  simp only [bind_eq_bind, bind_eq_some_iff] at h
  obtain ⟨-, -, h⟩ := h
  split at h
  all_goals
    split_ifs at h
    all_goals
      cases h
      decide

theorem chunkTurn_stops {t : Turn γ δ} (h : chunkTurn z p w = some t) : Stops t := by
  rw [chunkTurn] at h
  split at h
  · cases h
    exact chunkHead_stops p w
  · cases h
    exact chunkEnd_stops w
  · exact chunkContent_stops z h
  · rw [map_eq_some_iff] at h
    obtain ⟨⟨r, _⟩, hcall, rfl⟩ := h
    exact stops_of (parseTrailHeader_stops p hcall)
  · cases h

theorem parseChunksLoop_stops {n : Nat} (h : parseChunksLoop z p n w = some (r, w')) : r.isContinue = false := by
  induction n generalizing w with
  | zero => cases h
  | succ n ih =>
    rw [parseChunksLoop] at h
    cases ht : chunkTurn z p w with
    | none =>
      rw [ht] at h
      cases h
    | some t =>
      rw [ht] at h
      cases t with
      | returned r' w'' =>
        cases h
        exact chunkTurn_stops z p ht
      | next w'' => exact ih h

theorem gunzipBody_stops (maybeTryDeflate : Bool) (n : Nat) (g : γ) (w : Work γ δ) (h : gunzipBody z maybeTryDeflate n g w = .returned r w') : r.isContinue = false := by
  induction n generalizing g w with
  | zero => cases h
  | succ n ih =>
    rw [gunzipBody] at h
    rcases hdec : z.decode g w.parser.partialData with ⟨_, _, _, zerr⟩
    rw [hdec] at h
    cases zerr with
    | error =>
      split_ifs at h
      cases h
      decide
    | _ =>
      dsimp only at h
      split_ifs at h
      · cases h
        decide
      · exact ih _ _ h

theorem inflateBody_stops (h : inflateBody z w = (r, w')) : r.isContinue = false := by
  rw [inflateBody] at h
  rcases hsize : z.inflateSize (w.parser.inflateZwrapper.getD z.newInflate) w.parser.partialData with
    ⟨i, _, _, zerr⟩
  rw [hsize] at h
  cases zerr with
  | streamEnd =>
    dsimp only at h
    split_ifs at h
    all_goals
      cases h
      decide
  | _ =>
    cases h
    decide

theorem parseBodyInternal_stops (h : parseBodyInternal z p w = some (r, w')) : r.isContinue = false := by
  rw [parseBodyInternal] at h
  simp only [pure_def, bind_eq_bind, bind_eq_some_iff] at h
  obtain ⟨-, -, h⟩ := h
  split_ifs at h with hlong hgzip hdeflate hzero
  · cases h
    decide
  · rw [bind_eq_some_iff] at h
    obtain ⟨-, -, h⟩ := h
    split at h
    · next r' w'' hloop =>
      cases h
      exact gunzipBody_stops z _ _ _ _ hloop
    · exact inflateBody_stops z (Option.some.inj h)
    · cases h
      decide
  · exact inflateBody_stops z (Option.some.inj h)
  · cases h
    decide
  · cases h
    decide

theorem parsePayload_stops (h : parsePayload z p w = some (r, w')) : r.isContinue = false := by
  rw [parsePayload] at h
  split_ifs at h
  · exact parseBodyInternal_stops z p h
  · simp only [bind_eq_bind, bind_eq_some_iff] at h
    obtain ⟨-, -, h⟩ := h
    exact parseChunksLoop_stops z p h

theorem beginPayload_stops (w : Work γ δ) : Stops (beginPayload p w) := by
  rw [beginPayload]
  split_ifs
  · exact stops_of (by decide)
  · exact stops_of (by decide)
  · trivial
  · cases w.header.findField kHeaderContentLength with
    | none | some s =>
      dsimp only
      split_ifs <;> first | exact stops_of (by decide) | trivial

/-- A call in a payload does not answer `CONTINUE`. -/
theorem parsePayloadInternal_stops (h : parsePayloadInternal z p w = some (r, w')) : r.isContinue = false := by
  rw [parsePayloadInternal] at h
  simp only [bind_eq_bind, bind_eq_some_iff] at h
  obtain ⟨-, -, h⟩ := h
  split_ifs at h
  · cases hturn : beginPayload p w with
    | returned r' w'' =>
      have hstops := beginPayload_stops p w
      rw [hturn] at h hstops
      cases h
      exact hstops
    | next w'' =>
      rw [hturn] at h
      exact parsePayload_stops z p h
  · exact parsePayload_stops z p h

end Work

namespace Connection

/-! ## Untouched payloads -/

/-- Until the end of the header the parser is as it was cleared, and nothing has been delivered. -/
def Untouched (side : Side) (c : Connection γ δ) : Prop :=
  match c.parser.parseState with
  | .initialized => c.parser = .cleared
  | .headerReading => c.parser = RequestParser.cleared.setParseState .headerReading ∧ (c.work side).out = []
  | .endOfHeader => c.parser = RequestParser.cleared.setParseState .endOfHeader ∧ (c.work side).out = []
  | _ => True

variable {side : Side} {c : Connection γ δ}

theorem untouched_of_final (h : c.parser.parseState.isFinal = true) : Untouched side c := by
  rw [Untouched]
  split
  · next hs => simp [hs, isFinal, ParseState.toNat] at h
  · next hs => simp [hs, isFinal, ParseState.toNat] at h
  · next hs => simp [hs, isFinal, ParseState.toNat] at h
  · trivial

theorem untouched_of_inPayload (h : (c.work side).InPayload) : Untouched side c := by
  rw [Work.InPayload, Work.Chunking, parser_work] at h
  rw [Untouched]
  rcases h with hs | hs | ⟨hs, -⟩ | hs | hs
  all_goals
    rw [hs]
    trivial

theorem readHeader_untouched {p : Limits} {c' : Connection γ δ} {r : ReadState}
    (hparser : c.parser = RequestParser.cleared.setParseState .headerReading) (hout : (c.work side).out = [])
    (hcall : readHeader side p c = some (r, c')) : Untouched side c' := by
  have hspec := readHeader_call side p c
  rw [hcall] at hspec
  cases hspec with
  | final hparse hr hs => exact untouched_of_final hs
  | waits hparse hlimit hheader hkept hout' | read hparse hkept hout' =>
    rw [Untouched, hkept, hparser]
    exact ⟨rfl, hout'.trans hout⟩

/-- A call keeps the payload untouched up to the end of the header. -/
theorem untouched_call {z : Zlib γ δ} {p : Limits} {c' : Connection γ δ} {r : ReadState}
    (hinv : Inv side c) (huntouched : Untouched side c) (hfinal : c.parser.parseState.isFinal = false)
    (hcall : parse side z p c = some (r, c')) : Untouched side c' := by
  by_cases hinit : c.parser.parseState = .initialized
  · rw [Untouched, hinit] at huntouched
    rw [parse_initialized side z p hinit] at hcall
    refine readHeader_untouched ?_ ?_ hcall <;> cases side
    · rw [start, startClient, setParseState, huntouched]
    · rw [start, startServer, setParseState, huntouched]
    · rfl
    · rfl
  · by_cases hheader : c.parser.parseState = .headerReading
    · rw [Untouched, hheader] at huntouched
      rw [parse_headerReading side z p hheader] at hcall
      exact readHeader_untouched huntouched.1 huntouched.2 hcall
    · -- A payload is left in the middle of it, or in a final state.
      have hw : (c.work side).InPayload ∨
          ((c.work side).parser.parseState = .endOfHeader ∧ (c.work side).parser.gzipZwrapper = none) := by
        rw [parser_work]
        rw [Inv] at hinv
        cases hstate : c.parser.parseState <;> rw [hstate] at hinv hfinal <;>
          first | exact absurd hstate hinit | exact absurd hstate hheader | exact Or.inr ⟨rfl, hinv⟩ |
            exact Or.inl (hinv.resolve_right (by rw [hfinal]; exact Bool.false_ne_true))
      obtain ⟨_, w, hpayload, hnext, -⟩ := Work.parsePayloadInternal_spec z p hw
      rw [parse_payload side z p hinit hheader hfinal, hpayload] at hcall
      cases hcall
      rcases hnext with _ | _
      · exact untouched_of_inPayload (by rwa [work_put])
      · exact untouched_of_final (by rwa [parser_put])

theorem Reachable.untouched {z : Zlib γ δ} (h : Reachable side z c) : Untouched side c := by
  induction h with
  | start io request => rfl
  | @arrive c _ piece ih => cases side <;> exact ih
  | call hreach hfinal p hcall ih => exact untouched_call hreach.inv ih hfinal hcall

/-! ## The caller -/

/-- `do … while (read_state & CONTINUE)`, for `n` calls at most. -/
def callLoop (side : Side) (z : Zlib γ δ) (p : Limits) : Nat → Connection γ δ → Option (Connection γ δ)
  | 0, _ => none
  | n + 1, c =>
    match parse side z p c with
    | none => none
    | some (r, c) => if r.isContinue then callLoop side z p n c else some c

/-- Pieces of data arrive. The parser is called on each of them, as long as its state is not final; after a header
it is called once more. -/
def receive (side : Side) (z : Zlib γ δ) (p : Limits) : List Bytes → Connection γ δ → Option (Connection γ δ)
  | [], c => some c
  | piece :: pieces, c =>
    if c.parser.parseState.isFinal then receive side z p pieces (c.arrive piece)
    else (callLoop side z p 2 (c.arrive piece)).bind (receive side z p pieces)

@[simp] theorem parser_arrive (c : Connection γ δ) (piece : Bytes) : (c.arrive piece).parser = c.parser := rfl

@[simp] theorem arrive_io (c : Connection γ δ) (piece : Bytes) : (c.arrive piece).io = c.io ++ piece := rfl

/-- What comes when the state is final is left in the stream. -/
theorem receive_of_final (side : Side) (z : Zlib γ δ) (p : Limits) (pieces : List Bytes)
    (hfinal : c.parser.parseState.isFinal = true) :
    receive side z p pieces c = some (c.arrive pieces.flatten) := by
  induction pieces generalizing c with
  | nil => simp [receive, arrive]
  | cons piece pieces ih =>
    rw [receive, if_pos hfinal, ih (by exact hfinal)]
    simp [arrive]

/-- In a payload there is one call. -/
theorem callLoop_payload (side : Side) (z : Zlib γ δ) (p : Limits) (n : Nat)
    (hinit : c.parser.parseState ≠ .initialized) (hheader : c.parser.parseState ≠ .headerReading)
    (hfinal : c.parser.parseState.isFinal = false) :
    callLoop side z p (n + 1) c = (Work.parsePayloadInternal z p (c.work side)).map fun r => c.put side r.2 := by
  rw [callLoop, parse_payload side z p hinit hheader hfinal]
  rcases hcall : Work.parsePayloadInternal z p (c.work side) with _ | ⟨r, w⟩
  · rfl
  · simp [Work.parsePayloadInternal_stops z p hcall]

end Connection

end Whispercast.Http
