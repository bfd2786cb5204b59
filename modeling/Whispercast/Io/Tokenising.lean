import Whispercast.Io.Sharing
import Whispercast.Io.TokenReader

/-!
# Tokens and lines of a stream

A stream is built of blocks with any data and any unused space, bytes are skipped, and tokens and lines are read. What
is read is a function of the bytes in front of the read pointer, so it is what is read when one block holds them.
-/

namespace Whispercast.Io

open Library List MarkedQueue

/-! ## One token -/

section Token

variable {h : Heap} {held : Nat → Nat} {s : MemoryStream} {q : MarkedQueue UInt8}

/-- The token in front of some bytes, and how many of them are taken. -/
def tokenOf (readable : Bytes) : Except TokenFault Token × Nat :=
  match readNextAsciiToken readable with
  | .ok (token, rest) => (.ok token, readable.length - rest.length)
  | .error fault => (.error fault, 0)

theorem MemoryStream.readNextAsciiToken_yields (hi : Inv h held s q) :
    Yields (s.readNextAsciiToken h) fun (token, h', s') =>
      token = (tokenOf q.readable).1 ∧ Inv h' held s' (q.pop (tokenOf q.readable).2) ∧ Frame held h h' := by
  rw [MemoryStream.readNextAsciiToken]
  rcases hi.maybeInit with ⟨hinit, hnil, -⟩ | ⟨_, hinit, hread, hi₁⟩
  · rw [hinit, hnil]
    refine Yields.some ⟨rfl, ?_, Frame.refl held h⟩
    show Inv h held s (q.pop 0)
    rwa [pop_zero]
  rw [hinit]
  rcases hi₁.pointers hread with ⟨D, hs, hv, hat, -⟩
  apply (Io.readNextAsciiToken_yields hs.stored hat).bind
  rintro ⟨token | token, r, len⟩ hread'
  · obtain ⟨hspec, rfl, rfl⟩ := hread'
    have hof : tokenOf q.readable = (.error token, 0) := by rw [tokenOf, hspec]
    rw [hof, pop_zero]
    refine Yields.some ⟨rfl, ?_, Frame.refl held h⟩
    rw [Int.natCast_zero, Int.sub_zero]
    exact hi₁
  · obtain ⟨_, hspec, hlength, hr, hle⟩ := hread'
    have hof : tokenOf q.readable = (.ok token, len) := by
      rw [tokenOf, hspec]
      dsimp only
      rw [hlength, Nat.add_sub_cancel]
    rw [hof]
    refine Yields.some ⟨rfl, ⟨D, hs, hv.move hr hle ?_⟩, Frame.refl held h⟩
    have hsize := length_readable q
    rw [Nat.min_eq_left (by omega)]

end Token

/-! ## Tokens and lines -/

/-- A call that reads text. -/
inductive TextCall where
  | readNextAsciiToken
  | readLine
  | readLFLine

/-- What such a call returns. -/
inductive TextAnswer where
  | token (result : Except TokenFault Token)
  | line (s : Option Bytes)
  | lfLine (s : Option Bytes)

/-- What is seen of a stream behind a call: its answer, `Size()`, and the bytes that are left. -/
structure TextObs where
  answer : TextAnswer
  size : Nat
  left : Bytes

/-- One call. -/
def textCall (h : Heap) (s : MemoryStream) : TextCall → Option (TextAnswer × Heap × MemoryStream)
  | .readNextAsciiToken => (s.readNextAsciiToken h).map fun (token, h, s) => (.token token, h, s)
  | .readLine => (s.readLine h).map fun (line, h, s) => (.line line, h, s)
  | .readLFLine => (s.readLFLine h).map fun (line, h, s) => (.lfLine line, h, s)

/-- One call after another. -/
def textRun (h : Heap) (s : MemoryStream) : List TextCall → Option (List TextObs)
  | [] => some []
  | call :: calls => do
      let (answer, h, s) ← textCall h s call
      let size ← s.size
      let left ← leftIn h s
      let obs ← textRun h s calls
      some (⟨answer, size, left⟩ :: obs)

/-- What a call returns, and how many bytes it takes, by the bytes that it finds. -/
def TextCall.on (readable : Bytes) : TextCall → TextAnswer × Nat
  | .readNextAsciiToken => (.token (tokenOf readable).1, (tokenOf readable).2)
  | .readLine => (.line ((lineOf readable).map MemoryStream.strTrimCRLF), ((lineOf readable).getD []).length)
  | .readLFLine => (.lfLine (lineOf readable), ((lineOf readable).getD []).length)

/-- What is seen behind each call, by the bytes that the first one finds. -/
def textOf : Bytes → List TextCall → List TextObs
  | _, [] => []
  | readable, call :: calls =>
    let left := readable.drop (call.on readable).2
    ⟨(call.on readable).1, left.length, left⟩ :: textOf left calls

section Runs

variable {h : Heap} {held : Nat → Nat} {s : MemoryStream} {q : MarkedQueue UInt8}

theorem textCall_yields (hi : Inv h held s q) (call : TextCall) : Yields (textCall h s call) fun (answer, h', s') =>
      answer = (call.on q.readable).1 ∧ Inv h' held s' (q.pop (call.on q.readable).2) := by
  cases call with
  | readNextAsciiToken =>
    refine (MemoryStream.readNextAsciiToken_yields hi).map ?_
    rintro ⟨-, h', s'⟩ ⟨rfl, hi', -⟩
    exact ⟨rfl, hi'⟩
  | readLine =>
    refine (readLine_yields hi).map ?_
    rintro ⟨line, h', s'⟩ ⟨rfl, hi', -⟩
    exact ⟨rfl, hi'⟩
  | readLFLine =>
    refine (readLFLine_yields hi).map ?_
    rintro ⟨line, h', s'⟩ ⟨rfl, hi', -⟩
    exact ⟨rfl, hi'⟩

/-- A run depends on nothing but the bytes in front of the read pointer. -/
theorem textRun_eq (hi : Inv h held s q) (calls : List TextCall) : textRun h s calls = some (textOf q.readable calls) := by
  induction calls generalizing h s q with
  | nil => rfl
  | cons call calls ih =>
    obtain ⟨⟨_, _, _⟩, hcall, rfl, hi'⟩ := textCall_yields hi call
    rw [textRun, hcall, Option.bind_eq_bind, Option.bind_some]
    dsimp only
    rw [size_eq hi', leftIn_eq hi', ih hi', ← length_readable, pop_readable]
    rfl

end Runs

/-! ## Streams of any blocks -/

/-- A block that is appended: its data, and what its buffer has behind them. -/
structure TextPiece where
  data : Bytes
  spare : Bytes

/-- The block of a piece. -/
def TextPiece.block (p : TextPiece) : DataBlock := ⟨p.data ++ p.spare, p.data.length, true⟩

/-- `AppendBlock` of new blocks. -/
def appendPieces : List TextPiece → Heap → MemoryStream → Option (Heap × MemoryStream)
  | [], h, s => some (h, s)
  | p :: pieces, h, s => do
      let (r, h) := h.alloc p.block
      let (h, s) ← s.appendBlock h r
      appendPieces pieces h s

/-- Tokens and lines of a stream to which the blocks were appended, and of which some bytes were skipped. -/
def textOfPieces (blockSize : ℕ+) (pieces : List TextPiece) (skipped : Nat) (calls : List TextCall) :
    Option (List TextObs) := do
  let (h, s) ← appendPieces pieces RcHeap.empty (MemoryStream.new blockSize)
  let (_, h, s) ← s.skip h skipped
  textRun h s calls

theorem appendPieces_yields {h : Heap} {held : Nat → Nat} {s : MemoryStream} {q : MarkedQueue UInt8}
    (hi : Inv h held s q) (pieces : List TextPiece) :
    Yields (appendPieces pieces h s) fun (h', s') => Inv h' held s' (q.push (pieces.flatMap TextPiece.data)) := by
  induction pieces generalizing h s q with
  | nil =>
    refine Yields.some ?_
    rw [flatMap_nil, push_nil]
    exact hi
  | cons p pieces ih =>
    rcases hi with ⟨D, hs, hv⟩
    have hroom : p.block.size_ ≤ p.block.bufferSize := by
      rw [TextPiece.block, DataBlock.bufferSize, length_append]
      exact Nat.le_add_right _ _
    obtain ⟨hs', hself, hnobody, -⟩ := hs.alloc hroom fun _ => rfl
    rw [appendPieces]
    apply (appendBlock_stored hs' hv hself hroom (Or.inr hnobody)).bind
    rintro ⟨h', s'⟩ ⟨hi', -⟩
    have hdata : p.block.data = p.data := take_left
    rw [hdata] at hi'
    have hrest := ih hi'
    rw [push_push] at hrest
    exact hrest

theorem textOfPieces_eq (blockSize : ℕ+) (pieces : List TextPiece) (skipped : Nat) (calls : List TextCall) :
    textOfPieces blockSize pieces skipped calls = some (textOf ((pieces.flatMap TextPiece.data).drop skipped) calls) := by
  obtain ⟨⟨h, s⟩, happend, hi⟩ := appendPieces_yields (new_inv blockSize heapOk_empty) pieces
  obtain ⟨⟨n, _, _⟩, hskip, -, hi', -⟩ := skip_yields hi skipped
  have hreadable := textRun_eq hi' calls
  rw [pop_readable, push_readable, empty_readable, nil_append] at hreadable
  rw [textOfPieces, happend, Option.bind_eq_bind, Option.bind_some]
  dsimp only
  rw [hskip]
  exact hreadable

/-! ## What is taken -/

/-- The bytes that a call took by its answer: none where it found nothing, and else what it found, with the blanks in
front of a token and the end of a line. -/
def TextAnswer.Took : TextAnswer → Bytes → Prop
  | .token (.error _), taken => taken = []
  | .token (.ok t), taken => ∃ blanks, (∀ c ∈ blanks, charAttr c = .space) ∧ taken = blanks ++ t.text
  | .line none, taken => taken = []
  | .line (some s), taken => taken ≠ [] ∧ s = MemoryStream.strTrimCRLF taken
  | .lfLine none, taken => taken = []
  | .lfLine (some s), taken => taken ≠ [] ∧ s = taken

/-- Every call takes a prefix of the bytes that it finds, and `Size()` decreases by as many. -/
def Accounted : Bytes → List TextObs → Prop
  | _, [] => True
  | before, o :: obs =>
    (∃ taken, before = taken ++ o.left ∧ o.answer.Took taken ∧ o.size + taken.length = before.length) ∧
      Accounted o.left obs

theorem lineOf_split {readable line : Bytes} (h : lineOf readable = some line) :
    line ≠ [] ∧ readable = line ++ readable.drop line.length := by
  rw [lineOf, Option.map_eq_some_iff] at h
  obtain ⟨k, hk, rfl⟩ := h
  have hlt : k < readable.length := (findIdx?_eq_some_iff_findIdx_eq.1 hk).1
  refine ⟨?_, ?_⟩
  · intro hnil
    have hlength := congrArg length hnil
    rw [length_take, length_nil] at hlength
    omega
  · rw [length_take, Nat.min_eq_left hlt, take_append_drop]

/-- What one call takes. -/
theorem TextCall.took (call : TextCall) (readable : Bytes) :
    ∃ taken, readable = taken ++ readable.drop (call.on readable).2 ∧ (call.on readable).1.Took taken := by
  cases call with
  | readNextAsciiToken =>
    dsimp only [TextCall.on, tokenOf]
    cases hspec : Io.readNextAsciiToken readable with
    | error fault => exact ⟨[], rfl, rfl⟩
    | ok result =>
      obtain ⟨token, rest⟩ := result
      obtain ⟨blanks, hblanks, heq, -⟩ := readNextAsciiToken_split hspec
      refine ⟨blanks ++ token.text, ?_, blanks, hblanks, rfl⟩
      rw [← append_assoc] at heq
      have hlength := congrArg length heq
      rw [length_append] at hlength
      have hdrop : readable.drop (readable.length - rest.length) = rest := by
        rw [hlength, Nat.add_sub_cancel, heq]
        exact drop_left
      rw [hdrop]
      exact heq
  | readLine | readLFLine =>
    dsimp only [TextCall.on]
    cases hline : lineOf readable with
    | none => exact ⟨[], rfl, rfl⟩
    | some line => exact ⟨line, (lineOf_split hline).2, (lineOf_split hline).1, rfl⟩

theorem textOf_accounted (readable : Bytes) (calls : List TextCall) : Accounted readable (textOf readable calls) := by
  induction calls generalizing readable with
  | nil => trivial
  | cons call calls ih =>
    obtain ⟨taken, heq, htook⟩ := call.took readable
    refine ⟨⟨taken, heq, htook, ?_⟩, ih _⟩
    have hlength := congrArg length heq
    rw [length_append] at hlength
    rw [hlength, Nat.add_comm]

/-- Tokens and lines are the same as when one block holds the bytes, after every call, and so are the bytes that are left;
a call that finds nothing takes nothing, and `Size()` decreases by what a call takes. -/
theorem text_ignores_blocks (blockSize blockSize' : ℕ+) (pieces : List TextPiece) (skipped : Nat) (spare : Bytes)
    (calls : List TextCall) :
    ∃ obs, textOfPieces blockSize pieces skipped calls = some obs ∧
      textOfPieces blockSize' [⟨(pieces.flatMap TextPiece.data).drop skipped, spare⟩] 0 calls = some obs ∧
      Accounted ((pieces.flatMap TextPiece.data).drop skipped) obs := by
  refine ⟨_, textOfPieces_eq blockSize pieces skipped calls, ?_, textOf_accounted _ calls⟩
  rw [textOfPieces_eq, drop_zero, flatMap_cons, flatMap_nil, append_nil]

end Whispercast.Io
