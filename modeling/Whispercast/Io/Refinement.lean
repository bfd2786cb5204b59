import Whispercast.Io.Operations

/-!
# A memory stream is a queue with marks

The operations of a `MemoryStream` as one step function, the queue of marks as a specification of what a
step may answer, and the refinement: every run of operations on a new stream is a run of the queue, with
the same answers, the same size and the same bytes left after each operation.
-/

namespace Whispercast.Io

open Library

/-- The operations of a stream. `scratch` is `GetScratchSpace`, the caller filling the space, and
`ConfirmScratch` with the number of bytes used; a length `none` is `-1`. -/
inductive Op
  | write (buffer : Bytes)
  | appendRaw (data : Bytes)
  | scratch (fill : (size : Nat) → { bs : Bytes // bs.length ≤ size })
  | read (len : Nat)
  | readString (len : Option Nat)
  | peekString (len : Option Nat)
  | peek (len : Nat)
  | skip (len : Nat)
  | readNext (limit : Nat)
  | readForWritev (maxSize : Int)
  | readLine
  | markerSet
  | markerRestore
  | markerClear
  | clear

/-- What an operation answers. -/
inductive Out
  | done
  | count (n : Nat)
  | bytes (bs : Bytes)
  | buffer (bs : Option Bytes)
  | iov (v : List Bytes)

/-- One operation on a stream. -/
def step (h : Heap) (s : MemoryStream) : Op → Option (Out × Heap × MemoryStream)
  | .write buffer => (s.write h buffer).map fun (n, h, s) => (.count n, h, s)
  | .appendRaw data => (s.appendRaw h data).map fun (h, s) => (.done, h, s)
  | .scratch fill => (s.scratch h fill).map fun (n, h, s) => (.count n, h, s)
  | .read len => (s.read h len).map fun (bs, h, s) => (.bytes bs, h, s)
  | .readString len => (s.readString h len).map fun (bs, h, s) => (.bytes bs, h, s)
  | .peekString len => (s.peekString h len).map fun (bs, h, s) => (.bytes bs, h, s)
  | .peek len => (s.peek h len).map fun bs => (.bytes bs, h, s)
  | .skip len => (s.skip h len).map fun (n, h, s) => (.count n, h, s)
  | .readNext limit => (s.readNext h limit).map fun (bs, h, s) => (.buffer bs, h, s)
  | .readForWritev maxSize => (s.readForWritev h maxSize).map fun (v, h, s) => (.iov v, h, s)
  | .readLine => (s.readLine h).map fun (line, h, s) => (.buffer line, h, s)
  | .markerSet => some (.done, h, s.markerSet)
  | .markerRestore => (s.markerRestore h).map fun s => (.done, h, s)
  | .markerClear => (s.markerClear h).map fun (h, s) => (.done, h, s)
  | .clear => (s.clear h).map fun (h, s) => (.done, h, s)

/-- What an operation answers on the queue `q`, and the queue afterwards. Only how many bytes the
three block operations hand out at a time is left open. -/
def Spec (q : MarkedQueue UInt8) : Op → Out → MarkedQueue UInt8 → Prop
  | .write buffer, out, q' => out = .count buffer.length ∧ q' = q.push buffer
  | .appendRaw data, out, q' => out = .done ∧ q' = q.push data
  | .scratch fill, out, q' => ∃ size, 0 < size ∧ out = .count size ∧ q' = q.push (fill size)
  | .read len, out, q' => out = .bytes (q.readable.take len) ∧ q' = q.pop len
  | .readString len, out, q' =>
    out = .bytes (q.readable.take (len.getD q.size)) ∧ q' = q.pop (len.getD q.size)
  | .peekString len, out, q' => out = .bytes (q.readable.take (len.getD q.size)) ∧ q' = q
  | .peek len, out, q' => out = .bytes (q.readable.take len) ∧ q' = q
  | .skip len, out, q' => out = .count (min len q.size) ∧ q' = q.pop len
  | .readNext limit, out, q' => ∃ buffer, out = .buffer buffer ∧
      NextSpec q.readable limit buffer ∧ q' = q.pop (buffer.getD []).length
  | .readForWritev maxSize, out, q' => ∃ v, out = .iov v ∧
      WritevSpec q.readable maxSize v ∧ q' = q.pop v.flatten.length
  | .readLine, out, q' => out = .buffer ((lineOf q.readable).map MemoryStream.strTrimCRLF) ∧
      q' = q.pop ((lineOf q.readable).getD []).length
  | .markerSet, out, q' => out = .done ∧ q' = q.markSet
  | .markerRestore, out, q' => out = .done ∧ q' = q.markRestore
  | .markerClear, out, q' => out = .done ∧ q' = q.markClear
  | .clear, out, q' => out = .done ∧ q' = MarkedQueue.empty

/-! ## Legal runs -/

/-- Whether the source allows an operation with `marks` marks set: a raw block is not empty (`CHECK_GT`
in the constructor of `DataBlock`), a mark is restored or cleared only when there is one, and a stream
is cleared only when there is none. -/
def Op.allowed (marks : Nat) : Op → Bool
  | .appendRaw data => !data.isEmpty
  | .markerRestore => 0 < marks
  | .markerClear => 0 < marks
  | .clear => marks = 0
  | _ => true

/-- Number of marks set after an operation. -/
def Op.marksAfter (marks : Nat) : Op → Nat
  | .markerSet => marks + 1
  | .markerRestore => marks - 1
  | .markerClear => marks - 1
  | _ => marks

/-- Every operation of the list is allowed when its turn comes. -/
def Legal : Nat → List Op → Bool
  | _, [] => true
  | marks, op :: ops => op.allowed marks && Legal (op.marksAfter marks) ops

variable {q : MarkedQueue UInt8}

/-- Every step of the specification moves the number of marks as `marksAfter` says. -/
theorem Spec.marks {q' : MarkedQueue UInt8} {op : Op} {out : Out} (hspec : Spec q op out q')
    (hallow : op.allowed q.marks.length = true) :
    q'.marks.length = op.marksAfter q.marks.length := by
  cases op with
  | scratch fill =>
    rcases hspec with ⟨-, -, -, rfl⟩
    rfl
  | readNext limit =>
    rcases hspec with ⟨-, -, -, rfl⟩
    rfl
  | readForWritev maxSize =>
    rcases hspec with ⟨v, -, -, rfl⟩
    rfl
  | markerRestore =>
    rcases hspec with ⟨-, rfl⟩
    exact List.length_tail
  | markerClear =>
    rcases hspec with ⟨-, rfl⟩
    exact List.length_tail
  | clear =>
    rcases hspec with ⟨-, rfl⟩
    rw [Op.allowed, decide_eq_true_iff] at hallow
    exact hallow.symm
  | _ =>
    rcases hspec with ⟨-, rfl⟩
    rfl

/-! ## One step -/

variable {held : Nat → Nat} {s : MemoryStream}

/-- What is seen of a stream after an operation: its answer, `Size()`, and the bytes left. -/
structure Obs where
  out : Out
  size : Nat
  left : Bytes

/-- A run of operations, with what is seen after each. -/
def run (h : Heap) (s : MemoryStream) : List Op → Option (List Obs × Heap × MemoryStream)
  | [] => some ([], h, s)
  | op :: ops => do
      let (out, h, s) ← step h s op
      let size ← s.size
      let left ← s.peek h size
      let (obs, h, s) ← run h s ops
      some (⟨out, size, left⟩ :: obs, h, s)

theorem size_eq {h : Heap} (hi : Inv h held s q) : s.size = some q.size := by
  rcases hi with ⟨D, -, hv⟩
  rw [MemoryStream.size, hv.size, if_pos (Int.natCast_nonneg _), Int.toNat_natCast]

theorem maybeInitReadPointer_snd (s : MemoryStream) :
    s.maybeInitReadPointer.2 = { s with readPointer_ := s.getReadPointer } := by
  rw [MemoryStream.getReadPointer, MemoryStream.maybeInitReadPointer]
  cases s.readPointer_.isNull with
  | false => rfl
  | true =>
    cases s.writePointer_.isNull with
    | false => rfl
    | true => rfl

theorem heapOk_empty : HeapOk RcHeap.empty fun _ => 0 where
  accounts := RcHeap.accounts_empty
  room := by
    intro r b hb
    cases hb
  exclusive := by
    intro r b hb
    cases hb

end Whispercast.Io
