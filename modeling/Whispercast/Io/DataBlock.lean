import Whispercast.Library.RcHeap
import Mathlib.Data.List.Basic

/-!
# Data blocks, block queues and pointers into them

Model of `common/io/buffer/data_block.{h,cc}`. A `DataBlock` is a cell of a reference-counted heap, a
`BlockDqueue` the vector of block addresses with its two offsets, and a `DataBlockPointer` a block id
with a position. An iterator into the vector is the suffix of addresses it points at, so `*it` is the
head, `++it` the tail, and `id < owner_->end_id()` says that the suffix is not empty. The id `-1` of a
null pointer is `none`.

Every operation that dereferences an iterator or a block returns an `Option`: `none` stands for a
failed `CHECK`, a failed `DCHECK`, or an access outside the vector or to a freed block.
-/

namespace Whispercast.Io

open Library

/-- Byte strings. -/
abbrev Bytes := List UInt8

/-- Address of a block on the heap. -/
abbrev BlockRef := Nat

/-- A block of memory with the number of its bytes that hold data. -/
structure DataBlock where
  /-- The allocated bytes; `buffer_size_` is their number. -/
  buffer_ : Bytes
  /-- Number of data bytes in the buffer. -/
  size_ : Nat
  /-- `writable_buffer_ != NULL`. -/
  isMutable : Bool

/-- The heap of reference-counted blocks. -/
abbrev Heap := RcHeap DataBlock

namespace DataBlock

/-- `buffer_size()`. -/
def bufferSize (b : DataBlock) : Nat := b.buffer_.length

/-- The data bytes of a block. -/
def data (b : DataBlock) : Bytes := b.buffer_.take b.size_

/-- `DataBlock(buffer_size)`: a writable block without data. Its bytes are not initialized in the
source; none of them is read before it is written. -/
def ofSize (bufferSize : Nat) : Option DataBlock :=
  if 0 < bufferSize then some ⟨List.replicate bufferSize 0, 0, true⟩ else none

/-- `DataBlock(buffer, size, disposer, alloc_block)`: a block around given bytes, never written. -/
def ofRaw (buffer : Bytes) : Option DataBlock :=
  if 0 < buffer.length then some ⟨buffer, buffer.length, false⟩ else none

/-- `set_size`, with its `DCHECK_LE`. -/
def setSize (b : DataBlock) (size : Nat) : Option DataBlock :=
  if size ≤ b.bufferSize then some { b with size_ := size } else none

/-- `memcpy` of `bs` into the buffer at `pos`. -/
def overwrite (b : DataBlock) (pos : Nat) (bs : Bytes) : DataBlock :=
  { b with buffer_ := b.buffer_.take pos ++ bs ++ b.buffer_.drop (pos + bs.length) }

end DataBlock

/-- The block queue: a vector of block addresses, the index of its first block still in use, and the
id correction accumulated by compacting the vector. -/
structure BlockDqueue where
  vector : List BlockRef
  beginId_ : Nat
  correction_ : Nat
  begin_le : beginId_ ≤ vector.length

namespace BlockDqueue

theorem nil_begin_le : 0 ≤ ([] : List BlockRef).length := Nat.le_refl 0

/-- The queue of a new stream. -/
def new : BlockDqueue := ⟨[], 0, 0, nil_begin_le⟩

/-- `begin_id()`. -/
def beginId (q : BlockDqueue) : Nat := q.beginId_ + q.correction_

/-- `end_id()`. -/
def endId (q : BlockDqueue) : Nat := q.vector.length + q.correction_

/-- `buffer_it(id)`; an id below the correction lies in front of the vector. -/
def bufferIt (q : BlockDqueue) (id : Nat) : Option (List BlockRef) :=
  if q.correction_ ≤ id then some (q.vector.drop (id - q.correction_)) else none

/-- The blocks from `begin()` to `end()`. -/
def live (q : BlockDqueue) : List BlockRef := q.vector.drop q.beginId_

/-- `size()`. -/
def size (q : BlockDqueue) : Nat := q.vector.length - q.beginId_

def pushBack (q : BlockDqueue) (r : BlockRef) : BlockDqueue where
  vector := q.vector ++ [r]
  beginId_ := q.beginId_
  correction_ := q.correction_
  begin_le := by
    have := q.begin_le
    simp only [List.length_append]
    omega

/-- `front()` followed by `pop_front()`. -/
def popFront (q : BlockDqueue) : Option (BlockRef × BlockDqueue) :=
  if h : q.beginId_ < q.vector.length then
    some (q.vector[q.beginId_], ⟨q.vector, q.beginId_ + 1, q.correction_, h⟩)
  else none

def clear (q : BlockDqueue) : BlockDqueue := ⟨[], 0, q.correction_ + q.beginId_, nil_begin_le⟩

def kResizeThreshold : Nat := 25

/-- `correct_buffer`: once more than half of the vector is in front of `begin()`, move the blocks in
use to its front. -/
def correctBuffer (q : BlockDqueue) : BlockDqueue :=
  if kResizeThreshold < q.beginId_ ∧ q.size < q.beginId_ then
    ⟨q.vector.drop q.beginId_, 0, q.correction_ + q.beginId_, Nat.zero_le _⟩
  else q

@[simp] theorem new_live : new.live = [] := rfl
variable (q : BlockDqueue)

@[simp] theorem clear_live : q.clear.live = [] := rfl

@[simp] theorem pushBack_live (r : BlockRef) : (q.pushBack r).live = q.live ++ [r] :=
  List.drop_append_of_le_length q.begin_le

/-- The last block of a queue has the id in front of `end_id()`. -/
theorem endId_eq : q.endId = q.beginId + q.live.length := by
  have := q.begin_le
  simp only [endId, beginId, live, List.length_drop]
  omega

theorem size_eq : q.size = q.live.length := by
  simp only [size, live, List.length_drop]

theorem bufferIt_add (k : Nat) : q.bufferIt (q.beginId + k) = some (q.live.drop k) := by
  rw [bufferIt, beginId, if_pos (by omega), live, List.drop_drop]
  congr 2
  omega

theorem popFront_eq {q : BlockDqueue} {r : BlockRef} {it : List BlockRef} (hq : q.live = r :: it) :
    ∃ q', q.popFront = some (r, q') ∧ q'.live = it ∧ q'.beginId = q.beginId + 1 := by
  have hlt : q.beginId_ < q.vector.length := by
    by_contra hge
    rw [live, List.drop_of_length_le (by omega)] at hq
    cases hq
  rw [live, List.drop_eq_getElem_cons hlt, List.cons.injEq] at hq
  refine ⟨⟨q.vector, q.beginId_ + 1, q.correction_, hlt⟩, ?_, hq.2, ?_⟩
  · rw [popFront, dif_pos hlt, hq.1]
  · simp only [beginId]
    omega

/-- Compacting the vector moves no block: ids keep their meaning. -/
@[simp] theorem correctBuffer_live : q.correctBuffer.live = q.live := by
  unfold correctBuffer
  split <;> rfl

@[simp] theorem correctBuffer_beginId : q.correctBuffer.beginId = q.beginId := by
  unfold correctBuffer
  split
  · simp only [beginId]
    omega
  · rfl

end BlockDqueue

/-- A position in a block queue. -/
structure DataBlockPointer where
  /-- `block_id_`, `none` for `-1`. -/
  blockId : Option Nat
  pos : Nat
  deriving DecidableEq

namespace DataBlockPointer

/-- The pointers of a new stream, and what `Clear` leaves. -/
def null : DataBlockPointer := ⟨none, 0⟩

def isNull (p : DataBlockPointer) : Bool := p.blockId.isNone

/-- `block_it()`. -/
def blockIt (owner : BlockDqueue) (p : DataBlockPointer) : Option (List BlockRef) :=
  p.blockId.bind owner.bufferIt

/-- `block()`: address and content of the block pointed into. -/
def block (h : Heap) (owner : BlockDqueue) (p : DataBlockPointer) : Option (BlockRef × DataBlock) :=
  match p.blockIt owner with
  | some (r :: _) => (h.get r).map fun b => (r, b)
  | _ => none

/-- `operator<`; the id `-1` comes first. -/
def lt (p m : DataBlockPointer) : Bool :=
  match p.blockId, m.blockId with
  | none, none => p.pos < m.pos
  | none, some _ => true
  | some _, none => false
  | some i, some j => if i = j then p.pos < m.pos else i < j

def availableForWrite (h : Heap) (owner : BlockDqueue) (p : DataBlockPointer) : Option Nat :=
  if p.isNull then some 0
  else (p.block h owner).map fun c => c.2.bufferSize - p.pos

/-- `AdvanceToCurrentBlockEnd`: count the whole rest of the block as written. -/
def advanceToCurrentBlockEnd (h : Heap) (owner : BlockDqueue) (p : DataBlockPointer) :
    Option (Heap × DataBlockPointer × Nat) :=
  if p.isNull then some (h, p, 0)
  else do
    let (r, b) ← p.block h owner
    let b' ← b.setSize b.bufferSize
    let h' ← h.put r b'
    some (h', { p with pos := b'.size_ }, b.bufferSize - p.pos)

def skipToCurrentBlockEnd (h : Heap) (owner : BlockDqueue) (p : DataBlockPointer) :
    Option DataBlockPointer :=
  if p.isNull then some p
  else (p.block h owner).map fun c => { p with pos := c.2.size_ }

def markCurrentBlockEndAtPointer (h : Heap) (owner : BlockDqueue) (p : DataBlockPointer) :
    Option Heap := do
  let (r, b) ← p.block h owner
  let b' ← b.setSize p.pos
  h.put r b'

/-! ## Loops over the blocks -/

/-- Sum of the sizes of the first `n` blocks at an iterator. -/
def sumSizes (h : Heap) : List BlockRef → Nat → Option Nat
  | _, 0 => some 0
  | [], _ + 1 => none
  | r :: it, n + 1 => do
      let b ← h.get r
      let rest ← sumSizes h it n
      some (b.size_ + rest)

/-- `Distance`: bytes between two pointers of one queue. -/
def distance (h : Heap) (owner : BlockDqueue) (p m : DataBlockPointer) : Option Int :=
  let (p, m) := if m.lt p then (m, p) else (p, m)
  match p.blockId, m.blockId with
  | some i, some j => do
      let it ← owner.bufferIt i
      let sizes ← sumSizes h it (j - i)
      some (sizes - p.pos + m.pos)
  | none, none => some (m.pos - p.pos)
  | _, _ => none

/-- `AdvanceToNextBlock` from in front of the iterator: the next block that holds data, with its id;
`some none` when there is none. -/
def advanceToNextBlock (h : Heap) : List BlockRef → Nat → Option (Option (List BlockRef × Nat))
  | [], _ => some none
  | r :: it, id => do
      let b ← h.get r
      if b.size_ = 0 then advanceToNextBlock h it (id + 1) else some (some (r :: it, id))

theorem length_advanceToNextBlock {h : Heap} {it it' : List BlockRef} {id id' : Nat}
    (hadv : advanceToNextBlock h it id = some (some (it', id'))) : it'.length ≤ it.length := by
  induction it generalizing id with
  | nil => simp [advanceToNextBlock] at hadv
  | cons r it ih =>
    cases hg : h.get r with
    | none => simp [advanceToNextBlock, hg] at hadv
    | some b =>
      by_cases hb : b.size_ = 0
      · simp only [advanceToNextBlock, hg, Option.bind_eq_bind, Option.bind_some, hb,
          if_true] at hadv
        have := ih hadv
        simp only [List.length_cons]
        omega
      · simp only [advanceToNextBlock, hg, Option.bind_eq_bind, Option.bind_some, hb,
          if_false, Option.some.injEq, Prod.mk.injEq] at hadv
        rw [← hadv.1]

/-- The loop of `Advance` for a count that is not negative; the first component of the result is the
number of bytes passed. -/
def advanceLoop (h : Heap) (it : List BlockRef) (id pos cb : Nat) :
    Option (Nat × DataBlockPointer) :=
  match it with
  | [] => none
  | r :: rest =>
    match h.get r with
    | none => none
    | some b =>
      if 0 < cb ∨ pos = b.size_ then
        if pos = b.size_ then
          match rest with
          | [] => some (0, ⟨some id, pos⟩)
          | r' :: rest' => advanceLoop h (r' :: rest') (id + 1) 0 cb
        else if _hadd : min (b.size_ - pos) cb = 0 then none
        else do
          let (delta, p) ← advanceLoop h (r :: rest) id (pos + min (b.size_ - pos) cb)
            (cb - min (b.size_ - pos) cb)
          some (delta + min (b.size_ - pos) cb, p)
      else some (0, ⟨some id, pos⟩)
termination_by (it.length, cb)
decreasing_by
  · simp_wf
    exact Prod.Lex.left _ _ (by simp)
  · simp_wf
    exact Prod.Lex.right _ (by omega)

def advance (h : Heap) (owner : BlockDqueue) (p : DataBlockPointer) (cb : Nat) :
    Option (Nat × DataBlockPointer) := do
  let id ← p.blockId
  let it ← owner.bufferIt id
  advanceLoop h it id p.pos cb

/-- The loop of `ReadData`. -/
def readDataLoop (h : Heap) (it : List BlockRef) (id pos len : Nat) :
    Option (Bytes × DataBlockPointer) :=
  if len = 0 then some ([], ⟨some id, pos⟩)
  else match it with
  | [] => none
  | r :: rest =>
    match h.get r with
    | none => none
    | some b =>
      if pos = b.size_ then
        match _hadv : advanceToNextBlock h rest (id + 1) with
        | none => none
        | some none => some ([], ⟨some id, pos⟩)
        | some (some (it', id')) => readDataLoop h it' id' 0 len
      else if _hread : min (b.size_ - pos) len = 0 then none
      else do
        let (out, p) ← readDataLoop h (r :: rest) id (pos + min (b.size_ - pos) len)
          (len - min (b.size_ - pos) len)
        some ((b.buffer_.drop pos).take (min (b.size_ - pos) len) ++ out, p)
termination_by (it.length, len)
decreasing_by
  · have := length_advanceToNextBlock _hadv
    simp_wf
    exact Prod.Lex.left _ _ (by omega)
  · simp_wf
    exact Prod.Lex.right _ (by omega)

/-- `ReadData`, also the body of `ReadStringData`. -/
def readData (h : Heap) (owner : BlockDqueue) (p : DataBlockPointer) (len : Nat) :
    Option (Bytes × DataBlockPointer) := do
  let id ← p.blockId
  let it ← owner.bufferIt id
  readDataLoop h it id p.pos len

/-- `*len` as set by `ReadBlock` when `available` bytes of the block are left. -/
def readBlockSize (len available : Nat) : Nat := if 0 < len then min len available else available

/-- The loop of `ReadBlock`; `len` is the limit given by the caller, zero for none. -/
def readBlockLoop (h : Heap) (it : List BlockRef) (id pos len : Nat) :
    Option (Option Bytes × DataBlockPointer) :=
  match it with
  | [] => none
  | r :: rest =>
    match h.get r with
    | none => none
    | some b =>
      if pos = b.size_ then
        match _hadv : advanceToNextBlock h rest (id + 1) with
        | none => none
        | some none => some (none, ⟨some id, pos⟩)
        | some (some (it', id')) => readBlockLoop h it' id' 0 len
      else
        some (some ((b.buffer_.drop pos).take (readBlockSize len (b.size_ - pos))),
          ⟨some id, pos + readBlockSize len (b.size_ - pos)⟩)
termination_by it.length
decreasing_by
  have := length_advanceToNextBlock _hadv
  simp only [List.length_cons]
  omega

def readBlock (h : Heap) (owner : BlockDqueue) (p : DataBlockPointer) (len : Nat) :
    Option (Option Bytes × DataBlockPointer) := do
  let id ← p.blockId
  let it ← owner.bufferIt id
  readBlockLoop h it id p.pos len

/-- The search loop of `ReadUntilChar`: number of bytes in front of the first `fin`. The walk over
the bytes of one block is `List.findIdx?`. -/
def findCharLoop (h : Heap) (fin : UInt8) (it : List BlockRef) (id pos : Nat) :
    Option (Option Nat) :=
  match it with
  | [] => none
  | r :: rest =>
    match h.get r with
    | none => none
    | some b =>
      match (b.data.drop pos).findIdx? (· == fin) with
      | some k => some (some k)
      | none =>
        match _hadv : advanceToNextBlock h rest (id + 1) with
        | none => none
        | some none => some none
        | some (some (it', id')) => do
            let k ← findCharLoop h fin it' id' 0
            some (k.map (b.size_ - pos + ·))
termination_by it.length
decreasing_by
  have := length_advanceToNextBlock _hadv
  simp only [List.length_cons]
  omega

/-- `ReadUntilChar`: the bytes up to and including `fin`, or nothing. -/
def readUntilChar (h : Heap) (owner : BlockDqueue) (p : DataBlockPointer) (fin : UInt8) :
    Option (Option Bytes × DataBlockPointer) := do
  let id ← p.blockId
  let it ← owner.bufferIt id
  match ← findCharLoop h fin it id p.pos with
  | none => some (none, p)
  | some len => do
      let (s, p') ← p.readData h owner (len + 1)
      some (some s, p')

/-- The loop of `WriteData`; the second component of the result is the number of bytes written. -/
def writeDataLoop (h : Heap) (it : List BlockRef) (id pos : Nat) (buf : Bytes) :
    Option (Heap × Nat × DataBlockPointer) :=
  if buf.length = 0 then some (h, 0, ⟨some id, pos⟩)
  else match it with
  | [] => none
  | r :: rest =>
    match h.get r with
    | none => none
    | some b =>
      if pos = b.bufferSize then
        match rest with
        | [] => some (h, 0, ⟨some id, pos⟩)
        | r' :: rest' =>
          match h.get r' with
          | none => none
          | some b' =>
            -- no stomping over data
            if b'.size_ = 0 then writeDataLoop h (r' :: rest') (id + 1) 0 buf else none
      else if _hwrite : min (b.bufferSize - pos) buf.length = 0 ∨ b.isMutable = false then none
      else do
        let n := min (b.bufferSize - pos) buf.length
        let b' ← (b.overwrite pos (buf.take n)).setSize (b.size_ + n)
        let h' ← h.put r b'
        let (h'', cb, p) ← writeDataLoop h' (r :: rest) id (pos + n) (buf.drop n)
        some (h'', cb + n, p)
termination_by (it.length, buf.length)
decreasing_by
  · simp_wf
    exact Prod.Lex.left _ _ (by simp)
  · simp_wf
    exact Prod.Lex.right _ (by omega)

def writeData (h : Heap) (owner : BlockDqueue) (p : DataBlockPointer) (buf : Bytes) :
    Option (Heap × Nat × DataBlockPointer) := do
  let id ← p.blockId
  let it ← owner.bufferIt id
  writeDataLoop h it id p.pos buf

end DataBlockPointer

end Whispercast.Io
