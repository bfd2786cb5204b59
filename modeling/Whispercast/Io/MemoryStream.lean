import Whispercast.Io.DataBlock
import Mathlib.Data.List.DropRight
import Mathlib.Data.PNat.Defs

/-!
# Memory streams

Model of `common/io/buffer/memory_stream.{h,cc}`. A `MemoryStream` is a block queue with a read, a write
and a scratch pointer, a vector of marks, and the cached number of readable bytes. The blocks live on
the heap, which every operation takes and returns. The vector of marks is kept newest first: its
`back()` is the head of the list, its `front()` the last element.

Block ids and byte counts are natural numbers and `size_` an integer: a stream that has held
`2 ^ 31` bytes or blocks is outside the model.
-/

namespace Whispercast.Io

open Library

/-- The fields of a `MemoryStream`. The constructor checks that `block_size_` is positive. -/
structure MemoryStream where
  blockSize_ : ℕ+
  blocks_ : BlockDqueue
  readPointer_ : DataBlockPointer
  writePointer_ : DataBlockPointer
  scratchPointer_ : DataBlockPointer
  /-- Size and position at each mark, newest first. -/
  markers_ : List (Int × DataBlockPointer)
  invalidMarkersSize_ : Bool
  size_ : Int

namespace MemoryStream

/-- `MemoryStream(block_size)`. -/
def new (blockSize : ℕ+) : MemoryStream where
  blockSize_ := blockSize
  blocks_ := BlockDqueue.new
  readPointer_ := DataBlockPointer.null
  writePointer_ := DataBlockPointer.null
  scratchPointer_ := DataBlockPointer.null
  markers_ := []
  invalidMarkersSize_ := false
  size_ := 0

/-- `Size`, with its `CHECK_GE`. -/
def size (s : MemoryStream) : Option Nat := if 0 ≤ s.size_ then some s.size_.toNat else none

def isEmpty (s : MemoryStream) : Bool := s.size_ ≤ 0

def getReadPointer (s : MemoryStream) : DataBlockPointer :=
  if s.readPointer_.isNull && !s.writePointer_.isNull then
    ⟨some s.blocks_.beginId, s.readPointer_.pos⟩
  else s.readPointer_

def maybeInitReadPointer (s : MemoryStream) : Bool × MemoryStream :=
  if s.readPointer_.isNull then
    if s.writePointer_.isNull then (false, s)
    else (true, { s with readPointer_ := ⟨some s.blocks_.beginId, s.readPointer_.pos⟩ })
  else (true, s)

/-- `operator<=` on pointers. -/
def pointerLe (p m : DataBlockPointer) : Bool := p.lt m || p == m

/-! ## Disposing of blocks -/

/-- An id of a queue against `block_id()` of a pointer, which is below every id when it is null. -/
def idBelow (id : Nat) (p : DataBlockPointer) : Bool := p.blockId.any (id < ·)

/-- Condition of the loop in `MaybeDisposeBlocks`. -/
def mayDispose (s : MemoryStream) : Bool :=
  idBelow s.blocks_.beginId s.readPointer_ && s.blocks_.beginId < s.blocks_.endId &&
    s.markers_.getLast?.all fun m => idBelow s.blocks_.beginId m.2

/-- The loop of `MaybeDisposeBlocks`, which drops at most as many blocks as there are. -/
def disposeLoop : Nat → Heap → MemoryStream → Option (Heap × MemoryStream)
  | 0, h, s => if s.mayDispose then none else some (h, s)
  | fuel + 1, h, s =>
    if s.mayDispose then do
      let (front, blocks) ← s.blocks_.popFront
      let h ← h.decRef front
      disposeLoop fuel h { s with blocks_ := blocks }
    else some (h, s)

def maybeDisposeBlocks (h : Heap) (s : MemoryStream) : Option (Heap × MemoryStream) := do
  let (h, s) ← disposeLoop s.blocks_.size h s
  some (h, { s with blocks_ := s.blocks_.correctBuffer })

/-! ## Putting bytes in -/

/-- Allocate a block, take a reference and push it back. -/
def pushNewBlock (h : Heap) (blocks : BlockDqueue) (bufferSize : Nat) :
    Option (Heap × BlockDqueue) := do
  let b ← DataBlock.ofSize bufferSize
  let (r, h) := h.alloc b
  let h ← h.incRef r
  some (h, blocks.pushBack r)

def appendBlock (h : Heap) (s : MemoryStream) (block : BlockRef) : Option (Heap × MemoryStream) := do
  let b ← h.get block
  let h ← h.incRef block
  let blocks := s.blocks_.pushBack block
  some (h, { s with
    blocks_ := blocks
    invalidMarkersSize_ := true
    writePointer_ := ⟨some (blocks.endId - 1), b.size_⟩
    size_ := s.size_ + b.size_ })

def appendRaw (h : Heap) (s : MemoryStream) (data : Bytes) : Option (Heap × MemoryStream) := do
  let b ← DataBlock.ofRaw data
  let (r, h) := h.alloc b
  appendBlock h s r

/-- The loop of `Write`: fill the blocks at the write pointer and push a block that holds the rest
whenever they are full. The last component of the result is the number of bytes written. -/
def writeLoop (blockSize : Nat) : Nat → Heap → BlockDqueue → DataBlockPointer → Bytes →
    Option (Heap × BlockDqueue × DataBlockPointer × Nat)
  | 0, _, _, _, _ => none
  | fuel + 1, h, blocks, w, p =>
    if p.length = 0 then some (h, blocks, w, 0)
    else do
      let (h, delta, w) ← w.writeData h blocks p
      let (h, blocks) ←
        if 0 < (p.drop delta).length then
          pushNewBlock h blocks (max (p.drop delta).length blockSize)
        else some (h, blocks)
      let (h, blocks, w, cb) ← writeLoop blockSize fuel h blocks w (p.drop delta)
      some (h, blocks, w, delta + cb)

/-- The start of `Write`: a stream without a write pointer gets a block. -/
def writeStart (h : Heap) (s : MemoryStream) (len : Nat) :
    Option (Heap × BlockDqueue × DataBlockPointer) :=
  if s.writePointer_.isNull then do
    let (h, blocks) ← pushNewBlock h s.blocks_ (max len s.blockSize_)
    some (h, blocks, ⟨some blocks.beginId, 0⟩)
  else some (h, s.blocks_, s.writePointer_)

/-- `Write`. Two rounds of the loop suffice, and one to see that nothing is left. -/
def write (h : Heap) (s : MemoryStream) (buffer : Bytes) : Option (Nat × Heap × MemoryStream) := do
  let (h, blocks, w) ← writeStart h s buffer.length
  let (h, blocks, w, cb) ← writeLoop s.blockSize_ 3 h blocks w buffer
  some (cb, h, { s with
    invalidMarkersSize_ := true
    blocks_ := blocks
    writePointer_ := w
    size_ := s.size_ + cb })

/-- The start of `GetScratchSpace`: a new block when there is no room at the write pointer. -/
def scratchStart (h : Heap) (s : MemoryStream) :
    Option (Heap × BlockDqueue × DataBlockPointer) := do
  let available ← s.writePointer_.availableForWrite h s.blocks_
  if s.writePointer_.isNull || available = 0 then do
    let (h, blocks) ← pushNewBlock h s.blocks_ s.blockSize_
    some (h, blocks, ⟨some (blocks.endId - 1), 0⟩)
  else some (h, s.blocks_, s.writePointer_)

/-- `GetScratchSpace`: the block and offset of the space, and how many bytes it has. -/
def getScratchSpace (h : Heap) (s : MemoryStream) :
    Option ((BlockRef × Nat × Nat) × Heap × MemoryStream) :=
  if s.scratchPointer_.isNull then do
    let (h, blocks, w) ← scratchStart h s
    let (r, b) ← w.block h blocks
    if b.isMutable then
      let (h, w', size) ← w.advanceToCurrentBlockEnd h blocks
      some ((r, w.pos, size), h, { s with
        invalidMarkersSize_ := true
        blocks_ := blocks
        writePointer_ := w'
        scratchPointer_ := w })
    else none
  else none

def confirmScratch (h : Heap) (s : MemoryStream) (size : Nat) : Option (Heap × MemoryStream) :=
  if s.scratchPointer_.isNull then none
  else do
    let (_, w) ← s.scratchPointer_.advance h s.blocks_ size
    let h ← w.markCurrentBlockEndAtPointer h s.blocks_
    some (h, { s with
      invalidMarkersSize_ := true
      writePointer_ := w
      scratchPointer_ := DataBlockPointer.null
      size_ := s.size_ + size })

/-- `memcpy` of the caller into the space at offset `pos` of block `r`. -/
def fillScratch (h : Heap) (r : BlockRef) (pos : Nat) (bs : Bytes) : Option Heap := do
  let b ← h.get r
  h.put r (b.overwrite pos bs)

/-! ## Taking bytes out -/

def readInternal (h : Heap) (s : MemoryStream) (len : Nat) (dispose : Bool) :
    Option (Bytes × Heap × MemoryStream) :=
  if len = 0 then some ([], h, s)
  else match s.maybeInitReadPointer with
  | (false, s) => some ([], h, s)
  | (true, s) => do
      let (out, r) ← s.readPointer_.readData h s.blocks_ len
      if pointerLe r s.writePointer_ && r.blockId.any (· < s.blocks_.endId) then
        let s := { s with readPointer_ := r, size_ := s.size_ - out.length }
        let (h, s) ← if dispose then maybeDisposeBlocks h s else some (h, s)
        some (out, h, s)
      else none

def read (h : Heap) (s : MemoryStream) (len : Nat) : Option (Bytes × Heap × MemoryStream) :=
  readInternal h s len true

/-- `ReadString`; no length stands for `-1`. -/
def readString (h : Heap) (s : MemoryStream) (len : Option Nat) :
    Option (Bytes × Heap × MemoryStream) :=
  read h s (len.getD s.size_.toNat)

def skip (h : Heap) (s : MemoryStream) (len : Nat) : Option (Nat × Heap × MemoryStream) :=
  match s.maybeInitReadPointer with
  | (false, s) => some (0, h, s)
  | (true, s) => do
      let (cb, r) ← s.readPointer_.advance h s.blocks_ len
      if pointerLe r s.writePointer_ then
        let (h, s) ← maybeDisposeBlocks h { s with readPointer_ := r, size_ := s.size_ - cb }
        some (cb, h, s)
      else none

/-- `ReadNext`; a limit of zero stands for none. -/
def readNext (h : Heap) (s : MemoryStream) (limit : Nat) :
    Option (Option Bytes × Heap × MemoryStream) :=
  if s.scratchPointer_.isNull then
    match s.maybeInitReadPointer with
    | (false, s) => some (none, h, s)
    | (true, s) => do
        let (h, s) ← maybeDisposeBlocks h s
        match ← s.readPointer_.readBlock h s.blocks_ limit with
        | (some buffer, r) =>
          some (some buffer, h,
            { s with readPointer_ := r, size_ := s.size_ - buffer.length })
        | (none, r) => some (none, h, { s with readPointer_ := r })
  else none

/-- The loop of `ReadForWritev`, which reads whole blocks; every round but the last takes at least one
byte. -/
def readForWritevLoop (h : Heap) : Nat → MemoryStream → Int → Option (List Bytes × MemoryStream)
  | 0, _, _ => none
  | fuel + 1, s, maxSize =>
    if 0 < maxSize then do
      match ← s.readPointer_.readBlock h s.blocks_ 0 with
      | (none, r) => some ([], { s with readPointer_ := r })
      | (some buffer, r) =>
        let s := { s with readPointer_ := r, size_ := s.size_ - buffer.length }
        let (v, s) ← readForWritevLoop h fuel s (maxSize - buffer.length)
        some (if 0 < buffer.length then buffer :: v else v, s)
    else some ([], s)

/-- `ReadForWritev`, with its two `DCHECK_EQ`. -/
def readForWritev (h : Heap) (s : MemoryStream) (maxSize : Int) :
    Option (List Bytes × Heap × MemoryStream) :=
  if s.scratchPointer_.isNull then
    match s.maybeInitReadPointer with
    | (false, s) => some ([], h, s)
    | (true, s) => do
        let (h, s) ← maybeDisposeBlocks h s
        let before ← s.readPointer_.distance h s.blocks_ s.writePointer_
        if before = s.size_ then
          let (v, s) ← readForWritevLoop h (s.size_.toNat + 1) s maxSize
          if v.isEmpty then some ([], h, s)
          else
            let after ← s.readPointer_.distance h s.blocks_ s.writePointer_
            if after = s.size_ then some (v, h, s) else none
        else none
  else none

def peek (h : Heap) (s : MemoryStream) (len : Nat) : Option Bytes :=
  if s.getReadPointer.isNull then some []
  else (s.getReadPointer.readData h s.blocks_ len).map Prod.fst

/-- `ReadLFLine`; `'\n'` is the byte 10. -/
def readLFLine (h : Heap) (s : MemoryStream) : Option (Option Bytes × Heap × MemoryStream) :=
  match s.maybeInitReadPointer with
  | (false, s) => some (none, h, s)
  | (true, s) => do
      let (line, r) ← s.readPointer_.readUntilChar h s.blocks_ 10
      some (line, h, { s with
        readPointer_ := r
        size_ := s.size_ - (line.getD []).length })

/-- `strutil::StrTrimCRLFInPlace`: drop every CR (13) and LF (10) at the end. -/
def strTrimCRLF (s : Bytes) : Bytes := s.rdropWhile fun c => c == 10 || c == 13

def readLine (h : Heap) (s : MemoryStream) : Option (Option Bytes × Heap × MemoryStream) := do
  let (line, h, s) ← readLFLine h s
  some (line.map strTrimCRLF, h, s)

/-! ## Marks -/

def markerSet (s : MemoryStream) : MemoryStream :=
  { s with
    invalidMarkersSize_ := !s.markers_.isEmpty && s.invalidMarkersSize_
    markers_ := (s.size_, s.readPointer_) :: s.markers_ }

def markerIsSet (s : MemoryStream) : Bool := !s.markers_.isEmpty

def markerRestore (h : Heap) (s : MemoryStream) : Option MemoryStream :=
  match s.markers_ with
  | [] => none
  | (size, p) :: markers =>
    let s := { s with readPointer_ := p, markers_ := markers }
    if s.invalidMarkersSize_ then do
      let s := s.maybeInitReadPointer.2
      let size ← s.readPointer_.distance h s.blocks_ s.writePointer_
      some { s with size_ := size }
    else some { s with size_ := size }

def markerClear (h : Heap) (s : MemoryStream) : Option (Heap × MemoryStream) :=
  match s.markers_ with
  | [] => none
  | _ :: markers => maybeDisposeBlocks h { s with markers_ := markers }

def peekString (h : Heap) (s : MemoryStream) (len : Option Nat) :
    Option (Bytes × Heap × MemoryStream) := do
  let (out, h, s) ← readString h s.markerSet len
  let s ← markerRestore h s
  some (out, h, s)

/-- The loop of `Clear`. -/
def decRefs : List BlockRef → Heap → Option Heap
  | [], h => some h
  | r :: it, h => do
      let h ← h.decRef r
      decRefs it h

def clear (h : Heap) (s : MemoryStream) : Option (Heap × MemoryStream) :=
  if s.markerIsSet then none
  else do
    let h ← decRefs s.blocks_.live h
    some (h, { s with
      readPointer_ := DataBlockPointer.null
      writePointer_ := DataBlockPointer.null
      blocks_ := s.blocks_.clear
      size_ := 0 })

/-! ## Appending a part of another stream -/

/-- `AppendNewBlock`, with its `DCHECK_GE`: a copy of a part of a block. -/
def appendNewBlock (h : Heap) (s : MemoryStream) (data : BlockRef) (posBegin posEnd : Nat) :
    Option (Heap × MemoryStream) :=
  if posBegin < posEnd then do
    let b ← h.get data
    let (_, h, s) ← write h s ((b.buffer_.drop posBegin).take (posEnd - posBegin))
    some (h, s)
  else if posBegin = posEnd then some (h, s)
  else none

/-- One round of the loop below: a block that is covered as a whole is shared, a part is copied. -/
def appendPart (h : Heap) (s : MemoryStream) (block : BlockRef) (posBegin posEnd : Nat) :
    Option (Heap × MemoryStream) :=
  if posBegin < posEnd then do
    let b ← h.get block
    if posBegin = 0 ∧ posEnd = b.bufferSize then appendBlock h s block
    else appendNewBlock h s block posBegin posEnd
  else some (h, s)

/-- The loop of the private `AppendStreamNonDestructive`, from offset `pos` of the block with id `id` to
offset `endPos` of the block with id `endId`. -/
def appendParts (endId endPos : Nat) : List BlockRef → Nat → Nat → Heap → MemoryStream →
    Option (Heap × MemoryStream)
  | [], id, _, h, s => if id ≤ endId then none else some (h, s)
  | block :: it, id, pos, h, s =>
    if id ≤ endId then do
      let b ← h.get block
      let (h, s) ← appendPart h s block pos (if id = endId then endPos else b.size_)
      appendParts endId endPos it (id + 1) 0 h s
    else some (h, s)

/-- What the private `AppendStreamNonDestructive` does before it moves the write pointer. -/
def appendPartsBetween (h : Heap) (s : MemoryStream) (owner : BlockDqueue)
    (begin finish : DataBlockPointer) : Option (Heap × MemoryStream) :=
  if begin.lt finish then do
    let beginId ← begin.blockId
    let endId ← finish.blockId
    let it ← owner.bufferIt beginId
    appendParts endId finish.pos it beginId begin.pos h s
  else some (h, s)

/-- The private `AppendStreamNonDestructive`, between two pointers into the queue `owner`. -/
def appendBetween (h : Heap) (s : MemoryStream) (owner : BlockDqueue)
    (begin finish : DataBlockPointer) : Option (Heap × MemoryStream) := do
  let (h, s) ← appendPartsBetween h s owner begin finish
  let w ← s.writePointer_.skipToCurrentBlockEnd h s.blocks_
  some (h, { s with writePointer_ := w })

/-- The pointer `end` of `AppendStreamNonDestructive`; a negative size stands for everything. -/
def appendEnd (h : Heap) (buffer : MemoryStream) (begin : DataBlockPointer) (size : Int) :
    Option DataBlockPointer :=
  if 0 ≤ size then do
    let available ← buffer.size
    let (_, finish) ← begin.advance h buffer.blocks_ (min size.toNat available)
    some finish
  else buffer.size.map fun _ => buffer.writePointer_

def appendStreamNonDestructive (h : Heap) (s buffer : MemoryStream) (offset : Nat) (size : Int) :
    Option (Heap × MemoryStream) :=
  if buffer.getReadPointer.isNull then some (h, s)
  else do
    let (_, begin) ← buffer.getReadPointer.advance h buffer.blocks_ offset
    let finish ← appendEnd h buffer begin size
    if buffer.isEmpty then some (h, s)
    else appendBetween h s buffer.blocks_ begin finish

/-- `AppendStream`; the second stream of the result is the source. -/
def appendStream (h : Heap) (s buffer : MemoryStream) (size : Int) :
    Option (Heap × MemoryStream × MemoryStream) := do
  let (h, s) ← appendStreamNonDestructive h s buffer 0 size
  let available ← buffer.size
  let (_, h, buffer) ←
    skip h buffer (if 0 ≤ size ∧ size < available then size.toNat else available)
  some (h, s, buffer)

end MemoryStream

end Whispercast.Io
