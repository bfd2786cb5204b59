import Whispercast.Io.Invariant

/-!
# What the stream operations do

One lemma for each public operation of a `MemoryStream`: it has a result, so no check of the source fails
and no freed block is read; the result is the one the queue gives; the stream presents the changed
queue; and no block that others refer to has changed.
-/

namespace Whispercast.Io

open Library DataBlock DataBlockPointer List Option Frame MemoryStream

variable {h : Heap} {held : Nat → Nat} {s : MemoryStream} {q : MarkedQueue UInt8}

/-! ## Putting in -/

/-- A block to write into: a new one on a stream that has none. -/
theorem writeStart_yields {D : List Bytes} (hs : Stores h held s.blocks_ D) (hv : Views s.blocks_.beginId D s q)
    (buffer : Bytes) : Yields (s.writeStart h buffer.length) fun (h₁, blocks₁, w₁) =>
      blocks₁.beginId = s.blocks_.beginId ∧ Frame held h h₁ ∧
      ∃ D₁, Stores h₁ held blocks₁ D₁ ∧ AtEnd blocks₁.beginId D₁ w₁ ∧ Grows D D₁ [] := by
  rw [writeStart]
  rcases hv.write with ⟨rfl, hnull⟩ | hend
  · rw [if_pos (by rw [hnull]; rfl)]
    apply (pushNewBlock_yields hs (n := max buffer.length s.blockSize_)
      (by have := s.blockSize_.pos; omega)).bind
    rintro ⟨h₁, blocks₁⟩ ⟨hbegin, hs₁, hframe, -⟩
    exact Yields.some ⟨hbegin, hframe, _, hs₁, ⟨[], [], rfl, rfl⟩, grows_append [] []⟩
  · rw [hend.ne_nil.2, if_neg Bool.false_ne_true]
    exact Yields.some ⟨rfl, refl held h, D, hs, hend, Grows.refl D⟩

theorem write_yields (hi : Inv h held s q) (buffer : Bytes) : Yields (s.write h buffer) fun (cb, h', s') =>
      cb = buffer.length ∧ Inv h' held s' (q.push buffer) ∧ Frame held h h' := by
  rcases hi with ⟨D, hs, hv⟩
  apply (writeStart_yields hs hv buffer).bind
  rintro ⟨h₁, blocks₁, w₁⟩ ⟨hbegin₁, hframe₁, D₁, hs₁, hend₁, hgrow₁⟩
  apply (writeLoop_yields hs₁ hend₁ s.blockSize_ buffer).bind
  rintro ⟨_, blocks₂, _, cb⟩ ⟨rfl, hbegin₂, hframe₂, D₂, hs₂, hend₂, hgrow₂⟩
  refine Yields.some ⟨rfl, ⟨D₂, hs₂, ?_⟩, hframe₁.trans hframe₂⟩
  have hgrow := hgrow₁.trans hgrow₂
  rw [hbegin₁] at hend₂
  rw [hbegin₂, hbegin₁]
  exact (hv.push hgrow hend₂).blocks blocks₂

variable {D : List Bytes}

/-- Appending a block that is full, or that nobody refers to yet. -/
theorem appendBlock_stored (hs : Stores h held s.blocks_ D) (hv : Views s.blocks_.beginId D s q)
    {r : BlockRef} {b : DataBlock} (hg : h.get r = some b) (hroom : b.size_ ≤ b.bufferSize)
    (hfull : b.size_ = b.bufferSize ∨ refs s.blocks_ held r = 0) :
    Yields (s.appendBlock h r) fun (h', s') =>
      Inv h' held s' (q.push b.data) ∧ ∀ r', h'.get r' = h.get r' := by
  have hlen : b.data.length = b.size_ := length_data hroom
  simp only [appendBlock, hg, bind_eq_bind, bind_some]
  apply (hs.push hg hfull).bind
  rintro h' ⟨hsame, hs'⟩
  refine Yields.some ⟨⟨D ++ [b.data], hs', ?_⟩, hsame⟩
  have hend : AtEnd s.blocks_.beginId (D ++ [b.data])
      ⟨some ((s.blocks_.pushBack r).endId - 1), b.size_⟩ := by
    refine ⟨D, b.data, rfl, ?_⟩
    rw [BlockDqueue.endId_eq, BlockDqueue.pushBack_live, length_append, length_singleton,
      hs.stored.length_eq, hlen]
    rfl
  have hv' := (hv.push (grows_append D b.data) hend).blocks (s.blocks_.pushBack r)
  rw [hlen] at hv'
  exact hv'

/-- Appending a block that is full. -/
theorem appendBlock_yields (hi : Inv h held s q) {r : BlockRef} {b : DataBlock}
    (hg : h.get r = some b) (hfull : b.size_ = b.bufferSize) :
    Yields (s.appendBlock h r) fun (h', s') =>
      Inv h' held s' (q.push b.data) ∧ ∀ r', h'.get r' = h.get r' := by
  rcases hi with ⟨D, hs, hv⟩
  exact appendBlock_stored hs hv hg (Nat.le_of_eq hfull) (Or.inl hfull)

/-- `GetScratchSpace`, the caller's `memcpy`, and `ConfirmScratch`. -/
def MemoryStream.scratch (h : Heap) (s : MemoryStream)
    (fill : (size : Nat) → { bs : Bytes // bs.length ≤ size }) :
    Option (Nat × Heap × MemoryStream) := do
  let ((r, pos, size), h, s) ← getScratchSpace h s
  let h ← fillScratch h r pos (fill size)
  let (h, s) ← confirmScratch h s (fill size).val.length
  some (size, h, s)

theorem At.pointerLe {begin : Nat} {p w : DataBlockPointer} {rest : Bytes}
    (hp : At begin D p rest) (hw : AtEnd begin D w) : MemoryStream.pointerLe p w = true := by
  rcases hp.le_atEnd hw with ⟨k, j, hid, hwid, -, hpos⟩
  rcases p with ⟨_, _⟩
  rcases w with ⟨_, _⟩
  simp only at hid hwid hpos
  subst hid
  subst hwid
  rw [MemoryStream.pointerLe, DataBlockPointer.lt, Bool.or_eq_true]
  by_cases hj : j = 0
  · subst hj
    simp only [Nat.add_zero, if_true, decide_eq_true_iff, beq_iff_eq, DataBlockPointer.mk.injEq,
      true_and]
    omega
  · left
    simp only
    rw [if_neg (by omega), decide_eq_true_iff]
    omega

theorem skip_yields (hi : Inv h held s q) (len : Nat) : Yields (s.skip h len) fun (cb, h', s') =>
      cb = min len q.size ∧ Inv h' held s' (q.pop len) ∧ Frame held h h' := by
  rw [skip]
  rcases hi.maybeInit with ⟨hinit, hnil, -⟩ | ⟨s₁, hinit, hread, hi₁⟩
  · rw [hinit, MarkedQueue.pop_of_readable_nil hnil, ← MarkedQueue.length_readable, hnil]
    exact Yields.some ⟨by simp, hi, refl held h⟩
  rw [hinit]
  rcases hi₁.pointers hread with ⟨D, hs, hv, hat, hend⟩
  apply (advance_yields hs.stored hat len).bind
  rintro ⟨cb, r⟩ ⟨rfl, hr, hle⟩
  rw [MarkedQueue.length_readable]
  simp only [hr.pointerLe hend, if_true]
  have hinv : Inv h held { s₁ with readPointer_ := r, size_ := s₁.size_ - (min len q.size : Nat) }
      (q.pop len) := ⟨D, hs, hv.move hr hle rfl⟩
  apply (maybeDisposeBlocks_yields hinv).bind
  rintro ⟨h', s'⟩ ⟨hinv', hframe, -⟩
  exact Yields.some ⟨rfl, hinv', hframe⟩

/-- The next piece of the queue, at most `limit` bytes when there is a limit. -/
def NextSpec (readable : Bytes) (limit : Nat) : Option Bytes → Prop
  | none => readable = []
  | some buffer => buffer ≠ [] ∧ (0 < limit → buffer.length ≤ limit) ∧
      buffer = readable.take buffer.length

/-- The pieces `ReadForWritev` returns: whole blocks, until `maxSize` bytes are reached or nothing is
left; no block is taken once they are reached. -/
structure WritevSpec (readable : Bytes) (maxSize : Int) (v : List Bytes) : Prop where
  pieces : ∀ buffer ∈ v, buffer ≠ []
  takes : v.flatten = readable.take v.flatten.length
  enough : maxSize ≤ (v.flatten.length : Int) ∨ v.flatten = readable
  notMore : v ≠ [] → (v.dropLast.flatten.length : Int) < maxSize

theorem WritevSpec.nil {readable : Bytes} {maxSize : Int} (hstop : maxSize ≤ 0 ∨ readable = []) :
    WritevSpec readable maxSize [] where
  pieces := by
    intro buffer hin
    cases hin
  takes := by simp
  enough := by
    rcases hstop with hmax | hnil
    · exact Or.inl (by simpa using hmax)
    · exact Or.inr hnil.symm
  notMore := by
    intro hne
    exact absurd rfl hne

theorem WritevSpec.cons {readable buffer : Bytes} {maxSize : Int} {v : List Bytes}
    (hmax : 0 < maxSize) (hne : buffer ≠ []) (htake : buffer = readable.take buffer.length)
    (hv : WritevSpec (readable.drop buffer.length) (maxSize - (buffer.length : Int)) v) :
    WritevSpec readable maxSize (buffer :: v) where
  pieces := by
    intro b hin
    rcases mem_cons.1 hin with rfl | hin
    · exact hne
    · exact hv.pieces b hin
  takes := by
    rw [flatten_cons, length_append, take_add, ← htake, ← hv.takes]
  enough := by
    rw [flatten_cons, length_append]
    rcases hv.enough with _ | hall
    · left
      omega
    · right
      rw [hall]
      conv_lhs => rw [htake]
      rw [length_take, Nat.min_eq_left, take_append_drop]
      rw [htake, length_take]
      exact Nat.min_le_right _ _
  notMore := by
    intro _
    by_cases hnil : v = []
    · subst hnil
      simpa using hmax
    · have hlt := hv.notMore hnil
      rw [dropLast_cons_of_ne_nil hnil, flatten_cons, length_append]
      omega

/-- `Peek` returns what the read pointer sees. -/
theorem peek_of_sees {rest : Bytes} (hs : Stores h held s.blocks_ D)
    (hw : (D = [] ∧ s.writePointer_ = DataBlockPointer.null) ∨
      AtEnd s.blocks_.beginId D s.writePointer_)
    (hr : Sees s.blocks_.beginId D s.readPointer_ rest) (len : Nat) :
    s.peek h len = some (rest.take len) := by
  rw [peek, getReadPointer]
  cases hread : s.readPointer_.isNull with
  | false =>
    rw [Bool.false_and, if_neg Bool.false_ne_true, hread, if_neg Bool.false_ne_true]
    rcases readData_yields hs.stored (hr.at hread) len with ⟨⟨out, r⟩, hdata, hout, -⟩
    rw [hdata, map_some, hout]
  | true =>
    rcases hw with ⟨rfl, hnull⟩ | hend
    · rw [hnull, hr.nil.1, hr.nil.2, List.take_nil]
      rfl
    · rcases readData_yields hs.stored (hr.init hread hend.ne_nil.1) len with
        ⟨⟨out, r⟩, hdata, hout, -⟩
      rw [hend.ne_nil.2, Bool.not_false, Bool.and_true, if_pos rfl]
      show Option.map Prod.fst (DataBlockPointer.readData h s.blocks_ _ len) = _
      rw [hdata, map_some, hout]

/-- The bytes in front of the head, without moving it. -/
theorem peek_eq (hi : Inv h held s q) (len : Nat) : s.peek h len = some (q.readable.take len) := by
  rcases hi with ⟨D, hs, hv⟩
  exact peek_of_sees hs hv.write hv.read len

/-- The line in front of the head: everything up to the first LF, if there is one. -/
def lineOf (readable : Bytes) : Option Bytes :=
  (readable.findIdx? (· == 10)).map fun k => readable.take (k + 1)

theorem readLFLine_yields (hi : Inv h held s q) : Yields (s.readLFLine h) fun (line, h', s') =>
      line = lineOf q.readable ∧ Inv h' held s' (q.pop ((lineOf q.readable).getD []).length) ∧ Frame held h h' := by
  rw [readLFLine]
  rcases hi.maybeInit with ⟨hinit, hnil, -⟩ | ⟨s₁, hinit, hread, hi₁⟩
  · rw [hinit, hnil]
    refine Yields.some ⟨rfl, ?_, refl held h⟩
    show Inv h held s (q.pop 0)
    rwa [MarkedQueue.pop_zero]
  rw [hinit]
  rcases hi₁.pointers hread with ⟨D, hs, hv, hat, -⟩
  apply (readUntilChar_yields hs.stored hat 10).bind
  rintro ⟨line, r⟩ ⟨rfl, hr, hle⟩
  refine Yields.some ⟨rfl, ⟨D, hs, ?_⟩, refl held h⟩
  apply hv.move hr hle
  have hshort : ((lineOf q.readable).getD []).length ≤ q.size := by
    rw [← MarkedQueue.length_readable, lineOf]
    cases q.readable.findIdx? (· == 10) with
    | none => exact Nat.zero_le _
    | some k =>
      rw [map_some, getD_some, length_take]
      exact Nat.min_le_right _ _
  show _ = s₁.size_ - ((min ((lineOf q.readable).getD []).length q.size : Nat) : Int)
  rw [Nat.min_eq_left hshort]
  rfl

theorem readLine_yields (hi : Inv h held s q) : Yields (s.readLine h) fun (line, h', s') =>
      line = (lineOf q.readable).map MemoryStream.strTrimCRLF ∧
        Inv h' held s' (q.pop ((lineOf q.readable).getD []).length) ∧ Frame held h h' := by
  rw [readLine]
  apply (readLFLine_yields hi).bind
  rintro ⟨line, h', s'⟩ ⟨rfl, hi', hframe⟩
  exact Yields.some ⟨rfl, hi', hframe⟩

/-! ## Marks -/

theorem clear_yields (hi : Inv h held s q) (hmark : q.marks = []) :
    Yields (s.clear h) fun (h', s') => Inv h' held s' MarkedQueue.empty ∧ Frame held h h' := by
  rcases hi with ⟨D, hs, hv⟩
  have hmarks := hv.marks
  rw [hmark, forall₂_nil_right_iff] at hmarks
  rw [clear, markerIsSet, hmarks, isEmpty_nil, Bool.not_true,
    if_neg Bool.false_ne_true]
  apply (decRefs_yields hs.heapOk).bind
  rintro h' ⟨hok, hframe⟩
  have hrefs : refs s.blocks_.clear held = held := by
    funext r
    simp only [refs, BlockDqueue.clear_live, count_nil, Nat.zero_add]
  refine Yields.some ⟨⟨[], ⟨by rw [hrefs]; exact hok, Forall₂.nil⟩, ?_⟩, hframe⟩
  exact ⟨Or.inr ⟨rfl, rfl, rfl⟩, Or.inl ⟨rfl, rfl⟩, hv.scratch, Forall₂.nil,
    pairwise_singleton _ _, fun _ => Forall₂.nil, rfl⟩

/-- A new stream presents the queue with nothing in it. -/
theorem new_inv (blockSize : ℕ+) (hok : HeapOk h held) :
    Inv h held (MemoryStream.new blockSize) MarkedQueue.empty := by
  have hrefs : refs (new blockSize).blocks_ held = held := by
    funext r
    show count r BlockDqueue.new.live + held r = held r
    rw [BlockDqueue.new_live, count_nil, Nat.zero_add]
  exact ⟨[], ⟨by rw [hrefs]; exact hok, Forall₂.nil⟩, views_new blockSize⟩

end Whispercast.Io
