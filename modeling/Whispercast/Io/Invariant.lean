import Whispercast.Io.Storage
import Whispercast.Library.MarkedQueue

/-!
# The invariant of a stream

`Views begin D s q` is the pointer side of the invariant: the read pointer of `s` sees the readable bytes of
the queue `q`, each mark sees what is readable from the mark of `q`, the write pointer is at the end of
the last block, marks come in order, and every cached size that may be used is right. `Inv` joins it
with the heap side. Putting in, taking out, marking and disposing of blocks are the steps that keep
it.
-/

namespace Whispercast.Io

open Library DataBlockPointer List MemoryStream MarkedQueue

/-- A pointer of a queue that begins with id `begin` and holds `D` has `rest` in front of it. A null
pointer stands for the beginning. -/
def Sees (begin : Nat) (D : List Bytes) (p : DataBlockPointer) (rest : Bytes) : Prop :=
  At begin D p rest ∨ (p.blockId = none ∧ p.pos = 0 ∧ rest = D.flatten)

/-- The pointers, marks and sizes of `s` present the queue `q`. -/
structure Views (begin : Nat) (D : List Bytes) (s : MemoryStream) (q : MarkedQueue UInt8) :
    Prop where
  read : Sees begin D s.readPointer_ q.readable
  write : (D = [] ∧ s.writePointer_ = DataBlockPointer.null) ∨ AtEnd begin D s.writePointer_
  scratch : s.scratchPointer_.blockId = none
  marks : List.Forall₂ (fun c m => Sees begin D c.2 (q.readableFrom m)) s.markers_ q.marks
  /-- No mark lies behind the read pointer or a newer mark. -/
  order : (s.readPointer_ :: s.markers_.map Prod.snd).Pairwise fun p m => NotAfter m p
  cached : s.invalidMarkersSize_ = false →
    List.Forall₂ (fun c m => c.1 = ((q.readableFrom m).length : Int)) s.markers_ q.marks
  size : s.size_ = (q.size : Int)

/-- The stream `s` on the heap `h` presents the queue `q`, while others hold `held`. -/
def Inv (h : Heap) (held : Nat → Nat) (s : MemoryStream) (q : MarkedQueue UInt8) : Prop :=
  ∃ D, Stores h held s.blocks_ D ∧ Views s.blocks_.beginId D s q

/-! ## What a pointer sees -/

variable {begin : Nat} {D : List Bytes} {p : DataBlockPointer} {rest : Bytes}

theorem Sees.grows {D' : List Bytes} {bs : Bytes}
    (hp : Sees begin D p rest) (hg : Grows D D' bs) : Sees begin D' p (rest ++ bs) := by
  rcases hp with ⟨k, hid, hk⟩ | ⟨hnull, hpos, rfl⟩
  · exact Or.inl ⟨k, hid, hg.2 k _ _ hk⟩
  · exact Or.inr ⟨hnull, hpos, hg.1.symm⟩

/-- A pointer behind the first block does not need it. -/
theorem Sees.tail {d : Bytes} (hp : Sees begin (d :: D) p rest) (hid : MemoryStream.idBelow begin p = true) :
    Sees (begin + 1) D p rest := by
  rcases hp with ⟨k, hblock, hk⟩ | ⟨hnull, -, -⟩
  · rw [idBelow, hblock, Option.any_some, decide_eq_true_iff] at hid
    cases k with
    | zero => omega
    | succ k => exact Or.inl ⟨k, by rw [hblock]; congr 1; omega, points_cons_succ.1 hk⟩
  · rw [idBelow, hnull] at hid
    cases hid

theorem Sees.at (hp : Sees begin D p rest) (hnull : p.isNull = false) : At begin D p rest := by
  rcases hp with hat | ⟨hid, -, -⟩
  · exact hat
  · rw [isNull, hid] at hnull
    cases hnull

/-- A null pointer of a queue that has blocks may be set to the first of them. -/
theorem Sees.init (hp : Sees begin D p rest) (hnull : p.isNull = true) (hD : D ≠ []) :
    At begin D ⟨some begin, p.pos⟩ rest := by
  rcases hp with ⟨k, hid, -⟩ | ⟨-, hpos, rfl⟩
  · rw [isNull, hid] at hnull
    cases hnull
  · rw [hpos]
    exact at_zero (points_flatten hD)

/-- With no block there is nothing to see. -/
theorem Sees.nil (hp : Sees begin [] p rest) : p = DataBlockPointer.null ∧ rest = [] := by
  rcases hp with ⟨k, -, hk⟩ | ⟨hnull, hpos, rfl⟩
  · exact absurd hk.lt_length (Nat.not_lt_zero k)
  · rcases p with ⟨_, _⟩
    exact ⟨by rw [DataBlockPointer.null, DataBlockPointer.mk.injEq]; exact ⟨hnull, hpos⟩, rfl⟩

theorem AtEnd.ne_nil {w : DataBlockPointer} (hw : AtEnd begin D w) : D ≠ [] ∧ w.isNull = false := by
  rcases hw with ⟨-, -, rfl, rfl⟩
  exact ⟨by simp, rfl⟩

/-! ## Steps that keep the view -/

section Views

variable {begin : Nat} {D D' : List Bytes} {s : MemoryStream} {q : MarkedQueue UInt8}

theorem views_new (blockSize : ℕ+) : Views 0 [] (MemoryStream.new blockSize) MarkedQueue.empty where
  read := Or.inr ⟨rfl, rfl, rfl⟩
  write := Or.inl ⟨rfl, rfl⟩
  scratch := rfl
  marks := Forall₂.nil
  order := pairwise_singleton _ _
  cached := fun _ => Forall₂.nil
  size := rfl

section

variable (hv : Views begin D s q)

include hv

/-- The blocks of the queue are no part of the view, apart from the id of the first. -/
theorem Views.blocks (blocks : BlockDqueue) : Views begin D { s with blocks_ := blocks } q :=
  ⟨hv.read, hv.write, hv.scratch, hv.marks, hv.order, hv.cached, hv.size⟩

/-- Putting `bs` in at the end. -/
theorem Views.push {bs : Bytes} (hg : Grows D D' bs) {w : DataBlockPointer} (hw : AtEnd begin D' w) :
    Views begin D' { s with
      invalidMarkersSize_ := true
      writePointer_ := w
      size_ := s.size_ + bs.length } (q.push bs) where
  read := by
    rw [push_readable]
    exact hv.read.grows hg
  write := Or.inr hw
  scratch := hv.scratch
  marks := by
    rw [push_marks]
    apply forall₂_iff_get.2
    rcases forall₂_iff_get.1 hv.marks with ⟨hlen, hget⟩
    refine ⟨hlen, ?_⟩
    intro i h₁ h₂
    rw [push_readableFrom q bs (get_mem _ _)]
    exact (hget i h₁ h₂).grows hg
  order := hv.order
  cached := by
    intro hinv
    cases hinv
  size := by
    have hlen := length_readable (q.push bs)
    rw [push_readable, length_append, length_readable] at hlen
    show s.size_ + _ = _
    rw [hv.size]
    omega

/-- Moving the read pointer over the next `n` bytes. -/
theorem Views.move {n : Nat} {r : DataBlockPointer}
    (hr : At begin D r (q.readable.drop n)) (hle : NotAfter s.readPointer_ r) {size : Int}
    (hsize : size = s.size_ - ((min n q.size : Nat) : Int)) :
    Views begin D { s with readPointer_ := r, size_ := size } (q.pop n) where
  read := Or.inl (by rwa [pop_readable])
  write := hv.write
  scratch := hv.scratch
  marks := hv.marks
  order := by
    have horder := hv.order
    rw [pairwise_cons] at horder ⊢
    exact ⟨fun m hm => (horder.1 m hm).trans hle, horder.2⟩
  cached := hv.cached
  size := by
    have hlen := length_readable (q.pop n)
    rw [pop_readable, length_drop, length_readable] at hlen
    show size = _
    rw [hsize, hv.size]
    omega

/-- Setting the read pointer when there is a block to point into. -/
theorem Views.init (hread : s.readPointer_.isNull = true) (hwrite : s.writePointer_.isNull = false) :
    Views begin D { s with readPointer_ := ⟨some begin, s.readPointer_.pos⟩ } q where
  read := by
    have hD : D ≠ [] := by
      rintro rfl
      rcases hv.write with ⟨-, hnull⟩ | hend
      · rw [hnull] at hwrite
        cases hwrite
      · exact hend.ne_nil.1 rfl
    exact Or.inl (hv.read.init hread hD)
  write := hv.write
  scratch := hv.scratch
  marks := hv.marks
  order := by
    have horder := hv.order
    rw [pairwise_cons] at horder ⊢
    refine ⟨fun m hm => (horder.1 m hm).trans (notAfter_of_null ?_), horder.2⟩
    rwa [isNull, Option.isNone_iff_eq_none] at hread
  cached := hv.cached
  size := hv.size

theorem Views.markSet : Views begin D s.markerSet q.markSet where
  read := hv.read
  write := hv.write
  scratch := hv.scratch
  marks := Forall₂.cons hv.read hv.marks
  order := by
    have horder := hv.order
    rw [pairwise_cons] at horder
    apply pairwise_cons.2 ⟨?_, hv.order⟩
    intro m hm
    rcases mem_cons.1 hm with rfl | hm
    · exact NotAfter.refl _
    · exact horder.1 m hm
  cached := by
    intro hinv
    change (!s.markers_.isEmpty && s.invalidMarkersSize_) = false at hinv
    apply Forall₂.cons
    · show s.size_ = (q.readable.length : Int)
      rw [hv.size, length_readable]
    · cases hm : s.markers_ with
      | nil =>
        have hmarks := hv.marks
        rw [hm, forall₂_nil_left_iff] at hmarks
        rw [hmarks]
        exact Forall₂.nil
      | cons c cs =>
        rw [hm, isEmpty_cons, Bool.not_false, Bool.true_and] at hinv
        rw [← hm]
        exact hv.cached hinv
  size := hv.size

/-- Going back to the newest mark, once the size is known. -/
theorem Views.markRestore {c : Int × DataBlockPointer}
    {cs : List (Int × DataBlockPointer)} (hm : s.markers_ = c :: cs) {size : Int}
    (hsize : size = (q.markRestore.size : Int)) :
    Views begin D { s with readPointer_ := c.2, markers_ := cs, size_ := size } q.markRestore := by
  have hmarks := hv.marks
  have hcached := hv.cached
  have horder := hv.order
  rw [hm] at hmarks hcached horder
  rcases forall₂_cons_left_iff.1 hmarks with ⟨m, _, hsees, htail, hq⟩
  refine ⟨?_, hv.write, hv.scratch, ?_, (pairwise_cons.1 horder).2, ?_, hsize⟩
  · rw [markRestore_readable q hq]
    exact hsees
  · rw [markRestore_marks, hq]
    exact htail
  · intro hinv
    have hall := hcached hinv
    rw [hq, forall₂_cons] at hall
    rw [markRestore_marks, hq]
    exact hall.2

theorem Views.markClear {c : Int × DataBlockPointer} {cs : List (Int × DataBlockPointer)} (hm : s.markers_ = c :: cs) :
    Views begin D { s with markers_ := cs } q.markClear := by
  have hmarks := hv.marks
  have hcached := hv.cached
  have horder := hv.order
  rw [hm] at hmarks hcached horder
  rcases forall₂_cons_left_iff.1 hmarks with ⟨m, _, -, htail, hq⟩
  refine ⟨hv.read, hv.write, hv.scratch, ?_, ?_, ?_, hv.size⟩
  · rw [markClear_marks, hq]
    exact htail
  · rw [map_cons, pairwise_cons, pairwise_cons] at horder
    exact pairwise_cons.2 ⟨fun p hp => horder.1 p (mem_cons_of_mem _ hp), horder.2.2⟩
  · intro hinv
    have hall := hcached hinv
    rw [hq, forall₂_cons] at hall
    rw [markClear_marks, hq]
    exact hall.2

end

/-! ## Disposing of the first block -/

theorem idBelow_of_notAfter {p m : DataBlockPointer} (hp : MemoryStream.idBelow begin p = true)
    (hle : NotAfter p m) : MemoryStream.idBelow begin m = true := by
  cases hid : p.blockId with
  | none =>
    rw [idBelow, hid] at hp
    cases hp
  | some i =>
    rcases hle i hid with ⟨j, hj, _⟩
    rw [idBelow, hid, Option.any_some, decide_eq_true_iff] at hp
    rw [idBelow, hj, Option.any_some, decide_eq_true_iff]
    omega

/-- When the oldest mark lies behind the first block, all marks do. -/
theorem Views.marks_below (hv : Views begin D s q)
    (hlast : (s.markers_.getLast?.all fun m => MemoryStream.idBelow begin m.2) = true) :
    ∀ c ∈ s.markers_, MemoryStream.idBelow begin c.2 = true := by
  rcases eq_nil_or_concat s.markers_ with hnil | ⟨_, c, hcs⟩
  · rw [hnil]
    intro c hc
    cases hc
  · have horder := hv.order
    rw [concat_eq_append] at hcs
    rw [hcs, getLast?_concat, Option.all_some] at hlast
    rw [hcs, map_append, pairwise_cons, pairwise_append] at horder
    rw [hcs]
    intro c' hc'
    rcases mem_append.1 hc' with hin | hin
    · apply idBelow_of_notAfter hlast
      exact horder.2.2.2 _ (mem_map_of_mem hin) _ (by simp)
    · rw [mem_singleton.1 hin]
      exact hlast

/-- The first block may go when the read pointer and the oldest mark lie behind it. -/
theorem Views.tail {d : Bytes} (hv : Views begin (d :: D) s q)
    (hread : MemoryStream.idBelow begin s.readPointer_ = true)
    (hlast : (s.markers_.getLast?.all fun m => MemoryStream.idBelow begin m.2) = true) :
    Views (begin + 1) D s q where
  read := hv.read.tail hread
  write := by
    have hread' := hv.read.tail hread
    rcases hv.write with ⟨hD, -⟩ | ⟨front, last, hD, hw⟩
    · cases hD
    · cases front with
      | nil =>
        -- the read pointer would lie behind the last block
        rw [nil_append, List.cons.injEq] at hD
        rw [hD.2] at hread'
        rcases hread'.nil with ⟨hnull, -⟩
        rw [hnull] at hread
        cases hread
      | cons e front =>
        rw [cons_append, List.cons.injEq] at hD
        rw [length_cons] at hw
        refine Or.inr ⟨front, last, hD.2, ?_⟩
        rw [hw, Nat.add_assoc, Nat.add_comm 1]
  scratch := hv.scratch
  marks := by
    have hbelow := hv.marks_below hlast
    rcases forall₂_iff_get.1 hv.marks with ⟨hlen, hget⟩
    apply forall₂_iff_get.2 ⟨hlen, ?_⟩
    intro i h₁ h₂
    exact (hget i h₁ h₂).tail (hbelow _ (get_mem _ _))
  order := hv.order
  cached := hv.cached
  size := hv.size

end Views

/-- `MaybeDisposeBlocks` drops no block that the read pointer or a mark still needs. -/
theorem disposeLoop_yields {fuel : Nat} {h : Heap} {held : Nat → Nat} {s : MemoryStream}
    {q : MarkedQueue UInt8} (hs : Stores h held s.blocks_ D)
    (hv : Views s.blocks_.beginId D s q) (hfuel : D.length ≤ fuel) :
    Yields (MemoryStream.disposeLoop fuel h s) fun (h', s') =>
      Inv h' held s' q ∧ Frame held h h' ∧ s'.readPointer_ = s.readPointer_ := by
  have hlen : s.blocks_.live.length = D.length := hs.stored.length_eq
  induction fuel generalizing h s D with
  | zero =>
    have hstop : s.mayDispose = false := by
      have hend := s.blocks_.endId_eq
      have hge : ¬ s.blocks_.beginId < s.blocks_.endId := by omega
      rw [mayDispose, decide_eq_false hge, Bool.and_false, Bool.false_and]
    rw [disposeLoop, hstop, if_neg Bool.false_ne_true]
    exact Yields.some ⟨⟨D, hs, hv⟩, Frame.refl held h, rfl⟩
  | succ fuel ih =>
    rw [disposeLoop]
    cases hmay : s.mayDispose with
    | false =>
      rw [if_neg Bool.false_ne_true]
      exact Yields.some ⟨⟨D, hs, hv⟩, Frame.refl held h, rfl⟩
    | true =>
      rw [if_pos rfl]
      rw [mayDispose, Bool.and_eq_true, Bool.and_eq_true, decide_eq_true_iff,
        s.blocks_.endId_eq] at hmay
      rcases hmay with ⟨⟨hread, _⟩, hlast⟩
      cases D with
      | nil =>
        rw [length_nil] at hlen
        omega
      | cons d D =>
        apply hs.popFront.bind
        rintro ⟨r, blocks⟩ ⟨hbegin, hdec⟩
        apply hdec.bind
        rintro _ ⟨hs₁, hframe₁⟩
        have hv₁ := (hv.tail hread hlast).blocks blocks
        rw [← hbegin] at hv₁
        apply (ih hs₁ hv₁ (by simpa using hfuel) hs₁.stored.length_eq).mono
        rintro ⟨_, _⟩ ⟨hinv, hframe₂, hptr⟩
        exact ⟨hinv, hframe₁.trans hframe₂, hptr⟩

theorem Stores.congr_live {h : Heap} {held : Nat → Nat} {blocks blocks' : BlockDqueue} (hs : Stores h held blocks D) (hlive : blocks'.live = blocks.live) :
    Stores h held blocks' D := by
  have hrefs : refs blocks' held = refs blocks held := by
    funext r
    simp only [refs, hlive]
  exact ⟨by rw [hrefs]; exact hs.heapOk, by rw [hlive]; exact hs.stored⟩

section Inv

variable {h : Heap} {held : Nat → Nat} {s : MemoryStream} {q : MarkedQueue UInt8}

theorem maybeDisposeBlocks_yields (hi : Inv h held s q) : Yields (MemoryStream.maybeDisposeBlocks h s) fun (h', s') =>
      Inv h' held s' q ∧ Frame held h h' ∧ s'.readPointer_ = s.readPointer_ := by
  rcases hi with ⟨D, hs, hv⟩
  have hfuel : D.length ≤ s.blocks_.size := by
    rw [s.blocks_.size_eq, hs.stored.length_eq]
  apply (disposeLoop_yields hs hv hfuel).bind
  rintro ⟨h', s'⟩ ⟨⟨D', hs', hv'⟩, hframe, hptr⟩
  refine Yields.some ⟨⟨D', hs'.congr_live (BlockDqueue.correctBuffer_live _), ?_⟩, hframe, hptr⟩
  rw [BlockDqueue.correctBuffer_beginId]
  exact hv'.blocks _

/-- `MaybeInitReadPointer` fails only on a stream nothing was ever put into. -/
theorem Inv.maybeInit (hi : Inv h held s q) :
    (s.maybeInitReadPointer = (false, s) ∧ q.readable = [] ∧
      s.readPointer_ = DataBlockPointer.null ∧ s.writePointer_ = DataBlockPointer.null) ∨
    ∃ s', s.maybeInitReadPointer = (true, s') ∧ s'.readPointer_.isNull = false ∧
      Inv h held s' q := by
  rw [maybeInitReadPointer]
  cases hread : s.readPointer_.isNull with
  | false =>
    rw [if_neg Bool.false_ne_true]
    exact Or.inr ⟨s, rfl, hread, hi⟩
  | true =>
    rw [if_pos rfl]
    rcases hi with ⟨D, hs, hv⟩
    cases hwrite : s.writePointer_.isNull with
    | true =>
      rw [if_pos rfl]
      rcases hv.write with ⟨rfl, hnull⟩ | hend
      · exact Or.inl ⟨rfl, hv.read.nil.2, hv.read.nil.1, hnull⟩
      · rw [hend.ne_nil.2] at hwrite
        cases hwrite
    | false =>
      rw [if_neg Bool.false_ne_true]
      exact Or.inr ⟨_, rfl, rfl, D, hs, hv.init hread hwrite⟩

/-- The blocks behind a read pointer that is set. -/
theorem Inv.pointers (hi : Inv h held s q) (hread : s.readPointer_.isNull = false) :
    ∃ D, Stores h held s.blocks_ D ∧ Views s.blocks_.beginId D s q ∧
      At s.blocks_.beginId D s.readPointer_ q.readable ∧
      AtEnd s.blocks_.beginId D s.writePointer_ := by
  rcases hi with ⟨D, hs, hv⟩
  have hat := hv.read.at hread
  refine ⟨D, hs, hv, hat, ?_⟩
  rcases hv.write with ⟨rfl, -⟩ | hend
  · rcases hat with ⟨k, -, hk⟩
    exact absurd hk.lt_length (Nat.not_lt_zero k)
  · exact hend

end Inv

end Whispercast.Io
