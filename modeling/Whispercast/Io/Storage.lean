import Whispercast.Io.MemoryStream
import Whispercast.Io.Pointer

/-!
# Blocks owned by a queue on a shared heap

`Stores h held blocks D` is the heap side of the invariant of a stream: the reference counts add up, where
`held` counts the references held outside this queue; a block with room left is writable and has at most
one reference; the queue holds the data `D`. Each operation on blocks keeps it and touches no block
that somebody else refers to (`Frame`).
-/

namespace Whispercast.Io

open Library BlockDqueue DataBlock DataBlockPointer Function List Option

/-- References to each block, given the references `held` from outside the queue. -/
def refs (blocks : BlockDqueue) (held : Nat → Nat) (r : Nat) : Nat := blocks.live.count r + held r

/-- Reference counts add up to `n`, no block overflows, and a block with room left is writable and
not shared. -/
structure HeapOk (h : Heap) (n : Nat → Nat) : Prop where
  accounts : h.Accounts n
  room : ∀ r b, h.get r = some b → b.size_ ≤ b.bufferSize
  exclusive : ∀ r b, h.get r = some b → b.size_ < b.bufferSize → n r ≤ 1 ∧ b.isMutable = true

/-- The queue holds the data `D` on a heap where others hold `held`. -/
structure Stores (h : Heap) (held : Nat → Nat) (blocks : BlockDqueue) (D : List Bytes) : Prop where
  heapOk : HeapOk h (refs blocks held)
  stored : Stored h blocks.live D

/-- Blocks referred to from outside the queue are unchanged. -/
def Frame (held : Nat → Nat) (h h' : Heap) : Prop := ∀ r, 0 < held r → h'.get r = h.get r

theorem Frame.refl (held : Nat → Nat) (h : Heap) : Frame held h h := fun _ _ => rfl

variable {held : Nat → Nat} {h : Heap}

theorem Frame.trans {h' h'' : Heap} (h₁ : Frame held h h') (h₂ : Frame held h' h'') : Frame held h h'' :=
  fun r hr => (h₂ r hr).trans (h₁ r hr)

/-! ## The data of a block -/

variable {b : DataBlock}

theorem DataBlock.length_data (hb : b.size_ ≤ b.bufferSize) : b.data.length = b.size_ := by
  simp only [data, length_take]
  exact Nat.min_eq_left hb

variable {r : BlockRef}

theorem holds_data (hg : h.get r = some b) (hb : b.size_ ≤ b.bufferSize) : Holds h r b.data :=
  ⟨b, hg, (length_data hb).symm, rfl⟩

variable {it : List BlockRef} {D : List Bytes}

theorem Stored.congr {h' : Heap} (hs : Stored h it D) (heq : ∀ r ∈ it, h'.get r = h.get r) : Stored h' it D := by
  induction hs with
  | nil => exact Forall₂.nil
  | @cons r d it D hr hs ih =>
    rcases hr with ⟨b, hb, hsize, hdata⟩
    apply Forall₂.cons
    · exact ⟨b, by rw [heq r (by simp)]; exact hb, hsize, hdata⟩
    · exact ih fun r' hr' => heq r' (by simp [hr'])

theorem Stored.append (hs : Stored h it D) {d : Bytes} (hr : Holds h r d) : Stored h (it ++ [r]) (D ++ [d]) :=
  rel_append hs (Forall₂.cons hr Forall₂.nil)

/-! ## Taking a reference -/

theorem refs_pushBack (blocks : BlockDqueue) (held : Nat → Nat) (r : BlockRef) :
    refs (blocks.pushBack r) held = Function.update (refs blocks held) r (refs blocks held r + 1) := by
  funext r'
  by_cases hr : r' = r
  · subst hr
    simp only [refs, pushBack_live, count_append, count_singleton_self,
      update_self]
    omega
  · simp only [refs, pushBack_live, count_append, update_of_ne hr]
    rw [count_singleton, if_neg (by simpa using fun heq => hr heq.symm), Nat.add_zero]

variable {blocks : BlockDqueue}

/-- Pushing a block that is full, or that nobody refers to yet. -/
theorem Stores.push (hs : Stores h held blocks D) (hg : h.get r = some b)
    (hfull : b.size_ = b.bufferSize ∨ refs blocks held r = 0) :
    Yields (h.incRef r) fun h' => (∀ r', h'.get r' = h.get r') ∧
      Stores h' held (blocks.pushBack r) (D ++ [b.data]) := by
  rcases RcHeap.incRef_eq hs.heapOk.accounts hg with ⟨h', hinc, hacc, hsame⟩
  refine Yields.intro hinc ⟨hsame, ⟨?_, ?_, ?_⟩, ?_⟩
  · rw [refs_pushBack]
    exact hacc
  · intro r' b' hb'
    rw [hsame] at hb'
    exact hs.heapOk.room r' b' hb'
  · intro r' b' hb' hroom
    rw [hsame] at hb'
    have hex := hs.heapOk.exclusive r' b' hb' hroom
    rw [refs_pushBack]
    by_cases hr : r' = r
    · subst hr
      obtain rfl : b' = b := Option.some.inj (hb'.symm.trans hg)
      rw [update_self]
      exact ⟨by omega, hex.2⟩
    · rw [update_of_ne hr]
      exact hex
  · rw [pushBack_live]
    apply Stored.append (hs.stored.congr fun r' _ => hsame r')
    apply holds_data ((hsame r).trans hg)
    exact hs.heapOk.room r b hg

/-- A fresh block changes nothing that anybody refers to. -/
theorem Stores.alloc (hs : Stores h held blocks D) (hroom : b.size_ ≤ b.bufferSize)
    (hmut : b.size_ < b.bufferSize → b.isMutable = true) :
    Stores (h.alloc b).2 held blocks D ∧ (h.alloc b).2.get (h.alloc b).1 = some b ∧
      refs blocks held (h.alloc b).1 = 0 ∧
      ∀ r, 0 < refs blocks held r → (h.alloc b).2.get r = h.get r := by
  have hfresh : refs blocks held h.next = 0 := hs.heapOk.accounts.next_eq_zero
  have hself := RcHeap.alloc_get_self h b
  have hsame : ∀ r, r ≠ h.next → (h.alloc b).2.get r = h.get r :=
    fun r hr => RcHeap.alloc_get_of_ne h b hr
  have hlive : ∀ r, 0 < refs blocks held r → (h.alloc b).2.get r = h.get r := by
    intro r hr
    apply hsame
    rintro rfl
    omega
  refine ⟨⟨⟨hs.heapOk.accounts.alloc b, ?_, ?_⟩, hs.stored.congr ?_⟩, hself, hfresh, hlive⟩
  · intro r b' hb'
    by_cases hr : r = h.next
    · rw [hr] at hb'
      obtain rfl : b' = b := Option.some.inj (hb'.symm.trans hself)
      exact hroom
    · rw [hsame r hr] at hb'
      exact hs.heapOk.room r b' hb'
  · intro r b' hb' hlt
    by_cases hr : r = h.next
    · rw [hr] at hb' ⊢
      obtain rfl : b' = b := Option.some.inj (hb'.symm.trans hself)
      exact ⟨by omega, hmut hlt⟩
    · rw [hsame r hr] at hb'
      exact hs.heapOk.exclusive r b' hb' hlt
  · intro r hr
    apply hlive
    have := count_pos_iff.2 hr
    simp only [refs]
    omega

/-- What pushing a new block of `n` bytes does: the queue gets an empty block, writable and with one
reference. -/
theorem pushNewBlock_yields (hs : Stores h held blocks D) {n : Nat} (hn : 0 < n) :
    Yields (MemoryStream.pushNewBlock h blocks n) fun (h', blocks') =>
      blocks'.beginId = blocks.beginId ∧ Stores h' held blocks' (D ++ [[]]) ∧ Frame held h h' ∧
      (∀ r ∈ blocks.live, h'.get r = h.get r) ∧
      ∃ r b, blocks'.live = blocks.live ++ [r] ∧ h'.get r = some b ∧ b.size_ = 0 ∧
        b.bufferSize = n := by
  rcases hs.alloc (b := ⟨replicate n 0, 0, true⟩) (Nat.zero_le _) (fun _ => rfl) with
    ⟨hs', hself, hfresh, hsame⟩
  simp only [MemoryStream.pushNewBlock, ofSize, if_pos hn, bind_eq_bind,
    bind_some]
  apply (hs'.push hself (Or.inr hfresh)).bind
  rintro h' ⟨hinc, hpush⟩
  refine Yields.some ⟨rfl, hpush, ?_, ?_, _, _, pushBack_live _ _,
    (hinc _).trans hself, rfl, ?_⟩
  · intro r hr
    rw [hinc, hsame r (by simp only [refs]; omega)]
  · intro r hr
    have := count_pos_iff.2 hr
    rw [hinc, hsame r (by simp only [refs]; omega)]
  · simp only [bufferSize, length_replicate]

/-! ## Changing the last block -/

/-- The heap differs from `h` in the content of block `r` only, which is `b` now. -/
structure Rewrites (h h' : Heap) (n : Nat → Nat) (r : BlockRef) (b : DataBlock) : Prop where
  accounts : h'.Accounts n
  self : h'.get r = some b
  other : ∀ r', r' ≠ r → h'.get r' = h.get r'

theorem Rewrites.refl {n : Nat → Nat} (ha : h.Accounts n) (hg : h.get r = some b) : Rewrites h h n r b :=
  ⟨ha, hg, fun _ _ => rfl⟩

theorem Rewrites.put {h' : Heap} {n : Nat → Nat} (hr : Rewrites h h' n r b) (b' : DataBlock) :
    Yields (h'.put r b') fun h'' => Rewrites h h'' n r b' := by
  rcases RcHeap.put_eq hr.accounts hr.self b' with ⟨h'', hput, hacc, hself, hother⟩
  exact Yields.intro hput ⟨hacc, hself, fun r' hne => (hother r' hne).trans (hr.other r' hne)⟩

variable {front : List Bytes}

/-- Changing the last block of a queue while it has room: nobody else sees it. -/
theorem Stores.rewrite_last {h' : Heap} {last : Bytes} (hs : Stores h held blocks (front ++ [last])) (hlive : blocks.live = it ++ [r]) {b' : DataBlock}
    (hg : h.get r = some b) (hlt : b.size_ < b.bufferSize)
    (hrw : Rewrites h h' (refs blocks held) r b') (hroom : b'.size_ ≤ b'.bufferSize)
    (hmut : b'.isMutable = true) :
    Stores h' held blocks (front ++ [b'.data]) ∧ Frame held h h' := by
  have hone := (hs.heapOk.exclusive r b hg hlt).1
  simp only [refs, hlive, count_append, count_singleton_self] at hone
  have hnotin : r ∉ it := by
    intro hin
    have := count_pos_iff.2 hin
    omega
  have hstored := hs.stored
  rw [hlive] at hstored
  have hfront : Stored h it front := by
    have hlen : it.length = front.length := by
      have := hstored.length_eq
      simp only [length_append, length_singleton] at this
      omega
    have htake := forall₂_take it.length hstored
    rwa [take_left, hlen, take_left] at htake
  refine ⟨⟨⟨hrw.accounts, ?_, ?_⟩, ?_⟩, ?_⟩
  · intro r' c hc
    by_cases hr : r' = r
    · rw [hr, hrw.self, Option.some.injEq] at hc
      rw [← hc]
      exact hroom
    · rw [hrw.other r' hr] at hc
      exact hs.heapOk.room r' c hc
  · intro r' c hc hroom'
    by_cases hr : r' = r
    · have hn : refs blocks held r' ≤ 1 := by
        simp only [refs, hlive, hr, count_append, count_singleton_self]
        omega
      rw [hr, hrw.self, Option.some.injEq] at hc
      rw [← hc]
      exact ⟨hn, hmut⟩
    · rw [hrw.other r' hr] at hc
      exact hs.heapOk.exclusive r' c hc hroom'
  · rw [hlive]
    apply Stored.append _ (holds_data hrw.self hroom)
    apply hfront.congr
    intro r' hr'
    apply hrw.other
    rintro rfl
    exact hnotin hr'
  · intro r' hr'
    apply hrw.other
    rintro rfl
    omega

/-! ## Dropping references -/

theorem HeapOk.decRef {n : Nat → Nat} (hh : HeapOk h n) (hr : 0 < n r) :
    Yields (RcHeap.decRef h r) fun h' => HeapOk h' (Function.update n r (n r - 1)) ∧
      ∀ r', 0 < Function.update n r (n r - 1) r' → h'.get r' = h.get r' := by
  rcases RcHeap.decRef_eq hh.accounts hr with ⟨h', hdec, hacc, hsame, hsub⟩
  refine Yields.intro hdec ⟨⟨hacc, ?_, ?_⟩, hsame⟩
  · intro r' b hb
    exact hh.room r' b (hsub r' b hb)
  · intro r' b hb hlt
    have hex := hh.exclusive r' b (hsub r' b hb) hlt
    refine ⟨?_, hex.2⟩
    by_cases heq : r' = r
    · rw [heq] at hex ⊢
      rw [update_self]
      omega
    · rw [update_of_ne heq]
      exact hex.1

theorem update_count_cons (r : BlockRef) (it : List BlockRef) (held : Nat → Nat) :
    Function.update (fun r' => (r :: it).count r' + held r') r ((r :: it).count r + held r - 1) =
      fun r' => it.count r' + held r' := by
  funext r'
  by_cases heq : r' = r
  · rw [heq, update_self, count_cons_self]
    omega
  · rw [update_of_ne heq, count_cons_of_ne (fun h => heq h.symm)]

/-- Dropping the first block of a queue. -/
theorem Stores.popFront {d : Bytes} (hs : Stores h held blocks (d :: D)) :
    Yields blocks.popFront fun (r, blocks') => blocks'.beginId = blocks.beginId + 1 ∧
      Yields (RcHeap.decRef h r) fun h' => Stores h' held blocks' D ∧ Frame held h h' := by
  rcases forall₂_cons_right_iff.1 hs.stored with ⟨r, it, -, htail, hlive⟩
  rcases popFront_eq hlive with ⟨blocks', hpop, hlive', hbegin⟩
  refine Yields.intro hpop ⟨hbegin, ?_⟩
  have hrefs : refs blocks held = fun r' => (r :: it).count r' + held r' := by
    funext r'
    simp only [refs, hlive]
  have hok := hs.heapOk
  rw [hrefs] at hok
  apply (hok.decRef (r := r) (by simp only [count_cons_self]; omega)).mono
  rw [update_count_cons]
  rintro h' ⟨hok', hsame⟩
  refine ⟨⟨?_, ?_⟩, ?_⟩
  · have hrefs' : refs blocks' held = fun r' => it.count r' + held r' := by
      funext r'
      simp only [refs, hlive']
    rw [hrefs']
    exact hok'
  · rw [hlive']
    apply Stored.congr htail
    intro r' hr'
    exact hsame r' (Nat.add_pos_left (count_pos_iff.2 hr') _)
  · intro r' hr'
    exact hsame r' (Nat.add_pos_right _ hr')

theorem decRefs_yields (hh : HeapOk h fun r => it.count r + held r) :
    Yields (MemoryStream.decRefs it h) fun h' => HeapOk h' held ∧ Frame held h h' := by
  induction it generalizing h with
  | nil =>
    refine Yields.some ⟨?_, Frame.refl held h⟩
    simpa using hh
  | cons r it ih =>
    apply (hh.decRef (r := r) (by simp only [count_cons_self]; omega)).bind
    rw [update_count_cons]
    rintro h' ⟨hok, hsame⟩
    apply (ih hok).mono
    rintro _ ⟨hok', hframe⟩
    exact ⟨hok', Frame.trans (fun r' hr' => hsame r' (Nat.add_pos_right _ hr')) hframe⟩

/-! ## Writing -/

/-- `D'` is `D` with `bs` put in at its end: every position sees `bs` behind what it saw. -/
def Grows (D D' : List Bytes) (bs : Bytes) : Prop :=
  D'.flatten = D.flatten ++ bs ∧ ∀ k pos rest, Points D k pos rest → Points D' k pos (rest ++ bs)

theorem Grows.refl (D : List Bytes) : Grows D D [] :=
  ⟨by simp, fun k pos rest hp => by simpa using hp⟩

theorem grows_append (D : List Bytes) (bs : Bytes) : Grows D (D ++ [bs]) bs :=
  ⟨by simp, fun _ _ _ hp => hp.append bs⟩

theorem grows_extend (D : List Bytes) (d bs : Bytes) : Grows (D ++ [d]) (D ++ [d ++ bs]) bs :=
  ⟨by simp, fun _ _ _ hp => hp.extend bs⟩

theorem Grows.trans {D' D'' : List Bytes} {bs cs : Bytes} (h₁ : Grows D D' bs)
    (h₂ : Grows D' D'' cs) : Grows D D'' (bs ++ cs) := by
  refine ⟨by rw [h₂.1, h₁.1, append_assoc], ?_⟩
  intro k pos rest hp
  rw [← append_assoc]
  exact h₂.2 k pos _ (h₁.2 k pos rest hp)

section WriteDataLoop

variable {h : Heap} {r : BlockRef} {rest : List BlockRef} {b : DataBlock} {id pos : Nat} {buf : Bytes}

theorem writeDataLoop_nil (h : Heap) (it : List BlockRef) (id pos : Nat) :
    DataBlockPointer.writeDataLoop h it id pos [] = some (h, 0, ⟨some id, pos⟩) := by
  rw [writeDataLoop.eq_def]
  rfl

theorem writeDataLoop_full (hg : h.get r = some b) (hfull : pos = b.bufferSize) :
    DataBlockPointer.writeDataLoop h [r] id pos buf = some (h, 0, ⟨some id, pos⟩) := by
  rw [writeDataLoop.eq_def]
  by_cases hbuf : buf.length = 0
  · rw [if_pos hbuf]
  · simp only [if_neg hbuf, hg, if_pos hfull]

theorem writeDataLoop_next {r' : BlockRef} {b' : DataBlock} (hg : h.get r = some b)
    (hfull : pos = b.bufferSize) (hg' : h.get r' = some b') (hempty : b'.size_ = 0)
    (hbuf : buf ≠ []) :
    DataBlockPointer.writeDataLoop h (r :: r' :: rest) id pos buf =
      DataBlockPointer.writeDataLoop h (r' :: rest) (id + 1) 0 buf := by
  rw [writeDataLoop.eq_def, if_neg (by simpa using hbuf)]
  simp only [hg, if_pos hfull, hg', if_pos hempty]

/-- The block with `bs` behind its data. -/
def DataBlock.append (b : DataBlock) (bs : Bytes) : DataBlock :=
  { b.overwrite b.size_ bs with size_ := b.size_ + bs.length }

theorem writeDataLoop_room (hg : h.get r = some b) (hroom : b.size_ < b.bufferSize)
    (hmut : b.isMutable = true) {n : Nat} (hn : n = min (b.bufferSize - b.size_) buf.length)
    (hbuf : buf ≠ []) :
    DataBlockPointer.writeDataLoop h (r :: rest) id b.size_ buf = (do
      let h' ← h.put r (b.append (buf.take n))
      let (h'', cb, p) ←
        DataBlockPointer.writeDataLoop h' (r :: rest) id (b.size_ + n) (buf.drop n)
      some (h'', cb + n, p)) := by
  have hlen : buf.length ≠ 0 := by simpa using hbuf
  have htake : (buf.take n).length = n := by
    rw [length_take]
    omega
  have hset : (b.overwrite b.size_ (buf.take n)).setSize (b.size_ + n) =
      some (b.append (buf.take n)) := by
    rw [setSize, if_pos]
    · rw [append, htake]
    · simp only [overwrite, bufferSize, length_append, length_take,
        length_drop] at hroom hn ⊢
      omega
  have hwrite : ¬(min (b.bufferSize - b.size_) buf.length = 0 ∨ b.isMutable = false) := by
    rw [hmut, not_or]
    exact ⟨by omega, by simp⟩
  rw [writeDataLoop.eq_def, if_neg hlen]
  simp only [hg]
  rw [if_neg (by omega), dif_neg hwrite, ← hn, hset]
  rfl

end WriteDataLoop

/-- Room is all there is to know about the block after the bytes are put behind its data. -/
theorem append_spec {bs : Bytes} (hroom : b.size_ + bs.length ≤ b.bufferSize) :
    (b.append bs).bufferSize = b.bufferSize ∧ (b.append bs).data = b.data ++ bs := by
  simp only [bufferSize] at hroom
  constructor
  · simp only [append, overwrite, bufferSize, length_append,
      length_take, length_drop]
    omega
  · simp only [append, overwrite, data]
    apply take_left'
    simp only [length_append, length_take]
    omega

/-- Writing at the end of the last block of a queue fills it as far as it has room. -/
theorem writeDataLoop_yields {last : Bytes} (hs : Stores h held blocks (front ++ [last])) (hlive : blocks.live = it ++ [r])
    (hg : h.get r = some b) (hlast : b.data = last) (id : Nat) (buf : Bytes) :
    Yields (DataBlockPointer.writeDataLoop h [r] id last.length buf) fun (h', cb, p) =>
      cb = min (b.bufferSize - last.length) buf.length ∧ p = ⟨some id, last.length + cb⟩ ∧
      Stores h' held blocks (front ++ [last ++ buf.take cb]) ∧ Frame held h h' ∧
      (∀ r', r' ≠ r → h'.get r' = h.get r') ∧
      ∃ b', h'.get r = some b' ∧ b'.bufferSize = b.bufferSize ∧ b'.data = last ++ buf.take cb := by
  have hroom := hs.heapOk.room r b hg
  have hsize : b.size_ = last.length := by rw [← hlast, length_data hroom]
  -- nothing to write, or no room for it
  by_cases hstop : buf = [] ∨ last.length = b.bufferSize
  · have hres : writeDataLoop h [r] id last.length buf =
        some (h, 0, ⟨some id, last.length⟩) := by
      rcases hstop with rfl | hfull
      · exact writeDataLoop_nil h [r] id last.length
      · exact writeDataLoop_full hg hfull
    have h0 : 0 = min (b.bufferSize - last.length) buf.length := by
      rcases hstop with rfl | hfull
      · simp
      · omega
    rw [hres]
    exact Yields.some ⟨h0, rfl, by simpa using hs, Frame.refl held h, fun _ _ => rfl,
      b, hg, rfl, by simp [hlast]⟩
  -- the bytes that fit go behind the data, and the next round of the loop writes nothing
  rw [not_or] at hstop
  have hlt : b.size_ < b.bufferSize := by omega
  have hmut := (hs.heapOk.exclusive r b hg hlt).2
  obtain ⟨n, hn⟩ : ∃ n, n = min (b.bufferSize - b.size_) buf.length := ⟨_, rfl⟩
  have htake : (buf.take n).length = n := by
    rw [length_take]
    omega
  have happ : b.size_ + (buf.take n).length ≤ b.bufferSize := by omega
  rcases append_spec happ with ⟨hbuffer, hdata⟩
  rw [← hsize, writeDataLoop_room hg hlt hmut hn hstop.1]
  apply ((Rewrites.refl hs.heapOk.accounts hg).put (b.append (buf.take n))).bind
  intro h' hrw
  have hroom' : (b.append (buf.take n)).size_ ≤ (b.append (buf.take n)).bufferSize := by
    rw [hbuffer]
    exact happ
  rcases hs.rewrite_last hlive hg hlt hrw hroom' hmut with ⟨hs', hframe⟩
  have hres : writeDataLoop h' [r] id (b.size_ + n) (buf.drop n) =
      some (h', 0, ⟨some id, b.size_ + n⟩) := by
    by_cases hdrop : buf.drop n = []
    · rw [hdrop]
      exact writeDataLoop_nil h' [r] id _
    · apply writeDataLoop_full hrw.self
      rw [hbuffer]
      rw [← length_eq_zero_iff, length_drop] at hdrop
      omega
  rw [hres]
  rw [hdata, hlast] at hs'
  refine Yields.some ⟨by omega, by rw [Nat.zero_add], by rwa [Nat.zero_add], hframe, hrw.other,
    _, hrw.self, hbuffer, ?_⟩
  rw [hdata, hlast, Nat.zero_add]

/-- The last block of a queue. -/
theorem Stores.last {last : Bytes} (hs : Stores h held blocks (front ++ [last])) :
    ∃ it r b, blocks.live = it ++ [r] ∧ it.length = front.length ∧ h.get r = some b ∧
      b.size_ = last.length ∧ b.data = last ∧ b.size_ ≤ b.bufferSize := by
  have hdrop := hs.stored.drop front.length
  rw [drop_left] at hdrop
  rcases forall₂_cons_right_iff.1 hdrop with ⟨r, _, ⟨b, hg, hsize, hdata⟩, htail, hlive⟩
  cases htail
  refine ⟨blocks.live.take front.length, r, b, ?_, ?_, hg, hsize, hdata, hs.heapOk.room r b hg⟩
  · rw [← hlive, take_append_drop]
  · have hlen := hs.stored.length_eq
    rw [length_append, length_singleton] at hlen
    rw [length_take]
    omega

theorem writeData_eq (h : Heap) (owner : BlockDqueue) (k pos : Nat) (buf : Bytes) :
    DataBlockPointer.writeData h owner ⟨some (owner.beginId + k), pos⟩ buf =
      DataBlockPointer.writeDataLoop h (owner.live.drop k) (owner.beginId + k) pos buf := by
  simp only [writeData, bind_eq_bind, bind_some,
    bufferIt_add]

theorem writeLoop_nil (blockSize fuel : Nat) (h : Heap) (blocks : BlockDqueue) (w : DataBlockPointer) :
    MemoryStream.writeLoop blockSize (fuel + 1) h blocks w [] = some (h, blocks, w, 0) := rfl

theorem writeLoop_succ (blockSize fuel : Nat) (h : Heap) (blocks : BlockDqueue)
    (w : DataBlockPointer) {p : Bytes} (hp : p ≠ []) :
    MemoryStream.writeLoop blockSize (fuel + 1) h blocks w p = (do
      let (h, delta, w) ← w.writeData h blocks p
      let (h, blocks) ←
        if 0 < (p.drop delta).length then
          MemoryStream.pushNewBlock h blocks (max (p.drop delta).length blockSize)
        else some (h, blocks)
      let (h, blocks, w, cb) ← MemoryStream.writeLoop blockSize fuel h blocks w (p.drop delta)
      some (h, blocks, w, delta + cb)) := by
  rw [MemoryStream.writeLoop, if_neg (by simpa using hp)]

/-- The second round of the loop of `Write`: the block at the write pointer is full and the new block
behind it has room for everything. -/
theorem writeLoop_new_yields (hs : Stores h held blocks (front ++ [[]]))
    {r' : BlockRef} (hlive : blocks.live = it ++ [r] ++ [r']) {b' : DataBlock} {pos : Nat}
    (hg : h.get r = some b) (hfull : pos = b.bufferSize) (hg' : h.get r' = some b')
    (hempty : b'.size_ = 0) {buf : Bytes} (hbuf : buf ≠ []) (hroom : buf.length ≤ b'.bufferSize)
    (blockSize fuel : Nat) :
    Yields (MemoryStream.writeLoop blockSize (fuel + 2) h blocks
        ⟨some (blocks.beginId + it.length), pos⟩ buf) fun (h', blocks', w', cb) =>
      cb = buf.length ∧ blocks' = blocks ∧ Frame held h h' ∧ Stores h' held blocks (front ++ [buf]) ∧
      w' = ⟨some (blocks.beginId + it.length + 1), buf.length⟩ := by
  have hdata : b'.data = [] := by
    rw [data, hempty, take_zero]
  rw [writeLoop_succ _ _ _ _ _ hbuf, writeData_eq, hlive, append_assoc, drop_left,
    singleton_append, writeDataLoop_next hg hfull hg' hempty hbuf]
  apply (writeDataLoop_yields hs hlive hg' hdata _ buf).bind
  rintro ⟨_, cb, _⟩ ⟨hcb, rfl, hs₁, hframe, -⟩
  obtain rfl : cb = buf.length := by
    rw [hcb, length_nil]
    omega
  rw [take_length, nil_append] at hs₁
  simp only [drop_length, length_nil, Nat.lt_irrefl, if_false, bind_eq_bind,
    bind_some, writeLoop_nil]
  exact Yields.some ⟨rfl, rfl, hframe, hs₁, by rw [Nat.zero_add]⟩

/-- The loop of `Write` puts all bytes in, in at most two rounds. -/
theorem writeLoop_yields {w : DataBlockPointer} (hs : Stores h held blocks D) (hw : AtEnd blocks.beginId D w)
    (blockSize : Nat) (buf : Bytes) :
    Yields (MemoryStream.writeLoop blockSize 3 h blocks w buf) fun (h', blocks', w', cb) =>
      cb = buf.length ∧ blocks'.beginId = blocks.beginId ∧ Frame held h h' ∧
      ∃ D', Stores h' held blocks' D' ∧ AtEnd blocks.beginId D' w' ∧ Grows D D' buf := by
  by_cases hbuf : buf = []
  · subst hbuf
    rw [writeLoop_nil]
    exact Yields.some ⟨rfl, rfl, Frame.refl held h, D, hs, hw, Grows.refl D⟩
  rcases hw with ⟨front, last, rfl, rfl⟩
  rcases hs.last with ⟨_, r, b, hlive, hitlen, hg, _, hdata, _⟩
  rw [writeLoop_succ _ _ _ _ _ hbuf, writeData_eq, hlive, ← hitlen, drop_left]
  apply (writeDataLoop_yields hs hlive hg hdata _ buf).bind
  rintro ⟨_, cb, _⟩ ⟨_, rfl, hs₁, hframe₁, -, b₁, hg₁, _, -⟩
  by_cases hrest : buf.drop cb = []
  · obtain rfl : cb = buf.length := by
      rw [← length_eq_zero_iff, length_drop] at hrest
      omega
    simp only [drop_length, length_nil, Nat.lt_irrefl, if_false, bind_eq_bind,
      bind_some, writeLoop_nil]
    rw [take_length] at hs₁
    refine Yields.some ⟨rfl, rfl, hframe₁, _, hs₁, ⟨front, last ++ buf, rfl, ?_⟩,
      grows_extend front last buf⟩
    rw [hitlen, length_append]
  · -- the block is full now, and a new one takes the rest
    have hpos : 0 < (buf.drop cb).length := length_pos_of_ne_nil hrest
    have htotal : cb + (buf.drop cb).length = buf.length := by
      rw [length_drop]
      omega
    simp only [if_pos hpos]
    apply (pushNewBlock_yields hs₁ (n := max (buf.drop cb).length blockSize) (by omega)).bind
    rintro ⟨h₂, _⟩ ⟨hbegin, hs₂, hframe₂, hsame, _, _, hlive₂, hg', hempty, _⟩
    have hg₂ : h₂.get r = some b₁ := (hsame r (by simp [hlive])).trans hg₁
    rw [hlive] at hlive₂
    have hfull : last.length + cb = b₁.bufferSize := by omega
    have hround := writeLoop_new_yields hs₂ hlive₂ hg₂ hfull hg' hempty hrest (by omega) blockSize 0
    rw [hbegin] at hround
    apply hround.bind
    rintro ⟨_, _, _, _⟩ ⟨rfl, rfl, hframe₃, hs₃, rfl⟩
    refine Yields.some ⟨htotal, hbegin, (hframe₁.trans hframe₂).trans hframe₃, _, hs₃,
      ⟨front ++ [last ++ buf.take cb], buf.drop cb, rfl, ?_⟩, ?_⟩
    · rw [hitlen, length_append, length_singleton, Nat.add_assoc]
    · have hgrow := (grows_extend front last (buf.take cb)).trans
        (grows_append (front ++ [last ++ buf.take cb]) (buf.drop cb))
      rwa [take_append_drop] at hgrow

/-! ## Scratch space -/

section Scratch

variable {h h' : Heap} {n : Nat → Nat} {blocks : BlockDqueue} {it : List BlockRef} {r : BlockRef}
  {b : DataBlock}

/-- The pointer at offset `pos` of the last block. -/
theorem block_last (hlive : blocks.live = it ++ [r]) (hg : h.get r = some b) (pos : Nat) :
    DataBlockPointer.block h blocks ⟨some (blocks.beginId + it.length), pos⟩ = some (r, b) := by
  simp only [block, blockIt, bind_some,
    bufferIt_add, hlive, drop_left, hg, map_some]

end Scratch

end Whispercast.Io
