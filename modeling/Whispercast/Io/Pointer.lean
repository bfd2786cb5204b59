import Whispercast.Io.DataBlock
import Whispercast.Library.Partial
import Mathlib.Data.List.Forall2

/-!
# What a block pointer sees

`Stored h it D` reads the blocks at an iterator as the list `D` of their data. `Points D k pos rest` says
that offset `pos` of the `k`-th of these blocks is a position with the bytes `rest` in front of it, up to
the end of the queue. The lemmas below give each pointer operation its meaning in these terms; no
later proof looks at a loop over blocks again.
-/

namespace Whispercast.Io

open Library DataBlockPointer List Option BlockDqueue

/-- Block `r` of the heap holds the data `d`. -/
def Holds (h : Heap) (r : BlockRef) (d : Bytes) : Prop :=
  ∃ b, h.get r = some b ∧ b.size_ = d.length ∧ b.data = d

/-- The blocks of `it` hold the data `D`. -/
abbrev Stored (h : Heap) (it : List BlockRef) (D : List Bytes) : Prop :=
  List.Forall₂ (Holds h) it D

/-- Offset `pos` of the `k`-th block of `D` has exactly `rest` in front of it. -/
def Points (D : List Bytes) (k pos : Nat) (rest : Bytes) : Prop :=
  ∃ d ds, D.drop k = d :: ds ∧ pos ≤ d.length ∧ rest = d.drop pos ++ ds.flatten

/-- A pointer that is not null, into a queue that begins with id `begin` and holds `D`. -/
def At (begin : Nat) (D : List Bytes) (p : DataBlockPointer) (rest : Bytes) : Prop :=
  ∃ k, p.blockId = some (begin + k) ∧ Points D k p.pos rest

/-! ## Positions -/

variable {d : Bytes} {ds : List Bytes} {pos : Nat} {rest : Bytes}

theorem points_zero_cons : Points (d :: ds) 0 pos rest ↔ pos ≤ d.length ∧ rest = d.drop pos ++ ds.flatten := by
  constructor
  · rintro ⟨_, _, heq, hpos, hrest⟩
    obtain ⟨rfl, rfl⟩ := heq
    exact ⟨hpos, hrest⟩
  · rintro ⟨hpos, hrest⟩
    exact ⟨d, ds, rfl, hpos, hrest⟩

variable {D : List Bytes} {k : Nat}

theorem points_drop {j : Nat} : Points (D.drop j) k pos rest ↔ Points D (j + k) pos rest := by
  simp only [Points, drop_drop]

theorem points_cons_succ : Points (d :: D) (k + 1) pos rest ↔ Points D k pos rest := by
  simp only [Points, drop_succ_cons]

theorem Points.lt_length (hp : Points D k pos rest) : k < D.length := by
  obtain ⟨d, _, heq, -, -⟩ := hp
  by_contra hk
  rw [drop_of_length_le (by omega)] at heq
  cases heq

theorem points_flatten (hD : D ≠ []) : Points D 0 0 D.flatten := by
  cases D with
  | nil => exact absurd rfl hD
  | cons d ds => exact points_zero_cons.2 ⟨Nat.zero_le _, by simp⟩

theorem Points.append (hp : Points D k pos rest) (b : Bytes) : Points (D ++ [b]) k pos (rest ++ b) := by
  have hk := hp.lt_length
  obtain ⟨d, ds, heq, hpos, rfl⟩ := hp
  refine ⟨d, ds ++ [b], ?_, hpos, by simp⟩
  rw [drop_append_of_le_length (by omega), heq, cons_append]

theorem Points.extend (hp : Points (D ++ [d]) k pos rest) (b : Bytes) : Points (D ++ [d ++ b]) k pos (rest ++ b) := by
  have hk : k < D.length + 1 := by
    have := hp.lt_length
    simpa using this
  obtain ⟨e, _, heq, hpos, rfl⟩ := hp
  rw [drop_append_of_le_length (by omega)] at heq
  have hdrop : (D ++ [d ++ b]).drop k = D.drop k ++ [d ++ b] :=
    drop_append_of_le_length (by omega)
  cases hDk : D.drop k with
  | nil =>
    rw [hDk, nil_append, List.cons.injEq] at heq
    obtain ⟨rfl, rfl⟩ := heq
    refine ⟨d ++ b, [], by rw [hdrop, hDk]; rfl, by simp; omega, ?_⟩
    simp [drop_append_of_le_length hpos]
  | cons e' ds' =>
    rw [hDk, cons_append, List.cons.injEq] at heq
    obtain ⟨rfl, rfl⟩ := heq
    exact ⟨e', ds' ++ [d ++ b], by rw [hdrop, hDk]; rfl, hpos, by simp⟩

/-- Passing `n` bytes inside a block. -/
theorem Points.zero_add {n : Nat} (hp : Points (d :: ds) 0 pos rest) (hn : pos + n ≤ d.length) :
    Points (d :: ds) 0 (pos + n) (rest.drop n) := by
  obtain ⟨-, rfl⟩ := points_zero_cons.1 hp
  refine points_zero_cons.2 ⟨hn, ?_⟩
  rw [drop_append_of_le_length (by simp; omega), drop_drop]

/-- Reading `n` bytes inside a block. -/
theorem Points.zero_take {n : Nat} (hp : Points (d :: ds) 0 pos rest) (hn : pos + n ≤ d.length) :
    rest.take n = (d.drop pos).take n := by
  obtain ⟨-, rfl⟩ := points_zero_cons.1 hp
  rw [take_append_of_le_length (by simp; omega)]

/-- At the end of a block only the later blocks are left. -/
theorem Points.zero_end (hp : Points (d :: ds) 0 d.length rest) : rest = ds.flatten := by
  obtain ⟨-, rfl⟩ := points_zero_cons.1 hp
  simp

variable {begin : Nat} {p : DataBlockPointer}

theorem at_of_drop {j : Nat} (hp : At (begin + j) (D.drop j) p rest) : At begin D p rest := by
  obtain ⟨k, hid, hk⟩ := hp
  exact ⟨j + k, by rw [hid, Nat.add_assoc], points_drop.1 hk⟩

theorem at_zero (hp : Points D 0 pos rest) : At begin D ⟨some begin, pos⟩ rest :=
  ⟨0, rfl, hp⟩

/-! ## Stored blocks -/

variable {h : Heap} {it : List BlockRef}

theorem Stored.get {r : BlockRef} (hs : Stored h (r :: it) D) : h.get r ≠ none := by
  obtain ⟨d, -, ⟨b, hb, -⟩, -⟩ := forall₂_cons_left_iff.1 hs
  simp [hb]

/-- The first of some stored blocks: its size, its room, and that the buffer holds the data. -/
theorem Stored.head {r : BlockRef} {b : DataBlock} (hs : Stored h (r :: it) D) (hr : h.get r = some b) :
    ∃ d ds, D = d :: ds ∧ Stored h it ds ∧ b.size_ = d.length ∧ d.length ≤ b.bufferSize ∧ b.data = d ∧
      ∀ pos n, pos + n ≤ d.length → (b.buffer_.drop pos).take n = (d.drop pos).take n := by
  obtain ⟨d, ds, ⟨b', hb, hsize, rfl⟩, hds, rfl⟩ := forall₂_cons_left_iff.1 hs
  obtain rfl : b = b' := Option.some.inj (hr.symm.trans hb)
  refine ⟨b.data, ds, rfl, hds, hsize, ?_, rfl, ?_⟩
  · simp only [DataBlock.data, length_take]
    exact Nat.min_le_right _ _
  · intro pos n hn
    rw [DataBlock.data, drop_take, take_take, Nat.min_eq_left (by omega)]

theorem Stored.drop (hs : Stored h it D) (k : Nat) : Stored h (it.drop k) (D.drop k) := by
  induction k generalizing it D with
  | zero => exact hs
  | succ k ih =>
    cases hs with
    | nil => exact Forall₂.nil
    | cons _ hs => exact ih hs

/-- `AdvanceToNextBlock` stops in front of the first block that holds data. -/
theorem advanceToNextBlock_yields (id : Nat) (hs : Stored h it D) :
    Yields (DataBlockPointer.advanceToNextBlock h it id) fun
      | none => D.flatten = []
      | some (it', id') => ∃ k, id' = id + k ∧ it' = it.drop k ∧ Points D k 0 D.flatten ∧
          D.flatten ≠ [] := by
  induction hs generalizing id with
  | nil => exact Yields.some rfl
  | @cons r d it D hr hs ih =>
    obtain ⟨b, hb, hsize, _⟩ := hr
    simp only [advanceToNextBlock, hb, bind_eq_bind, bind_some]
    by_cases h0 : b.size_ = 0
    · have hd : d = [] := eq_nil_of_length_eq_zero (by omega)
      subst hd
      rw [if_pos h0]
      refine (ih (id + 1)).mono ?_
      rintro (_ | ⟨it', id'⟩) hres
      · simpa using hres
      · obtain ⟨k, _, hit, hpts, hne⟩ := hres
        exact ⟨k + 1, by omega, by simpa using hit, points_cons_succ.2 (by simpa using hpts),
          by simpa using hne⟩
    · rw [if_neg h0]
      refine Yields.some ⟨0, rfl, rfl, points_flatten (by simp), ?_⟩
      intro hnil
      simp only [flatten_cons, append_eq_nil_iff] at hnil
      simp [hnil.1] at hsize
      omega

/-! ## Reading -/

section

variable {id : Nat} (hs : Stored h it D) (hp : Points D 0 pos rest)

include hs hp

theorem readDataLoop_yields {len : Nat} : Yields (DataBlockPointer.readDataLoop h it id pos len) fun (out, p) =>
      out = rest.take len ∧ At id D p (rest.drop len) := by
  fun_induction readDataLoop h it id pos len generalizing D rest with
  | case1 => exact Yields.some ⟨by simp, at_zero (by simpa using hp)⟩
  | case2 =>
    cases hs
    exact absurd hp.lt_length (by simp)
  | case3 id pos len hlen r it hr =>
    exact absurd hr hs.get
  | case4 id len hlen r it b hr hadv =>
    obtain ⟨d, ds, rfl, hds, -⟩ := hs.head hr
    exact absurd hadv (advanceToNextBlock_yields (id + 1) hds).ne_none
  | case5 id len hlen r it b hr hadv =>
    obtain ⟨d, ds, rfl, hds, hsize, -⟩ := hs.head hr
    have hnil : ds.flatten = [] := (advanceToNextBlock_yields (id + 1) hds).of_eq hadv
    have hend : rest = [] := by
      rw [hsize] at hp
      rw [hp.zero_end, hnil]
    subst hend
    exact Yields.some ⟨by simp, at_zero (by simpa using hp)⟩
  | case6 id len hlen r it b hr it' id' hadv ih =>
    obtain ⟨d, ds, rfl, hds, hsize, -⟩ := hs.head hr
    rw [hsize] at hp
    obtain ⟨k, rfl, rfl, hpts, -⟩ := (advanceToNextBlock_yields (id + 1) hds).of_eq hadv
    refine (ih (hds.drop k) (points_drop.2 (hp.zero_end ▸ hpts))).mono ?_
    rintro ⟨out, p⟩ ⟨hout, hat⟩
    refine ⟨hout, at_of_drop (j := k + 1) ?_⟩
    rw [show id + (k + 1) = id + 1 + k by omega]
    exact hat
  | case7 id pos len hlen r it b hr hpos hmin =>
    obtain ⟨d, ds, rfl, hds, hsize, -⟩ := hs.head hr
    obtain ⟨_, -⟩ := points_zero_cons.1 hp
    omega
  | case8 id pos len hlen r it b hr hpos hmin ih =>
    obtain ⟨d, ds, rfl, hds, hsize, -, -, hbuf⟩ := hs.head hr
    have hn : pos + min (b.size_ - pos) len ≤ d.length := by omega
    refine (ih hs (hp.zero_add hn)).bind ?_
    rintro ⟨out, p⟩ ⟨rfl, hat⟩
    refine Yields.some ⟨?_, ?_⟩
    · rw [hbuf pos _ hn, ← hp.zero_take hn, ← take_add]
      congr 1
      omega
    · rw [drop_drop] at hat
      rwa [show min (b.size_ - pos) len + (len - min (b.size_ - pos) len) = len by omega] at hat

theorem findCharLoop_yields {fin : UInt8} : Yields (DataBlockPointer.findCharLoop h fin it id pos) fun k =>
      k = rest.findIdx? (· == fin) := by
  fun_induction findCharLoop h fin it id pos generalizing D rest with
  | case1 =>
    cases hs
    exact absurd hp.lt_length (by simp)
  | case2 id pos r it hr =>
    exact absurd hr hs.get
  | case3 id pos r it b hr k hk =>
    obtain ⟨d, ds, rfl, hds, -, -, rfl, -⟩ := hs.head hr
    obtain ⟨-, rfl⟩ := points_zero_cons.1 hp
    exact Yields.some (by simp [findIdx?_append, hk])
  | case4 id pos r it b hr hk hadv =>
    obtain ⟨d, ds, rfl, hds, -⟩ := hs.head hr
    exact absurd hadv (advanceToNextBlock_yields (id + 1) hds).ne_none
  | case5 id pos r it b hr hk hadv =>
    obtain ⟨d, ds, rfl, hds, -, -, rfl, -⟩ := hs.head hr
    have hnil : ds.flatten = [] := (advanceToNextBlock_yields (id + 1) hds).of_eq hadv
    obtain ⟨-, rfl⟩ := points_zero_cons.1 hp
    exact Yields.some (by simp [hk, hnil])
  | case6 id pos r it b hr hk it' id' hadv ih =>
    obtain ⟨d, ds, rfl, hds, hsize, -, rfl, -⟩ := hs.head hr
    obtain ⟨k, rfl, rfl, hpts, -⟩ := (advanceToNextBlock_yields (id + 1) hds).of_eq hadv
    refine (ih (hds.drop k) (points_drop.2 hpts)).bind ?_
    rintro _ rfl
    obtain ⟨-, rfl⟩ := points_zero_cons.1 hp
    refine Yields.some ?_
    rw [findIdx?_append, hk, length_drop, hsize]
    cases ds.flatten.findIdx? (· == fin) with
    | none => rfl
    | some j => simp [Nat.add_comm]

theorem advanceLoop_yields {cb : Nat} : Yields (DataBlockPointer.advanceLoop h it id pos cb) fun (delta, p) =>
      delta = min cb rest.length ∧ At id D p (rest.drop cb) := by
  fun_induction advanceLoop h it id pos cb generalizing D rest with
  | case1 =>
    cases hs
    exact absurd hp.lt_length (by simp)
  | case2 id pos cb r it hr =>
    exact absurd hr hs.get
  | case3 id cb r b hr hcb =>
    obtain ⟨d, ds, rfl, hds, hsize, -⟩ := hs.head hr
    cases hds
    have hend : rest = [] := by
      rw [hsize] at hp
      simpa using hp.zero_end
    subst hend
    exact Yields.some ⟨by simp, at_zero (by simpa using hp)⟩
  | case4 id cb r b hr r' it' hcb ih =>
    obtain ⟨d, ds, rfl, hds, hsize, -⟩ := hs.head hr
    have hne : ds ≠ [] := by
      rintro rfl
      cases hds
    rw [hsize] at hp
    rw [hp.zero_end]
    refine (ih hds (points_flatten hne)).mono ?_
    rintro ⟨delta, p⟩ ⟨hdelta, hat⟩
    exact ⟨hdelta, at_of_drop (j := 1) hat⟩
  | case5 id pos cb r it b hr hcb hpos hmin =>
    obtain ⟨d, ds, rfl, hds, hsize, -⟩ := hs.head hr
    obtain ⟨hle, -⟩ := points_zero_cons.1 hp
    omega
  | case6 id pos cb r it b hr hcb hpos hmin ih =>
    obtain ⟨d, ds, rfl, hds, hsize, -⟩ := hs.head hr
    obtain ⟨hle, hrest⟩ := points_zero_cons.1 hp
    have hn : pos + min (b.size_ - pos) cb ≤ d.length := by omega
    have hlen : d.length - pos ≤ rest.length := by
      rw [hrest, length_append, length_drop]
      omega
    refine (ih hs (hp.zero_add hn)).bind ?_
    rintro ⟨delta, p⟩ ⟨rfl, hat⟩
    refine Yields.some ⟨?_, ?_⟩
    · rw [length_drop]
      omega
    · rw [drop_drop] at hat
      rwa [show min (b.size_ - pos) cb + (cb - min (b.size_ - pos) cb) = cb by omega] at hat
  | case7 id pos cb r it b hr hcb =>
    have h0 : cb = 0 := by omega
    subst h0
    exact Yields.some ⟨by simp, at_zero (by simpa using hp)⟩

end

/-! ## Distances -/

/-- A pointer at the end of the data of the last block. -/
def AtEnd (begin : Nat) (D : List Bytes) (p : DataBlockPointer) : Prop :=
  ∃ front last, D = front ++ [last] ∧ p = ⟨some (begin + front.length), last.length⟩

theorem AtEnd.at (hp : AtEnd begin D p) : At begin D p [] := by
  obtain ⟨front, last, rfl, rfl⟩ := hp
  exact ⟨front.length, rfl, last, [], by simp, Nat.le_refl _, by simp⟩

variable {w : DataBlockPointer}

/-- No position of the queue lies behind the end. -/
theorem At.le_atEnd (hp : At begin D p rest) (hw : AtEnd begin D w) :
    ∃ k j, p.blockId = some (begin + k) ∧ w.blockId = some (begin + k + j) ∧ D.length = k + j + 1 ∧
      (j = 0 → p.pos ≤ w.pos) := by
  obtain ⟨k, hid, hk⟩ := hp
  obtain ⟨front, _, rfl, rfl⟩ := hw
  have hlt := hk.lt_length
  simp only [length_append, length_singleton] at hlt
  obtain ⟨d, _, heq, hpos, -⟩ := hk
  refine ⟨k, front.length - k, hid, ?_, ?_, ?_⟩
  · show some _ = some _
    congr 1
    omega
  · simp only [length_append, length_singleton]
    omega
  · intro h0
    obtain rfl : k = front.length := by omega
    simp only [drop_left, cons.injEq] at heq
    rw [heq.1]
    exact hpos

/-- The bytes in front of a position are the rest of its block and the later blocks. -/
theorem Points.length (hp : Points D k pos rest) : rest.length + pos = (D.drop k).flatten.length := by
  obtain ⟨d, _, heq, _, rfl⟩ := hp
  simp only [heq, flatten_cons, length_append, length_drop]
  omega

/-- The block of `p` does not come after the block of `m`; a null pointer comes first. -/
def NotAfter (p m : DataBlockPointer) : Prop :=
  ∀ i, p.blockId = some i → ∃ j, m.blockId = some j ∧ i ≤ j

theorem NotAfter.refl (p : DataBlockPointer) : NotAfter p p := fun i hi => ⟨i, hi, Nat.le_refl i⟩

variable {m : DataBlockPointer}

theorem NotAfter.trans {l : DataBlockPointer} (hpm : NotAfter p m) (hml : NotAfter m l) : NotAfter p l := by
  intro i hi
  rcases hpm i hi with ⟨j, hj, hij⟩
  rcases hml j hj with ⟨k, hk, hjk⟩
  exact ⟨k, hk, Nat.le_trans hij hjk⟩

theorem notAfter_of_null (hp : p.blockId = none) : NotAfter p m := by
  intro i hi
  rw [hp] at hi
  cases hi

/-- What is found from the `j`-th block on is found in the queue, not before the `j`-th block. -/
theorem At.lift {j : Nat} (hp : p.blockId = some (begin + j)) (hm : At (begin + j) (D.drop j) m rest) :
    At begin D m rest ∧ NotAfter p m := by
  refine ⟨at_of_drop hm, ?_⟩
  intro i hi
  rcases hm with ⟨k, hid, -⟩
  rw [hp, Option.some.injEq] at hi
  exact ⟨begin + j + k, hid, by omega⟩

section Queue

variable {h : Heap} {owner : BlockDqueue} {D : List Bytes} {p : DataBlockPointer} {rest : Bytes}

section

variable (hs : Stored h owner.live D) (hp : At owner.beginId D p rest)

include hs hp

theorem readData_yields (len : Nat) : Yields (p.readData h owner len) fun (out, p') =>
      out = rest.take len ∧ At owner.beginId D p' (rest.drop len) ∧ NotAfter p p' := by
  rcases hp with ⟨k, hid, hk⟩
  simp only [readData, hid, bind_eq_bind, bind_some,
    bufferIt_add]
  apply (readDataLoop_yields (hs.drop k) (points_drop.2 hk)).mono
  rintro ⟨out, p'⟩ ⟨hout, hat⟩
  exact ⟨hout, hat.lift hid⟩

theorem advance_yields (cb : Nat) : Yields (p.advance h owner cb) fun (delta, p') =>
      delta = min cb rest.length ∧ At owner.beginId D p' (rest.drop cb) ∧ NotAfter p p' := by
  rcases hp with ⟨k, hid, hk⟩
  simp only [advance, hid, bind_eq_bind, bind_some,
    bufferIt_add]
  apply (advanceLoop_yields (hs.drop k) (points_drop.2 hk)).mono
  rintro ⟨delta, p'⟩ ⟨hdelta, hat⟩
  exact ⟨hdelta, hat.lift hid⟩

/-- `ReadUntilChar` takes everything up to and including the first `fin`, or nothing. -/
theorem readUntilChar_yields (fin : UInt8) : Yields (p.readUntilChar h owner fin) fun (line, p') =>
      line = (rest.findIdx? (· == fin)).map (fun k => rest.take (k + 1)) ∧
        At owner.beginId D p' (rest.drop (line.getD []).length) ∧ NotAfter p p' := by
  have hp' := hp
  rcases hp with ⟨k, hid, hk⟩
  simp only [readUntilChar, hid, bind_eq_bind, bind_some,
    bufferIt_add]
  apply (findCharLoop_yields (hs.drop k) (points_drop.2 hk)).bind
  rintro _ rfl
  cases hfind : rest.findIdx? (· == fin) with
  | none => exact Yields.some ⟨rfl, hp', NotAfter.refl p⟩
  | some n =>
    apply (readData_yields hs hp' (n + 1)).bind
    rintro ⟨s, p'⟩ ⟨rfl, hat, hle⟩
    refine Yields.some ⟨rfl, ?_, hle⟩
    have hn : n < rest.length := findIdx?_eq_some_iff_findIdx_eq.1 hfind |>.1
    simp only [getD_some, length_take, Nat.min_eq_left (by omega : n + 1 ≤ rest.length)]
    exact hat

end

end Queue

end Whispercast.Io
