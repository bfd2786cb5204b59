import Mathlib.Logic.Function.Basic
import Mathlib.Data.Nat.Basic

/-!
# Reference-counted heaps

A heap maps addresses to cells; a cell carries a value and its reference count. Allocation hands out a
fresh address with count zero, `incRef` and `decRef` move the count, and the cell is freed when the
count drops to zero. An access to a freed address has no result.

`Accounts h n` says that the counts in `h` are those of the multiplicity function `n`: `n r` references
to `r` exist in the program. The rules below say how each operation moves `n`; with them no live
reference ever points at a freed cell.
-/

namespace Whispercast.Library

open Function

universe u

/-- A heap of reference-counted cells. -/
structure RcHeap (β : Type u) where
  /-- Value and reference count at each address, `none` when never allocated or freed. -/
  cell : Nat → Option (β × Nat)
  /-- The next fresh address. -/
  next : Nat

namespace RcHeap

variable {β : Type u}

/-- The heap with no cell. -/
def empty : RcHeap β := ⟨fun _ => none, 0⟩

/-- The value at `r`. -/
def get (h : RcHeap β) (r : Nat) : Option β := (h.cell r).map Prod.fst

/-- Allocate `v`; nothing refers to it yet. -/
def alloc (h : RcHeap β) (v : β) : Nat × RcHeap β :=
  (h.next, ⟨Function.update h.cell h.next (some (v, 0)), h.next + 1⟩)

/-- Replace the value at `r`, keeping its count. -/
def put (h : RcHeap β) (r : Nat) (v : β) : Option (RcHeap β) :=
  (h.cell r).map fun c => ⟨Function.update h.cell r (some (v, c.2)), h.next⟩

/-- Add one reference to `r`. -/
def incRef (h : RcHeap β) (r : Nat) : Option (RcHeap β) :=
  (h.cell r).map fun c => ⟨Function.update h.cell r (some (c.1, c.2 + 1)), h.next⟩

/-- Drop one reference to `r`; the last one frees the cell. -/
def decRef (h : RcHeap β) (r : Nat) : Option (RcHeap β) :=
  match h.cell r with
  | some (v, c + 1) =>
    some ⟨Function.update h.cell r (if c = 0 then none else some (v, c)), h.next⟩
  | _ => none

/-- The counts of `h` are the multiplicities `n`. -/
structure Accounts (h : RcHeap β) (n : Nat → Nat) : Prop where
  count : ∀ r v c, h.cell r = some (v, c) → c = n r
  live : ∀ r, 0 < n r → ∃ v, h.get r = some v
  fresh : ∀ r, h.next ≤ r → h.cell r = none

variable {h : RcHeap β} {r : Nat}

theorem get_eq_some {v : β} : h.get r = some v ↔ ∃ c, h.cell r = some (v, c) := by
  simp [get, Option.map_eq_some_iff]

variable {n : Nat → Nat}

theorem Accounts.cell_eq (ha : Accounts h n) {v : β} (hg : h.get r = some v) : h.cell r = some (v, n r) := by
  obtain ⟨c, hc⟩ := get_eq_some.1 hg
  rw [hc, ha.count r v c hc]

theorem accounts_empty : Accounts (empty : RcHeap β) fun _ => 0 :=
  ⟨by simp [empty], by simp, by simp [empty]⟩

/-- Nothing refers to the next fresh address. -/
theorem Accounts.next_eq_zero (ha : Accounts h n) : n h.next = 0 := by
  by_contra hne
  obtain ⟨v, hv⟩ := ha.live h.next (Nat.pos_of_ne_zero hne)
  simp [get, ha.fresh h.next (Nat.le_refl _)] at hv

/-! ## Allocation -/

theorem alloc_get_self (h : RcHeap β) (v : β) : (h.alloc v).2.get (h.alloc v).1 = some v := by
  simp [alloc, get]

theorem Accounts.alloc (ha : Accounts h n) (v : β) : Accounts (h.alloc v).2 n := by
  have h0 := ha.next_eq_zero
  refine ⟨?_, ?_, ?_⟩
  · intro r w c hc
    by_cases hr : r = h.next
    · subst hr
      simp only [RcHeap.alloc, update_self, Option.some.injEq, Prod.mk.injEq] at hc
      omega
    · simp only [RcHeap.alloc, update_of_ne hr] at hc
      exact ha.count r w c hc
  · intro r hr
    have hne : r ≠ h.next := by
      rintro rfl
      omega
    obtain ⟨w, hw⟩ := ha.live r hr
    exact ⟨w, by simpa [RcHeap.alloc, get, update_of_ne hne] using hw⟩
  · intro r hr
    have hr' : h.next + 1 ≤ r := hr
    simp only [RcHeap.alloc, update_of_ne (by omega : r ≠ h.next)]
    exact ha.fresh r (by omega)

theorem alloc_get_of_ne (h : RcHeap β) (v : β) (hr : r ≠ h.next) : (h.alloc v).2.get r = h.get r := by
  simp [alloc, get, update_of_ne hr]

/-! ## Changing one cell -/

/-- Changing an allocated cell to one whose count is `k` changes the multiplicity there to `k`. -/
theorem Accounts.update (ha : Accounts h n) {v : β} (hg : h.get r = some v) {new : Option (β × Nat)} {k : Nat}
    (hcount : ∀ w d, new = some (w, d) → d = k) (hlive : 0 < k → ∃ w, new = some (w, k)) :
    Accounts ⟨Function.update h.cell r new, h.next⟩ (Function.update n r k) := by
  refine ⟨?_, ?_, ?_⟩
  · intro r' w d hd
    change Function.update h.cell r new r' = some (w, d) at hd
    by_cases hr : r' = r
    · subst hr
      rw [Function.update_self] at hd ⊢
      exact hcount w d hd
    · rw [Function.update_of_ne hr] at hd ⊢
      exact ha.count r' w d hd
  · intro r' hr'
    by_cases hr : r' = r
    · subst hr
      rw [Function.update_self] at hr'
      obtain ⟨w, hw⟩ := hlive hr'
      exact ⟨w, by simp [get, hw]⟩
    · rw [Function.update_of_ne hr] at hr'
      obtain ⟨w, hw⟩ := ha.live r' hr'
      exact ⟨w, by simpa [get, Function.update_of_ne hr] using hw⟩
  · intro r' hr'
    have hne : r' ≠ r := by
      rintro rfl
      simp [get, ha.fresh r' hr'] at hg
    show Function.update h.cell r new r' = none
    rw [Function.update_of_ne hne]
    exact ha.fresh r' hr'

/-- Other cells do not see the change. -/
theorem get_update_of_ne (h : RcHeap β) {r' : Nat} (hne : r' ≠ r) (new : Option (β × Nat)) :
    (⟨Function.update h.cell r new, h.next⟩ : RcHeap β).get r' = h.get r' := by
  simp [get, update_of_ne hne]

theorem put_eq (ha : Accounts h n) {v : β} (hg : h.get r = some v) (w : β) :
    ∃ h', h.put r w = some h' ∧ Accounts h' n ∧ h'.get r = some w ∧
      ∀ r', r' ≠ r → h'.get r' = h.get r' := by
  have hc := ha.cell_eq hg
  refine ⟨⟨update h.cell r (some (w, n r)), h.next⟩, by simp [put, hc], ?_, by simp [get],
    fun r' hr' => get_update_of_ne h hr' _⟩
  have key : Accounts ⟨update h.cell r (some (w, n r)), h.next⟩
      (update n r (n r)) := ha.update hg (by simp) (by simp)
  rwa [update_eq_self] at key

theorem incRef_eq (ha : Accounts h n) {v : β} (hg : h.get r = some v) :
    ∃ h', h.incRef r = some h' ∧ Accounts h' (Function.update n r (n r + 1)) ∧
      ∀ r', h'.get r' = h.get r' := by
  have hc := ha.cell_eq hg
  refine ⟨⟨update h.cell r (some (v, n r + 1)), h.next⟩, by simp [incRef, hc],
    ha.update hg (by simp) (by simp), ?_⟩
  intro r'
  by_cases hr : r' = r
  · subst hr
    simp [get, hc]
  · exact get_update_of_ne h hr _

/-- Dropping a reference keeps every cell that is still referred to, and makes up none. -/
theorem decRef_eq (ha : Accounts h n) (hr : 0 < n r) :
    ∃ h', h.decRef r = some h' ∧ Accounts h' (Function.update n r (n r - 1)) ∧
      (∀ r', 0 < Function.update n r (n r - 1) r' → h'.get r' = h.get r') ∧
      ∀ r' v, h'.get r' = some v → h.get r' = some v := by
  obtain ⟨v, hv⟩ := ha.live r hr
  have hc := ha.cell_eq hv
  obtain ⟨c, hcn⟩ : ∃ c, n r = c + 1 := ⟨n r - 1, by omega⟩
  rw [hcn] at hc
  have hsub : n r - 1 = c := by omega
  rw [hsub]
  refine ⟨⟨update h.cell r (if c = 0 then none else some (v, c)), h.next⟩,
    by simp [decRef, hc], ha.update hv ?_ ?_, ?_, ?_⟩
  · intro w d hd
    by_cases h0 : c = 0
    · simp [h0] at hd
    · simp only [h0, if_false, Option.some.injEq, Prod.mk.injEq] at hd
      exact hd.2.symm
  · intro h0
    exact ⟨v, by simp [Nat.ne_of_gt h0]⟩
  · intro r' hr'
    by_cases heq : r' = r
    · subst heq
      rw [update_self] at hr'
      simp [get, hc, Nat.ne_of_gt hr']
    · exact get_update_of_ne h heq _
  · intro r' w hw
    by_cases heq : r' = r
    · subst heq
      by_cases h0 : c = 0
      · simp [get, h0] at hw
      · simpa [get, h0, hc] using hw
    · rwa [get_update_of_ne h heq] at hw

end RcHeap

end Whispercast.Library
