import Mathlib.Data.List.Nodup
import Mathlib.Data.List.Pairwise

/-!
# Maps as lists of pairs

A map is the list of its entries, in the order in which they were first set (`setLast`) or in the order
of the keys (`setSorted`). Setting a key that is not there yet puts the entry at the end, respectively
before the first greater key.
-/

namespace Whispercast.Library

open List

namespace AssocList

variable {κ α : Type}

/-- The keys of the entries. -/
def keys (l : List (κ × α)) : List κ := l.map Prod.fst

@[simp] theorem keys_cons (e : κ × α) (l : List (κ × α)) : keys (e :: l) = e.1 :: keys l := rfl

@[simp] theorem keys_append (l l' : List (κ × α)) : keys (l ++ l') = keys l ++ keys l' := map_append

variable {l : List (κ × α)} {key : κ} {value : α}

/-- The value of an entry is found under its key when no key occurs twice. -/
theorem lookup_of_mem [BEq κ] [LawfulBEq κ] (hnodup : (keys l).Nodup) (h : (key, value) ∈ l) : l.lookup key = some value := by
  induction l with
  | nil => exact absurd h not_mem_nil
  | cons e l ih =>
    rw [keys_cons, nodup_cons] at hnodup
    rcases mem_cons.1 h with heq | hmem
    · rw [← heq, lookup_cons_self]
    · have hkey : key ∈ keys l := mem_map.2 ⟨(key, value), hmem, rfl⟩
      have hne : key ≠ e.1 := fun heq => hnodup.1 (heq ▸ hkey)
      rw [lookup_cons, beq_false_of_ne hne]
      exact ih hnodup.2 hmem

theorem lookup_eq_none [BEq κ] [LawfulBEq κ] : l.lookup key = none ↔ key ∉ keys l := by
  rw [lookup_eq_none_iff]
  constructor
  · intro h hmem
    obtain ⟨e, he, rfl⟩ := mem_map.1 hmem
    exact absurd (h e he) (by simp)
  · intro h e he
    have hne : key ≠ e.1 := fun heq => h (heq ▸ mem_map_of_mem he)
    simpa using hne

/-- The entry that is found under a key, and the others. -/
theorem perm_of_lookup [BEq κ] [LawfulBEq κ] (h : l.lookup key = some value) :
    l.Perm ((key, value) :: l.eraseP fun e => e.1 == key) := by
  induction l with
  | nil => cases h
  | cons e l ih =>
    by_cases hkey : key = e.1
    · subst hkey
      rw [lookup_cons_self] at h
      cases h
      rw [eraseP_cons_of_pos (by simp)]
    · rw [lookup_cons, beq_false_of_ne hkey] at h
      rw [eraseP_cons_of_neg (by simpa using Ne.symm hkey)]
      exact ((ih h).cons e).trans (Perm.swap _ _ _)

theorem mem_of_lookup [BEq κ] [LawfulBEq κ] (h : l.lookup key = some value) : (key, value) ∈ l :=
  (perm_of_lookup h).symm.subset mem_cons_self

/-- What is left when the entry of a key is taken out. -/
theorem eraseP_perm [BEq κ] [LawfulBEq κ] {rest : List (κ × α)}
    (h : l.Perm ((key, value) :: rest)) (hnodup : (keys l).Nodup) : (l.eraseP fun e => e.1 == key).Perm rest := by
  have hlookup := lookup_of_mem hnodup (h.symm.subset mem_cons_self)
  exact ((perm_of_lookup hlookup).symm.trans h).cons_inv

section SetLast

variable [DecidableEq κ]

/-- Overwrite the value of a key in its place, or put the entry at the end. -/
def setLast (key : κ) (value : α) : List (κ × α) → List (κ × α)
  | [] => [(key, value)]
  | (k, v) :: rest => if k = key then (key, value) :: rest else (k, v) :: setLast key value rest

theorem setLast_of_not_mem {key : κ} (value : α) {l : List (κ × α)} (h : key ∉ keys l) :
    setLast key value l = l ++ [(key, value)] := by
  induction l with
  | nil => rfl
  | cons e l ih =>
    rw [keys_cons, mem_cons, not_or] at h
    rw [setLast, if_neg (Ne.symm h.1), ih h.2, cons_append]

end SetLast

section SetSorted

variable [LT κ] [DecidableLT κ] [DecidableEq κ]

/-- Overwrite the value of a key, or put the entry before the first greater key. -/
def setSorted (key : κ) (value : α) : List (κ × α) → List (κ × α)
  | [] => [(key, value)]
  | (k, v) :: rest =>
    if key < k then (key, value) :: (k, v) :: rest
    else if k = key then (key, value) :: rest
    else (k, v) :: setSorted key value rest

variable {l : List (κ × α)}

/-- A key above all others goes to the end. -/
theorem setSorted_of_lt [Std.Asymm fun a b : κ => a < b] {key : κ} (value : α) (h : ∀ k ∈ keys l, k < key) :
    setSorted key value l = l ++ [(key, value)] := by
  induction l with
  | nil => rfl
  | cons e l ih =>
    have hlt : e.1 < key := h e.1 mem_cons_self
    have hge : ¬ key < e.1 := Std.Asymm.asymm _ _ hlt
    have hne : e.1 ≠ key := by
      intro heq
      rw [heq] at hlt hge
      exact hge hlt
    rw [setSorted, if_neg hge, if_neg hne, ih fun k hk => h k (mem_cons_of_mem _ hk),
      cons_append]

theorem lookup_setSorted [BEq κ] [LawfulBEq κ] (key k : κ) (value : α) (l : List (κ × α)) :
    (setSorted key value l).lookup k = if k = key then some value else l.lookup k := by
  have hcons : ∀ (e : κ × α) (l : List (κ × α)), k ≠ e.1 → (e :: l).lookup k = l.lookup k := by
    intro e l hne
    rw [lookup_cons, beq_false_of_ne hne]
  induction l with
  | nil =>
    rw [setSorted]
    by_cases hk : k = key
    · rw [if_pos hk, hk, lookup_cons_self]
    · rw [if_neg hk, hcons _ _ hk]
  | cons e l ih =>
    rw [setSorted]
    by_cases hk : k = key
    · rw [if_pos hk] at ih ⊢
      split_ifs with hlt heq
      · rw [hk, lookup_cons_self]
      · rw [hk, lookup_cons_self]
      · rw [hcons _ _ (fun hke => heq (hke.symm.trans hk)), ih]
    · rw [if_neg hk] at ih ⊢
      split_ifs with hlt heq
      · rw [hcons _ _ hk]
      · rw [hcons _ _ hk, hcons _ _ (fun hke => hk (hke.trans heq))]
      · rw [lookup_cons, lookup_cons, ih]

/-- An entry more for a key that is not there yet. -/
theorem setSorted_perm (key : κ) (value : α) (h : key ∉ keys l) :
    (setSorted key value l).Perm ((key, value) :: l) := by
  induction l with
  | nil => exact Perm.refl _
  | cons e l ih =>
    rw [keys_cons, mem_cons, not_or] at h
    rw [setSorted]
    split_ifs with hlt heq
    · exact Perm.refl _
    · exact absurd heq.symm h.1
    · exact ((ih h.2).cons e).trans (Perm.swap _ _ _)

/-- In a map that is in order the entry of a key that was set is the only one with this key. -/
theorem setSorted_split [Std.Irrefl fun a b : κ => a < b] [IsTrans κ fun a b : κ => a < b] (key : κ) (value : α)
    {l : List (κ × α)} (hsorted : (keys l).Pairwise (· < ·)) :
    ∃ pre post, setSorted key value l = pre ++ (key, value) :: post ∧
      ∀ e ∈ pre ++ post, e ∈ l ∧ e.1 ≠ key := by
  induction l with
  | nil => exact ⟨[], [], rfl, fun e he => by cases he⟩
  | cons e l ih =>
    rw [keys_cons, pairwise_cons] at hsorted
    have hbehind : ∀ e' ∈ l, e.1 < e'.1 := fun e' he' => hsorted.1 e'.1 (mem_map_of_mem he')
    rw [setSorted]
    split_ifs with hlt heq
    · refine ⟨[], e :: l, rfl, fun e' he' => ⟨he', ?_⟩⟩
      rintro rfl
      rcases mem_cons.1 he' with rfl | hmem
      · exact Std.Irrefl.irrefl (r := fun a b : κ => a < b) _ hlt
      · exact Std.Irrefl.irrefl (r := fun a b : κ => a < b) _ (IsTrans.trans _ _ _ hlt (hbehind e' hmem))
    · refine ⟨[], l, rfl, fun e' he' => ⟨mem_cons_of_mem _ he', ?_⟩⟩
      rintro rfl
      have hself := hbehind e' he'
      rw [heq] at hself
      exact Std.Irrefl.irrefl (r := fun a b : κ => a < b) _ hself
    · obtain ⟨pre, post, hsplit, hother⟩ := ih hsorted.2
      refine ⟨e :: pre, post, by rw [hsplit]; rfl, ?_⟩
      intro e' he'
      rcases mem_cons.1 he' with rfl | hmem
      · exact ⟨mem_cons_self, heq⟩
      · exact ⟨mem_cons_of_mem _ (hother e' hmem).1, (hother e' hmem).2⟩

theorem mem_keys_setSorted {key k : κ} {value : α} : k ∈ keys (setSorted key value l) ↔ k = key ∨ k ∈ keys l := by
  induction l with
  | nil => simp [setSorted]
  | cons e l ih =>
    rw [setSorted]
    split_ifs with hlt heq
    · simp
    · simp [heq]
    · rw [keys_cons, keys_cons, mem_cons, mem_cons, ih, or_left_comm]

/-- A map that is in order stays so. -/
theorem setSorted_sorted [Std.Trichotomous fun a b : κ => a < b] [IsTrans κ fun a b : κ => a < b] (key : κ) (value : α)
    {l : List (κ × α)} (hsorted : (keys l).Pairwise (· < ·)) : (keys (setSorted key value l)).Pairwise (· < ·) := by
  induction l with
  | nil => exact pairwise_singleton _ _
  | cons e l ih =>
    have hcons := hsorted
    rw [keys_cons, pairwise_cons] at hcons
    rw [setSorted]
    split_ifs with hlt heq
    · rw [keys_cons, pairwise_cons]
      refine ⟨fun k hk => ?_, hsorted⟩
      rcases mem_cons.1 hk with rfl | hk
      · exact hlt
      · exact IsTrans.trans _ _ _ hlt (hcons.1 k hk)
    · rw [keys_cons, pairwise_cons]
      exact ⟨fun k hk => heq ▸ hcons.1 k hk, hcons.2⟩
    · rw [keys_cons, pairwise_cons]
      refine ⟨fun k hk => ?_, ih hcons.2⟩
      rcases mem_keys_setSorted.1 hk with rfl | hk
      · by_contra hnot
        exact heq (Std.Trichotomous.trichotomous (r := fun a b : κ => a < b) _ _ hnot hlt)
      · exact hcons.1 k hk

end SetSorted

/-- Entries are kept by their keys. -/
theorem lookup_filter_keys [BEq κ] [LawfulBEq κ] (p : κ → Bool) (k : κ) (l : List (κ × α)) :
    (l.filter fun e => p e.1).lookup k = if p k then l.lookup k else none := by
  induction l with
  | nil => simp
  | cons e l ih =>
    by_cases hk : k = e.1
    · subst hk
      cases hp : p e.1 with
      | true =>
        have hkept : (e :: l).filter (fun e => p e.1) = e :: l.filter fun e => p e.1 :=
          filter_cons_of_pos (p := fun e : κ × α => p e.1) hp
        rw [hkept, if_pos rfl, lookup_cons, lookup_cons, beq_self_eq_true]
      | false =>
        rw [hp, if_neg (by decide)] at ih
        rw [filter_cons_of_neg (by simp [hp]), ih, if_neg (by decide)]
    · have hcons : ∀ l : List (κ × α), (e :: l).lookup k = l.lookup k := fun l => by
        rw [lookup_cons, beq_false_of_ne hk]
      rw [hcons, ← ih]
      cases hp : p e.1 with
      | true => rw [filter_cons_of_pos (p := fun e : κ × α => p e.1) hp, hcons]
      | false => rw [filter_cons_of_neg (by simp [hp])]

theorem lookup_filter_ne [BEq κ] [LawfulBEq κ] [DecidableEq κ] (key k : κ) (l : List (κ × α)) :
    (l.filter fun e => e.1 ≠ key).lookup k = if k = key then none else l.lookup k := by
  rw [lookup_filter_keys (fun k => decide (k ≠ key))]
  by_cases hk : k = key <;> simp [hk]

/-- In a map that is in order no key occurs twice. -/
theorem nodup_of_sorted [LT κ] [Std.Irrefl fun a b : κ => a < b]
    (hsorted : (keys l).Pairwise (· < ·)) : (keys l).Nodup := by
  refine hsorted.imp ?_
  rintro a b hlt rfl
  exact Std.Irrefl.irrefl (r := fun a b : κ => a < b) a hlt

/-- A map that is in order is known by what is found in it. -/
theorem eq_of_lookup [LT κ] [Std.Asymm fun a b : κ => a < b] [Std.Irrefl fun a b : κ => a < b] [BEq κ] [LawfulBEq κ]
    {l' : List (κ × α)} (hsorted : (keys l).Pairwise (· < ·)) (hsorted' : (keys l').Pairwise (· < ·))
    (h : ∀ key, l.lookup key = l'.lookup key) : l = l' := by
  have hmem : ∀ {l : List (κ × α)}, (keys l).Pairwise (· < ·) → ∀ e, e ∈ l ↔ l.lookup e.1 = some e.2 := by
    intro l hl e
    constructor
    · exact fun he => lookup_of_mem (nodup_of_sorted hl) he
    · intro he
      obtain ⟨-, -, rfl, -⟩ := lookup_eq_some_iff.1 he
      exact mem_append_right _ mem_cons_self
  have hperm : l.Perm l' := by
    refine (perm_ext_iff_of_nodup (Nodup.of_map _ (nodup_of_sorted hsorted))
      (Nodup.of_map _ (nodup_of_sorted hsorted'))).2 fun e => ?_
    rw [hmem hsorted, hmem hsorted', h]
  have hanti : ∀ a b : κ × α, a ∈ l → b ∈ l' → a.1 < b.1 → b.1 < a.1 → a = b := fun a b _ _ hab hba =>
    absurd hba (Std.Asymm.asymm _ _ hab)
  exact hperm.eq_of_pairwise hanti (pairwise_map.1 hsorted) (pairwise_map.1 hsorted')

end AssocList

end Whispercast.Library
