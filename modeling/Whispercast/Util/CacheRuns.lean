import Whispercast.Util.Cache

/-!
# Runs of the cache

The invariant says that the three indexes are permutations of what the allocated items say about themselves. Deleting an
item keeps it, and so do expiring, evicting, and using items; an item that is added has a new use number and expires last.
`Clear` forgets `items_by_exp_`, so the invariant survives it only where there is nothing to clear.
-/

namespace Whispercast.Util

open Library Cache List AssocList

namespace Cache

variable {K V : Type} [DecidableEq K]

/-- What should hold of the indexes and the values that were returned.

* Each index refers to the live items, under what they say of themselves.
* An item that is before another one in `items_by_exp_` does not expire later.
* There are at most `max_size_` items.
* A returned value had not expired, and it was the last one added under its key. -/
structure Consistent (max_size_ : Nat) (s : Cache K V) : Prop where
  items : ∀ key address, (key, address) ∈ s.items_ ↔ ∃ item, (address, item) ∈ s.heap ∧ item.key = key
  byUse : ∀ use address, (use, address) ∈ s.items_by_use_ ↔ ∃ item, (address, item) ∈ s.heap ∧ item.use_ = use
  byExp : ∀ address, address ∈ s.items_by_exp_ ↔ ∃ item, (address, item) ∈ s.heap
  sorted : s.items_by_exp_.Pairwise fun a b => ∀ i j, (a, i) ∈ s.heap → (b, j) ∈ s.heap →
    i.expiration_ts_ ≤ j.expiration_ts_
  size : s.items_.length ≤ max_size_
  returned : ∀ r ∈ s.returned, r.now < r.expiration_ts ∧ r.lastAdded = some r.value

/-- The invariant: every index is a permutation of the live items. -/
structure Inv (s : Cache K V) : Prop where
  nodup : (AssocList.keys s.heap).Nodup
  allocated : ∀ address ∈ AssocList.keys s.heap, address < s.nextItem
  items : s.items_.Perm (s.heap.map fun e => (e.2.key, e.1))
  byUse : s.items_by_use_.Perm (s.heap.map fun e => (e.2.use_, e.1))
  byExp : s.items_by_exp_.Perm (AssocList.keys s.heap)
  itemKeys : (AssocList.keys s.items_).Nodup
  useKeys : (AssocList.keys s.items_by_use_).Nodup
  sorted : s.items_by_exp_.Pairwise fun a b => ∀ i j, (a, i) ∈ s.heap → (b, j) ∈ s.heap →
    i.expiration_ts_ ≤ j.expiration_ts_
  last : ∀ e ∈ s.heap, s.added.lookup e.2.key = some e.2.value_
  returned : ∀ r ∈ s.returned, r.now < r.expiration_ts ∧ r.lastAdded = some r.value

variable {s s' : Cache K V} {address : Nat} {item : Item K V} {max_size_ : Nat}

theorem init_inv : ({} : Cache K V).Inv where
  nodup := nodup_nil
  allocated := fun _ h => absurd h not_mem_nil
  items := Perm.refl _
  byUse := Perm.refl _
  byExp := Perm.refl _
  itemKeys := nodup_nil
  useKeys := nodup_nil
  sorted := Pairwise.nil
  last := fun _ h => absurd h not_mem_nil
  returned := fun _ h => absurd h not_mem_nil

/-- The indexes of an invariant refer to the live items. -/
theorem Inv.consistent (h : s.Inv) (hsize : s.items_.length ≤ max_size_) : s.Consistent max_size_ := by
  refine ⟨?_, ?_, ?_, h.sorted, hsize, h.returned⟩
  · intro key address
    rw [h.items.mem_iff, mem_map]
    constructor
    · rintro ⟨e, he, heq⟩
      cases heq
      exact ⟨e.2, he, rfl⟩
    · rintro ⟨item, hmem, rfl⟩
      exact ⟨(address, item), hmem, rfl⟩
  · intro use address
    rw [h.byUse.mem_iff, mem_map]
    constructor
    · rintro ⟨e, he, heq⟩
      cases heq
      exact ⟨e.2, he, rfl⟩
    · rintro ⟨item, hmem, rfl⟩
      exact ⟨(address, item), hmem, rfl⟩
  · intro address
    rw [h.byExp.mem_iff, AssocList.keys, mem_map]
    constructor
    · rintro ⟨e, he, rfl⟩
      exact ⟨e.2, he⟩
    · rintro ⟨item, hmem⟩
      exact ⟨(address, item), hmem, rfl⟩

theorem Inv.length_eq (h : s.Inv) : s.items_.length = s.heap.length := by
  rw [h.items.length_eq, length_map]

theorem Inv.lookup (h : s.Inv) (hmem : (address, item) ∈ s.heap) : s.heap.lookup address = some item :=
  lookup_of_mem h.nodup hmem

/-- The address that is found under a key is that of a live item with this key. -/
theorem Inv.item_of_lookup (h : s.Inv) {key : K} (hlookup : s.items_.lookup key = some address) :
    ∃ item, (address, item) ∈ s.heap ∧ item.key = key := by
  obtain ⟨e, he, heq⟩ := mem_map.1 (h.items.subset (mem_of_lookup hlookup))
  cases heq
  exact ⟨e.2, he, rfl⟩

/-! ## Deleting items -/

/-- What a deletion leaves: some of the items, and all that is not an index. -/
structure Shrinks (s s' : Cache K V) : Prop where
  heap : ∀ e ∈ s'.heap, e ∈ s.heap
  items : ∀ e ∈ s'.items_, e ∈ s.items_
  length : s'.items_.length ≤ s.items_.length
  use : s'.next_use_ = s.next_use_
  uses : ∀ use ∈ AssocList.keys s'.items_by_use_, use ∈ AssocList.keys s.items_by_use_

omit [DecidableEq K] in
theorem Shrinks.refl (s : Cache K V) : Shrinks s s :=
  ⟨fun _ h => h, fun _ h => h, Nat.le_refl _, rfl, fun _ h => h⟩

omit [DecidableEq K] in
theorem Shrinks.trans {s₁ s₂ s₃ : Cache K V} (h : Shrinks s₁ s₂) (h' : Shrinks s₂ s₃) : Shrinks s₁ s₃ :=
  ⟨fun e he => h.heap e (h'.heap e he), fun e he => h.items e (h'.items e he), Nat.le_trans h'.length h.length,
    h'.use.trans h.use, fun use hu => h.uses use (h'.uses use hu)⟩

section

variable (h : s.Inv)

include h

/-- `DelItem` deletes a live item from the three indexes. -/
theorem Inv.delItem (hmem : (address, item) ∈ s.heap) :
    ∃ s', s.delItem address = some s' ∧ s'.Inv ∧ Shrinks s s' ∧ s'.items_.length + 1 = s.items_.length ∧
      s'.items_by_exp_ = s.items_by_exp_.erase address ∧ item.key ∉ AssocList.keys s'.items_ := by
  have hlookup := h.lookup hmem
  have hheap := perm_of_lookup hlookup
  have hitems := h.items.trans (hheap.map fun e => (e.2.key, e.1))
  have hbyUse := h.byUse.trans (hheap.map fun e => (e.2.use_, e.1))
  have hbyExp := h.byExp.trans (hheap.map Prod.fst)
  rw [List.map_cons] at hitems hbyUse hbyExp
  have hitems' := eraseP_perm hitems h.itemKeys
  have hbyUse' := eraseP_perm hbyUse h.useKeys
  have hbyExp' := hbyExp.erase address
  rw [erase_cons_head] at hbyExp'
  have hsub : (s.heap.eraseP fun e => e.1 == address).Sublist s.heap := eraseP_sublist
  rw [Cache.delItem, hlookup]
  refine ⟨_, rfl, ⟨h.nodup.sublist (hsub.map Prod.fst), ?_, hitems', hbyUse', hbyExp',
    h.itemKeys.sublist (eraseP_sublist.map Prod.fst), h.useKeys.sublist (eraseP_sublist.map Prod.fst), ?_,
    fun e he => h.last e (hsub.subset he), h.returned⟩, ?_, ?_, rfl, ?_⟩
  · intro a ha
    exact h.allocated a ((hsub.map Prod.fst).subset ha)
  · refine (h.sorted.sublist List.erase_sublist).imp ?_
    intro a b hab i j hi hj
    exact hab i j (hsub.subset hi) (hsub.subset hj)
  · exact ⟨fun e he => hsub.subset he, fun e he => eraseP_sublist.subset he, eraseP_sublist.length_le, rfl,
      fun use hu => (eraseP_sublist.map Prod.fst).subset hu⟩
  · have hlength := hitems.length_eq
    have hlength' := hitems'.length_eq
    exact (congrArg (· + 1) hlength').trans hlength.symm
  · have hkeys := hitems.map Prod.fst
    have hnot := (nodup_cons.1 (hkeys.nodup_iff.1 h.itemKeys)).1
    intro hin
    exact hnot ((hitems'.map Prod.fst).subset hin)

/-- The items that are expired are a prefix of `items_by_exp_`, up to one that expires in the future. -/
theorem Inv.expired (now : Int) {addresses : List Nat} (hsub : addresses.Sublist s.items_by_exp_) :
    ∃ to_del rest, Cache.expired s.heap now addresses = some to_del ∧ addresses = to_del ++ rest ∧
      ∀ a ∈ rest, ∀ i, (a, i) ∈ s.heap → now < i.expiration_ts_ := by
  induction addresses with
  | nil => exact ⟨[], [], rfl, rfl, fun a ha => absurd ha not_mem_nil⟩
  | cons first addresses ih =>
    have hfirst : first ∈ keys s.heap := h.byExp.subset (hsub.subset mem_cons_self)
    obtain ⟨e, he, rfl⟩ := mem_map.1 hfirst
    have hsorted := List.pairwise_cons.1 (h.sorted.sublist hsub)
    rw [Cache.expired, h.lookup he]
    by_cases hlive : now < e.2.expiration_ts_
    · -- the items behind one that expires in the future expire later
      refine ⟨[], e.1 :: addresses, if_pos hlive, rfl, ?_⟩
      intro a ha i hi
      rcases mem_cons.1 ha with rfl | hmem
      · have hsame := (h.lookup hi).symm.trans (h.lookup he)
        rw [Option.some.inj hsame]
        exact hlive
      · exact Int.lt_of_lt_of_le hlive (hsorted.1 a hmem e.2 i he hi)
    · obtain ⟨to_del, rest, hexpired, rfl, hrest⟩ := ih ((List.sublist_cons_self _ _).trans hsub)
      refine ⟨e.1 :: to_del, rest, ?_, rfl, hrest⟩
      rw [Option.bind_eq_bind, Option.bind_some, if_neg hlive, hexpired]
      rfl

/-- Live items are deleted one after another. -/
theorem Inv.delItems {to_del rest : List Nat} (hperm : s.items_by_exp_ = to_del ++ rest) :
    ∃ s', Cache.delItems to_del s = some s' ∧ s'.Inv ∧ Shrinks s s' ∧ s'.items_by_exp_ = rest := by
  induction to_del generalizing s with
  | nil => exact ⟨s, rfl, h, Shrinks.refl s, hperm⟩
  | cons first to_del ih =>
    have hfirst : first ∈ s.items_by_exp_ := by
      rw [hperm]
      exact mem_cons_self
    obtain ⟨e, he, rfl⟩ := mem_map.1 (h.byExp.subset hfirst)
    obtain ⟨_, hdel, hinv, hshrinks, -, hexp, -⟩ := h.delItem he
    rw [hperm, cons_append, erase_cons_head] at hexp
    obtain ⟨s', hrun, hinv', hshrinks', hrest⟩ := ih hinv hexp
    refine ⟨s', ?_, hinv', hshrinks.trans hshrinks', hrest⟩
    rw [delItems, hdel]
    exact hrun

/-- `ExpireSomeCache` leaves the items that expire in the future. -/
theorem Inv.expireSomeCache (now : Int) :
    ∃ s', s.expireSomeCache now = some s' ∧ s'.Inv ∧ Shrinks s s' ∧ ∀ e ∈ s'.heap, now < e.2.expiration_ts_ := by
  obtain ⟨_, _, hexpired, hsplit, hrest⟩ := h.expired now (List.Sublist.refl _)
  obtain ⟨s', hdel, hinv, hshrinks, hexp⟩ := h.delItems hsplit
  refine ⟨s', ?_, hinv, hshrinks, ?_⟩
  · rw [Cache.expireSomeCache, hexpired]
    exact hdel
  · intro e he
    have hmem : e.1 ∈ s'.items_by_exp_ := hinv.byExp.symm.subset (List.mem_map_of_mem he)
    rw [hexp] at hmem
    exact hrest e.1 hmem e.2 (hshrinks.heap e he)

/-- Every algorithm chooses a live item where there is one. -/
theorem Inv.toDel (algorithm : Algorithm) (hne : s.items_by_use_ ≠ []) :
    ∃ e ∈ s.heap, s.toDel algorithm = some e.1 := by
  have hused : ∀ e ∈ s.items_by_use_, ∃ e' ∈ s.heap, e.2 = e'.1 := by
    intro e he
    obtain ⟨e', he', rfl⟩ := mem_map.1 (h.byUse.subset he)
    exact ⟨e', he', rfl⟩
  cases algorithm with
  | lru =>
    obtain ⟨e', he', heq⟩ := hused _ (List.head_mem hne)
    exact ⟨e', he', by rw [Cache.toDel, List.head?_eq_some_head hne, Option.map_some, heq]⟩
  | mru =>
    obtain ⟨e', he', heq⟩ := hused _ (List.getLast_mem hne)
    exact ⟨e', he', by rw [Cache.toDel, List.getLast?_eq_some_getLast hne, Option.map_some, heq]⟩
  | random =>
    have hitems : s.items_ ≠ [] := by
      intro hnil
      have hlength := h.byUse.length_eq
      rw [length_map, ← h.length_eq, hnil] at hlength
      exact hne (List.eq_nil_of_length_eq_zero hlength)
    obtain ⟨e', he', heq⟩ := mem_map.1 (h.items.subset (List.head_mem hitems))
    exact ⟨e', he', by rw [Cache.toDel, List.head?_eq_some_head hitems, Option.map_some, ← heq]⟩

/-- `DelByAlgorithm` deletes one item where there is one. -/
theorem Inv.delByAlgorithm (algorithm : Algorithm) (hpos : 0 < s.items_.length) :
    ∃ s', s.delByAlgorithm algorithm = some s' ∧ s'.Inv ∧ Shrinks s s' ∧ s'.items_.length + 1 = s.items_.length := by
  have hne : s.items_by_use_ ≠ [] := by
    intro hnil
    have hlength := h.byUse.length_eq
    rw [length_map, ← h.length_eq, hnil] at hlength
    exact absurd hpos (by rw [← hlength]; exact Nat.lt_irrefl 0)
  obtain ⟨e, he, hchoose⟩ := h.toDel algorithm hne
  obtain ⟨s', hdel, hinv, hshrinks, hlength, -, -⟩ := h.delItem he
  refine ⟨s', ?_, hinv, hshrinks, hlength⟩
  rw [Cache.delByAlgorithm, if_neg hne, hchoose]
  exact hdel

/-! ## Using items -/

/-- A live item gets a use number that no item has. -/
theorem Inv.touch (hmem : (address, item) ∈ s.heap)
    (hfresh : s.next_use_ ∉ AssocList.keys s.items_by_use_) : (s.touch address item).Inv := by
  have hheap := perm_of_lookup (h.lookup hmem)
  have hbyUse := h.byUse.trans (hheap.map fun e => (e.2.use_, e.1))
  have hbyUse' := eraseP_perm hbyUse h.useKeys
  have hfresh' : s.next_use_ ∉ keys (s.items_by_use_.eraseP fun e => e.1 == item.use_) :=
    fun hin => hfresh ((eraseP_sublist.map Prod.fst).subset hin)
  have hset := setSorted_perm s.next_use_ address hfresh'
  have hkeys : (keys (s.touch address item).heap).Perm (keys s.heap) := (hheap.map Prod.fst).symm
  -- an item is what it was, but for its use number
  have hsame : ∀ e ∈ (s.touch address item).heap, ∃ i, (e.1, i) ∈ s.heap ∧ i.key = e.2.key ∧ i.value_ = e.2.value_ ∧
      i.expiration_ts_ = e.2.expiration_ts_ := by
    intro e he
    rcases mem_cons.1 he with rfl | hother
    · exact ⟨item, hmem, rfl, rfl, rfl⟩
    · exact ⟨e.2, eraseP_sublist.subset hother, rfl, rfl, rfl⟩
  refine ⟨hkeys.nodup_iff.2 h.nodup, fun a ha => h.allocated a (hkeys.subset ha), ?_, ?_, h.byExp.trans hkeys.symm,
    h.itemKeys, ?_, ?_, ?_, h.returned⟩
  · exact h.items.trans (hheap.map fun e => (e.2.key, e.1))
  · exact hset.trans (hbyUse'.cons _)
  · refine (hset.map Prod.fst).nodup_iff.2 (nodup_cons.2 ⟨hfresh', ?_⟩)
    exact h.useKeys.sublist (eraseP_sublist.map Prod.fst)
  · refine h.sorted.imp ?_
    intro a b hab i j hi hj
    obtain ⟨i', hi', -, -, heqi⟩ := hsame _ hi
    obtain ⟨j', hj', -, -, heqj⟩ := hsame _ hj
    rw [← heqi, ← heqj]
    exact hab i' j' hi' hj'
  · intro e he
    obtain ⟨i, hi, hkey, hvalue, -⟩ := hsame e he
    rw [← hkey, ← hvalue]
    exact h.last _ hi

/-- An item that has not expired is given out. -/
theorem Inv.giveOut {now : Int} (hlast : s.added.lookup item.key = some item.value_)
    (hlive : now < item.expiration_ts_) : (s.giveOut now item).Inv := by
  refine ⟨h.nodup, h.allocated, h.items, h.byUse, h.byExp, h.itemKeys, h.useKeys, h.sorted, h.last, ?_⟩
  intro r hr
  rcases mem_append.1 hr with hold | hnew
  · exact h.returned r hold
  · rw [mem_singleton.1 hnew]
    exact ⟨hlive, hlast⟩

/-- All entries of a list are given out. -/
theorem Inv.giveOutAll {now : Int} (hlive : ∀ e ∈ s.heap, now < e.2.expiration_ts_) {entries : List (K × Nat)}
    (hentries : ∀ e ∈ entries, e ∈ s.items_) :
    ∃ s', Cache.giveOutAll now entries s = some s' ∧ s'.Inv ∧ s'.items_ = s.items_ := by
  induction entries generalizing s with
  | nil => exact ⟨s, rfl, h, rfl⟩
  | cons e entries ih =>
    obtain ⟨e', he', rfl⟩ := mem_map.1 (h.items.subset (hentries e mem_cons_self))
    obtain ⟨s', hrun, hinv, hitems⟩ := ih (h.giveOut (h.last e' he') (hlive e' he')) hlive
      fun e he => hentries e (mem_cons_of_mem _ he)
    refine ⟨s', ?_, hinv, hitems⟩
    rw [giveOutAll, h.lookup he']
    exact hrun

end

/-! ## Adding items -/

section Adding

variable [LT K] [DecidableLT K]

/-- A new item: its key is not there, its use number is new, and it expires last. -/
theorem Inv.insert (h : s.Inv) {key : K} (value : V) {expiration_ts : Int} (hkey : key ∉ AssocList.keys s.items_)
    (hfresh : s.next_use_ ∉ AssocList.keys s.items_by_use_) (hexp : ∀ e ∈ s.heap, e.2.expiration_ts_ ≤ expiration_ts) :
    (s.insert key value expiration_ts).Inv ∧
      (s.insert key value expiration_ts).items_.length = s.items_.length + 1 := by
  have hnone : s.items_.lookup key = none := AssocList.lookup_eq_none.2 hkey
  have hitems : (s.insert key value expiration_ts).items_.Perm ((key, s.nextItem) :: s.items_) := by
    rw [Cache.insert, if_pos hnone]
    exact setSorted_perm key s.nextItem hkey
  have hbyUse := setSorted_perm s.next_use_ s.nextItem hfresh
  have hnew : s.nextItem ∉ keys s.heap := fun hin => Nat.lt_irrefl _ (h.allocated _ hin)
  have hold : ∀ a ∈ s.items_by_exp_, ∀ i, (a, i) ∈ (s.insert key value expiration_ts).heap → (a, i) ∈ s.heap := by
    intro a ha i hi
    rcases mem_cons.1 hi with heq | hmem
    · obtain rfl : a = s.nextItem := congrArg Prod.fst heq
      exact absurd (h.byExp.subset ha) hnew
    · exact hmem
  refine ⟨⟨nodup_cons.2 ⟨hnew, h.nodup⟩, ?_, hitems.trans (h.items.cons _), hbyUse.trans (h.byUse.cons _), ?_,
    (hitems.map Prod.fst).nodup_iff.2 (nodup_cons.2 ⟨hkey, h.itemKeys⟩),
    (hbyUse.map Prod.fst).nodup_iff.2 (nodup_cons.2 ⟨hfresh, h.useKeys⟩), ?_, ?_, h.returned⟩, ?_⟩
  · intro a ha
    rcases mem_cons.1 ha with rfl | hmem
    · exact Nat.lt_succ_self _
    · exact Nat.lt_succ_of_lt (h.allocated a hmem)
  · exact (List.perm_append_singleton _ _).trans (h.byExp.cons _)
  · refine List.pairwise_append.2 ⟨?_, List.pairwise_singleton _ _, ?_⟩
    · refine h.sorted.imp_of_mem ?_
      intro a b ha hb hab i j hi hj
      exact hab i j (hold a ha i hi) (hold b hb j hj)
    · intro a ha b hb i j hi hj
      obtain rfl := mem_singleton.1 hb
      have hle := hexp _ (hold a ha i hi)
      rcases mem_cons.1 hj with heq | hmem
      · obtain rfl := congrArg Prod.snd heq
        exact hle
      · exact absurd (List.mem_map_of_mem hmem) hnew
  · intro e he
    rcases mem_cons.1 he with rfl | hmem
    · exact List.lookup_cons_self
    · have hne : e.2.key ≠ key := by
        intro heq
        have hin : (e.2.key, e.1) ∈ s.items_ := h.items.symm.subset (mem_map.2 ⟨e, hmem, rfl⟩)
        rw [heq] at hin
        exact hkey (List.mem_map_of_mem hin)
      rw [Cache.insert, List.lookup_cons, beq_false_of_ne hne]
      exact h.last e hmem
  · rw [hitems.length_eq, List.length_cons]

/-- `Add` for a key that is not there. -/
theorem Inv.addNew (h : s.Inv) (config : CacheConfig K) (hmax : 1 ≤ config.max_size_.toNat)
    (hsize : s.items_.length ≤ config.max_size_.toNat) {later : Int} {key : K} (value : V)
    (hkey : key ∉ AssocList.keys s.items_) (hfresh : s.next_use_ ∉ AssocList.keys s.items_by_use_)
    (hexp : ∀ e ∈ s.heap, e.2.expiration_ts_ ≤ expirationTs config later) :
    ∃ s', s.addNew config later key value = some s' ∧ s'.Inv ∧ s'.items_.length ≤ config.max_size_.toNat := by
  rw [Cache.addNew]
  by_cases hfull : config.max_size_.toNat ≤ s.items_.length
  · rw [if_pos hfull]
    obtain ⟨s₁, hdel, hinv, hshrinks, _⟩ := h.delByAlgorithm config.algorithm_ (by omega)
    have hkey₁ : key ∉ keys s₁.items_ := by
      intro hin
      obtain ⟨e, he, rfl⟩ := mem_map.1 hin
      exact hkey (List.mem_map_of_mem (hshrinks.items e he))
    obtain ⟨hinv', hlength'⟩ := hinv.insert value hkey₁
      (by rw [hshrinks.use]; exact fun hin => hfresh (hshrinks.uses _ hin)) fun e he => hexp e (hshrinks.heap e he)
    rw [hdel]
    exact ⟨s₁.insert key value (expirationTs config later), rfl, hinv', by omega⟩
  · rw [if_neg hfull]
    obtain ⟨hinv', hlength'⟩ := h.insert value hkey hfresh hexp
    exact ⟨_, rfl, hinv', by omega⟩

end Adding

/-! ## Operations -/

/-- What keeps the indexes in order. An item that is added has a new use number, and does not expire before one that is
alive; `Get` gives a new use number; `GetPathBased`, which does not expire items, finds none that has expired; and nothing
is cleared that was not deleted before. -/
def InOrder (config : CacheConfig K) (s : Cache K V) : Event K V → Prop
  | .add now later _ _ _ => s.next_use_ ∉ AssocList.keys s.items_by_use_ ∧
      ∀ e ∈ s.heap, now < e.2.expiration_ts_ → e.2.expiration_ts_ ≤ expirationTs config later
  | .get _ _ => s.next_use_ ∉ AssocList.keys s.items_by_use_
  | .getPathBased now key => ∀ e ∈ s.heap, s.findPathBased config key = some e.1 → now < e.2.expiration_ts_
  | .clear => s.items_by_exp_ = []
  | _ => True

instance decidableInOrder (config : CacheConfig K) (s : Cache K V) : ∀ e : Event K V, Decidable (s.InOrder config e)
  | .add _ _ _ _ _ => inferInstanceAs (Decidable (_ ∧ ∀ e ∈ s.heap, _ → _))
  | .get _ _ => inferInstanceAs (Decidable (s.next_use_ ∉ AssocList.keys s.items_by_use_))
  | .getPathBased now key =>
    inferInstanceAs (Decidable (∀ e ∈ s.heap, s.findPathBased config key = some e.1 → now < e.2.expiration_ts_))
  | .clear => inferInstanceAs (Decidable (s.items_by_exp_ = []))
  | .getAll _ => isTrue trivial
  | .del _ => isTrue trivial

variable (config : CacheConfig K)

/-- The invariant, with the bound on the items. -/
structure Bounded (s : Cache K V) : Prop where
  inv : s.Inv
  size : s.items_.length ≤ config.max_size_.toNat

variable {config}

section

variable (h : s.Bounded config)

include h

theorem Bounded.get {now : Int} {key : K} (horder : s.InOrder config (.get now key)) :
    ∃ s', s.get now key = some s' ∧ s'.Bounded config := by
  obtain ⟨s₁, hexpire, hinv, hshrinks, hlive⟩ := h.inv.expireSomeCache now
  have hsize := Nat.le_trans hshrinks.length h.size
  have hfresh : s₁.next_use_ ∉ keys s₁.items_by_use_ := by
    rw [hshrinks.use]
    exact fun hin => horder (hshrinks.uses _ hin)
  rw [Cache.get, hexpire, Option.bind_eq_bind, Option.bind_some]
  cases hfind : s₁.items_.lookup key with
  | none => exact ⟨s₁, rfl, hinv, hsize⟩
  | some address =>
    obtain ⟨item, hmem, rfl⟩ := hinv.item_of_lookup hfind
    have htouch := hinv.touch hmem hfresh
    refine ⟨(s₁.touch address item).giveOut now item, ?_, htouch.giveOut (hinv.last _ hmem) (hlive _ hmem), hsize⟩
    dsimp only
    rw [hinv.lookup hmem]
    rfl

theorem Bounded.getAll (now : Int) : ∃ s', s.getAll now = some s' ∧ s'.Bounded config := by
  obtain ⟨_, hexpire, hinv, hshrinks, hlive⟩ := h.inv.expireSomeCache now
  obtain ⟨s', hall, hinv', hitems⟩ := hinv.giveOutAll hlive fun e he => he
  refine ⟨s', ?_, hinv', ?_⟩
  · rw [Cache.getAll, hexpire]
    exact hall
  · rw [hitems]
    exact Nat.le_trans hshrinks.length h.size

theorem Bounded.getPathBased {now : Int} {key : K} (horder : s.InOrder config (.getPathBased now key)) :
    ∃ s', s.getPathBased config now key = some s' ∧ s'.Bounded config := by
  rw [Cache.getPathBased]
  cases hfind : s.findPathBased config key with
  | none => exact ⟨s, rfl, h⟩
  | some address =>
    obtain ⟨k, -, hlookup⟩ := List.exists_of_findSome?_eq_some hfind
    obtain ⟨item, hmem, rfl⟩ := h.inv.item_of_lookup hlookup
    refine ⟨s.giveOut now item, ?_, h.inv.giveOut (h.inv.last _ hmem) (horder _ hmem hfind), h.size⟩
    dsimp only
    rw [h.inv.lookup hmem, Option.map_some]

theorem Bounded.del (key : K) : ∃ s', s.del key = some s' ∧ s'.Bounded config := by
  rw [Cache.del]
  cases hfind : s.items_.lookup key with
  | none => exact ⟨s, rfl, h⟩
  | some address =>
    obtain ⟨_, hmem, rfl⟩ := h.inv.item_of_lookup hfind
    obtain ⟨s', hdel, hinv, hshrinks, -⟩ := h.inv.delItem hmem
    exact ⟨s', hdel, hinv, Nat.le_trans hshrinks.length h.size⟩

/-- Where nothing is indexed by expiration, there is nothing to clear. -/
theorem Bounded.clear (hexp : s.items_by_exp_ = []) : s.clear.Bounded config := by
  have hheap : s.heap = [] := by
    have hlength := h.inv.byExp.length_eq
    rw [hexp, AssocList.keys, length_map] at hlength
    exact List.eq_nil_of_length_eq_zero hlength.symm
  have hcleared : s.clear.heap = [] := by
    rw [Cache.clear, hheap]
    rfl
  refine ⟨⟨?_, ?_, ?_, ?_, ?_, nodup_nil, nodup_nil, ?_, ?_, h.inv.returned⟩, Nat.zero_le _⟩
  · rw [hcleared]
    exact nodup_nil
  · rw [hcleared]
    exact fun a ha => absurd ha not_mem_nil
  · rw [hcleared]
    exact Perm.refl _
  · rw [hcleared]
    exact Perm.refl _
  · rw [hcleared]
    exact List.Perm.of_eq hexp
  · exact h.inv.sorted.imp fun hab i j hi => absurd hi (by rw [hcleared]; exact not_mem_nil)
  · rw [hcleared]
    exact fun e he => absurd he not_mem_nil

end

section Runs

variable [LT K] [DecidableLT K]

theorem Bounded.add (h : s.Bounded config) (hmax : 1 ≤ config.max_size_.toNat) {now later : Int} (key : K) (value : V)
    (replace : Bool) (horder : s.InOrder config (.add now later key value replace)) :
    ∃ s', s.add config now later key value replace = some s' ∧ s'.Bounded config := by
  obtain ⟨s₁, hexpire, hinv, hshrinks, hlive⟩ := h.inv.expireSomeCache now
  have hsize := Nat.le_trans hshrinks.length h.size
  have hfresh : s₁.next_use_ ∉ keys s₁.items_by_use_ := by
    rw [hshrinks.use]
    exact fun hin => horder.1 (hshrinks.uses _ hin)
  have hexp : ∀ e ∈ s₁.heap, e.2.expiration_ts_ ≤ expirationTs config later :=
    fun e he => horder.2 e (hshrinks.heap e he) (hlive e he)
  rw [Cache.add, hexpire, Option.bind_eq_bind, Option.bind_some]
  cases hfind : s₁.items_.lookup key with
  | none =>
    obtain ⟨s', hadd, hinv', hsize'⟩ :=
      hinv.addNew config hmax hsize value (AssocList.lookup_eq_none.1 hfind) hfresh hexp
    exact ⟨s', hadd, hinv', hsize'⟩
  | some address =>
    cases replace with
    | false => exact ⟨s₁, rfl, hinv, hsize⟩
    | true =>
      obtain ⟨_, hmem, rfl⟩ := hinv.item_of_lookup hfind
      obtain ⟨_, hdel, hinv₂, hshrinks₂, -, -, hkey⟩ := hinv.delItem hmem
      obtain ⟨s', hadd, hinv', hsize'⟩ := hinv₂.addNew config hmax (Nat.le_trans hshrinks₂.length hsize) value hkey
        (by rw [hshrinks₂.use]; exact fun hin => hfresh (hshrinks₂.uses _ hin))
        fun e he => hexp e (hshrinks₂.heap e he)
      refine ⟨s', ?_, hinv', hsize'⟩
      dsimp only
      rw [hdel]
      exact hadd

/-- One operation. -/
theorem Bounded.step (hmax : 1 ≤ config.max_size_.toNat) (h : s.Bounded config) (e : Event K V)
    (horder : s.InOrder config e) : ∃ s', s.step config e = some s' ∧ s'.Bounded config := by
  cases e with
  | add now later key value replace => exact h.add hmax key value replace horder
  | get now key => exact h.get horder
  | getAll now => exact h.getAll now
  | getPathBased now key => exact h.getPathBased horder
  | del key => exact h.del key
  | clear => exact ⟨s.clear, rfl, h.clear horder⟩

/-! ## Runs -/

/-- A run in order never looks at a deleted item, and the indexes of the cache are consistent behind it. -/
theorem consistent_in_order (config : CacheConfig K) (hmax : 1 ≤ config.max_size_.toNat) (events : List (Event K V))
    (horder : Along (Cache.step config) (InOrder config) {} events) :
    ∃ s, run (Cache.step config) {} events = some s ∧ s.Consistent config.max_size_.toNat := by
  obtain ⟨s, hrun, hbounded⟩ := run_along (I := Bounded config) (fun s e h horder => h.step hmax e horder)
    ⟨init_inv, Nat.zero_le _⟩ horder
  exact ⟨s, hrun, hbounded.inv.consistent hbounded.size⟩

end Runs

/-- The times that an operation reads from the clock, or at which it is called. -/
def Event.readings : Event K V → List Int
  | .add now later _ _ _ => [now, later]
  | .get now _ => [now]
  | .getAll now => [now]
  | .getPathBased now _ => [now]
  | .del _ => []
  | .clear => []

/-- A cache of strings for one item. -/
def oneItem : CacheConfig Io.Bytes := ⟨.lru, 1, 5000, searchedPaths⟩

/-- Adding, evicting, replacing and expiring items keeps the indexes consistent. -/
theorem oneItem_consistent :
    ∃ s : Cache Io.Bytes Nat, run (Cache.step oneItem) {} [.add 0 0 [0x61] 1 true, .add 10 11 [0x62] 2 true,
      .add 20 20 [0x62] 3 true, .get 21 [0x62], .getAll 6000, .clear] = some s ∧ s.Consistent 1 :=
  consistent_in_order oneItem (by decide) _ (by decide +kernel)

/-- `Clear` leaves the deleted item in `items_by_exp_`, where the next operation that expires items looks at it. -/
theorem clear_leaves_deleted_item :
    ¬ ∀ (config : CacheConfig Io.Bytes) (events : List (Event Io.Bytes Nat)), 1 ≤ config.max_size_.toNat →
      (events.flatMap Event.readings).Pairwise (· ≤ ·) →
      ∃ s, run (Cache.step config) {} events = some s ∧ s.Consistent config.max_size_.toNat := by
  intro h
  obtain ⟨s, hrun, hconsistent⟩ := h oneItem [.add 0 0 [0x61] 1 true, .clear] (by decide) (by decide)
  have hstate : (run (step oneItem) {} [.add 0 0 [0x61] 1 true, (Event.clear : Event Io.Bytes Nat)]).map
      (fun s => (s.items_by_exp_, s.heap)) = some ([0], []) := by decide +kernel
  rw [hrun] at hstate
  have hexp : s.items_by_exp_ = [0] := congrArg Prod.fst (Option.some.inj hstate)
  have hheap : s.heap = [] := congrArg Prod.snd (Option.some.inj hstate)
  obtain ⟨_, hmem⟩ := (hconsistent.byExp 0).1 (by rw [hexp]; exact mem_cons_self)
  rw [hheap] at hmem
  exact absurd hmem not_mem_nil

end Cache

end Whispercast.Util
