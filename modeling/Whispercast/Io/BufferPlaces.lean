import Whispercast.Io.BufferManager

/-!
# Places of shared buffers

The maps of the manager, as they follow from what every buffer says of itself: a buffer that is used is active, one that
is not is free, and `usage_set_` has the free ones. A buffer moves from one map to the other by being taken out and put
in again.
-/

namespace Whispercast.Io

open Library List AssocList

variable {K : Type}

/-- The buffers that are used. -/
def usedBuffers (buffers : List (Nat × SharedBuffer K)) : List (Nat × SharedBuffer K) :=
  buffers.filter fun e => 0 < e.2.use_count_

/-- The buffers that nobody uses. -/
def unusedBuffers (buffers : List (Nat × SharedBuffer K)) : List (Nat × SharedBuffer K) :=
  buffers.filter fun e => ¬ 0 < e.2.use_count_

/-- The current keys of the buffers. -/
def dataKeys (buffers : List (Nat × SharedBuffer K)) : List K := buffers.map fun e => e.2.data_key_

/-- The entry of a buffer in a `BufferMap`. -/
def mapEntry (e : Nat × SharedBuffer K) : K × Nat := (e.2.data_key_, e.1)

/-- The entry of a buffer in the `UsageSet`. -/
def usageEntry (e : Nat × SharedBuffer K) : Int × Nat := (e.2.last_release_time_, e.1)

@[simp] theorem dataKeys_cons (e : Nat × SharedBuffer K) (buffers : List (Nat × SharedBuffer K)) :
    dataKeys (e :: buffers) = e.2.data_key_ :: dataKeys buffers := rfl

theorem usedBuffers_cons (address : Nat) (buf : SharedBuffer K) (buffers : List (Nat × SharedBuffer K)) :
    usedBuffers ((address, buf) :: buffers) =
      if 0 < buf.use_count_ then (address, buf) :: usedBuffers buffers else usedBuffers buffers := by
  rw [usedBuffers, filter_cons]
  split_ifs <;> simp_all [usedBuffers]

theorem unusedBuffers_cons (address : Nat) (buf : SharedBuffer K) (buffers : List (Nat × SharedBuffer K)) :
    unusedBuffers ((address, buf) :: buffers) =
      if 0 < buf.use_count_ then unusedBuffers buffers else (address, buf) :: unusedBuffers buffers := by
  rw [unusedBuffers, filter_cons]
  split_ifs <;> simp_all [unusedBuffers]

/-- The maps say of the buffers what these say of themselves. -/
structure Placed (buffers : List (Nat × SharedBuffer K)) (active free : List (K × Nat)) (usage : List (Int × Nat)) :
    Prop where
  addresses : (AssocList.keys buffers).Nodup
  keys : (dataKeys buffers).Nodup
  active : active.Perm ((usedBuffers buffers).map mapEntry)
  free : free.Perm ((unusedBuffers buffers).map mapEntry)
  usage : usage.Perm ((unusedBuffers buffers).map usageEntry)

namespace Placed

variable {buffers buffers' rest : List (Nat × SharedBuffer K)} {active free : List (K × Nat)} {usage : List (Int × Nat)}
  {address : Nat} {buf buf' : SharedBuffer K} {key : K}

theorem perm (h : Placed buffers active free usage) (hperm : buffers.Perm buffers') :
    Placed buffers' active free usage :=
  ⟨(hperm.map Prod.fst).nodup_iff.1 h.addresses, (hperm.map _).nodup_iff.1 h.keys,
    h.active.trans ((hperm.filter _).map _), h.free.trans ((hperm.filter _).map _), h.usage.trans ((hperm.filter _).map _)⟩

theorem map_keys (l : List (Nat × SharedBuffer K)) : AssocList.keys (l.map mapEntry) = dataKeys l := by
  rw [AssocList.keys, map_map]
  rfl

section

variable (h : Placed buffers active free usage)

include h

theorem nodup_active : (AssocList.keys active).Nodup := by
  refine (h.active.map Prod.fst).nodup_iff.2 ?_
  rw [← AssocList.keys, map_keys]
  exact h.keys.sublist (filter_sublist.map _)

theorem nodup_free : (AssocList.keys free).Nodup := by
  refine (h.free.map Prod.fst).nodup_iff.2 ?_
  rw [← AssocList.keys, map_keys]
  exact h.keys.sublist (filter_sublist.map _)

/-- A key that is in no map is that of no buffer. -/
theorem not_mem_dataKeys (hactive : key ∉ AssocList.keys active)
    (hfree : key ∉ AssocList.keys free) : key ∉ dataKeys buffers := by
  intro hmem
  obtain ⟨e, he, rfl⟩ := mem_map.1 hmem
  by_cases hused : 0 < e.2.use_count_
  · have hin : mapEntry e ∈ active :=
      h.active.symm.subset (mem_map_of_mem (mem_filter.2 ⟨he, by simpa using hused⟩))
    exact hactive (mem_map_of_mem (f := Prod.fst) hin)
  · have hin : mapEntry e ∈ free :=
      h.free.symm.subset (mem_map_of_mem (mem_filter.2 ⟨he, by simpa using hused⟩))
    exact hfree (mem_map_of_mem (f := Prod.fst) hin)

/-- An active entry is that of a buffer that is used. -/
theorem of_active (hmem : (key, address) ∈ active) :
    ∃ buf, (address, buf) ∈ buffers ∧ buf.data_key_ = key ∧ 0 < buf.use_count_ := by
  obtain ⟨e, he, heq⟩ := mem_map.1 (h.active.subset hmem)
  cases heq
  obtain ⟨hin, hused⟩ := mem_filter.1 he
  exact ⟨e.2, hin, rfl, by simpa using hused⟩

/-- A free entry is that of a buffer that nobody uses. -/
theorem of_free (hmem : (key, address) ∈ free) :
    ∃ buf, (address, buf) ∈ buffers ∧ buf.data_key_ = key ∧ ¬ 0 < buf.use_count_ := by
  obtain ⟨e, he, heq⟩ := mem_map.1 (h.free.subset hmem)
  cases heq
  obtain ⟨hin, hunused⟩ := mem_filter.1 he
  exact ⟨e.2, hin, rfl, by simpa using hunused⟩

theorem of_usage {time : Int} (hmem : (time, address) ∈ usage) :
    ∃ buf, (address, buf) ∈ buffers ∧ buf.last_release_time_ = time ∧ ¬ 0 < buf.use_count_ := by
  obtain ⟨e, he, heq⟩ := mem_map.1 (h.usage.subset hmem)
  cases heq
  obtain ⟨hin, hunused⟩ := mem_filter.1 he
  exact ⟨e.2, hin, rfl, by simpa using hunused⟩

end

section

variable (h : Placed ((address, buf) :: rest) active free usage)

include h

/-- A buffer that stays in its map. -/
theorem update (hused : 0 < buf.use_count_) (hused' : 0 < buf'.use_count_) (hkey : buf'.data_key_ = buf.data_key_) :
    Placed ((address, buf') :: rest) active free usage := by
  refine ⟨h.addresses, ?_, ?_, ?_, ?_⟩
  · rw [dataKeys_cons, hkey]
    exact h.keys
  · have hactive := h.active
    rw [usedBuffers_cons, if_pos hused, map_cons, mapEntry] at hactive
    rw [usedBuffers_cons, if_pos hused', map_cons, mapEntry, hkey]
    exact hactive
  · have hfree := h.free
    rw [unusedBuffers_cons, if_pos hused] at hfree
    rw [unusedBuffers_cons, if_pos hused']
    exact hfree
  · have husage := h.usage
    rw [unusedBuffers_cons, if_pos hused] at husage
    rw [unusedBuffers_cons, if_pos hused']
    exact husage

theorem rest_addresses : address ∉ AssocList.keys rest :=
  (nodup_cons.1 h.addresses).1

theorem rest_keys : buf.data_key_ ∉ dataKeys rest :=
  (nodup_cons.1 h.keys).1

end

section Moves

variable [DecidableEq K]

/-- An active buffer is taken out. -/
theorem removeActive (h : Placed ((address, buf) :: rest) active free usage) (hused : 0 < buf.use_count_) :
    Placed rest (active.eraseP fun e => e.1 == buf.data_key_) free usage := by
  refine ⟨(nodup_cons.1 h.addresses).2, (nodup_cons.1 h.keys).2, ?_, ?_, ?_⟩
  · have hactive := h.active
    rw [usedBuffers_cons, if_pos hused, map_cons, mapEntry] at hactive
    exact eraseP_perm hactive h.nodup_active
  · have hfree := h.free
    rw [unusedBuffers_cons, if_pos hused] at hfree
    exact hfree
  · have husage := h.usage
    rw [unusedBuffers_cons, if_pos hused] at husage
    exact husage

/-- A free buffer is taken out. -/
theorem removeFree (h : Placed ((address, buf) :: rest) active free usage) (hunused : ¬ 0 < buf.use_count_) :
    Placed rest active (free.eraseP fun e => e.1 == buf.data_key_) (usage.erase (buf.last_release_time_, address)) := by
  refine ⟨(nodup_cons.1 h.addresses).2, (nodup_cons.1 h.keys).2, ?_, ?_, ?_⟩
  · have hactive := h.active
    rw [usedBuffers_cons, if_neg hunused] at hactive
    exact hactive
  · have hfree := h.free
    rw [unusedBuffers_cons, if_neg hunused, map_cons, mapEntry] at hfree
    exact eraseP_perm hfree h.nodup_free
  · have husage := h.usage
    rw [unusedBuffers_cons, if_neg hunused, map_cons, usageEntry] at husage
    have herase := husage.erase (buf.last_release_time_, address)
    rw [erase_cons_head] at herase
    exact herase

/-- A buffer that is used is put in. -/
theorem insertActive (h : Placed rest active free usage) (buf : SharedBuffer K)
    (haddress : address ∉ AssocList.keys rest) (hkey : buf.data_key_ ∉ dataKeys rest) (hused : 0 < buf.use_count_) :
    Placed ((address, buf) :: rest) (BufferManager.insertNew buf.data_key_ address active) free usage := by
  have hnone : active.lookup buf.data_key_ = none := by
    refine lookup_eq_none.2 fun hmem => ?_
    obtain ⟨e, he, heq⟩ := mem_map.1 hmem
    obtain ⟨b, hb, hkey', -⟩ := h.of_active (show (e.1, e.2) ∈ active from he)
    exact hkey (mem_map.2 ⟨_, hb, hkey'.trans heq⟩)
  rw [BufferManager.insertNew, if_pos hnone]
  refine ⟨nodup_cons.2 ⟨haddress, h.addresses⟩, nodup_cons.2 ⟨hkey, h.keys⟩, ?_, ?_, ?_⟩
  · rw [usedBuffers_cons, if_pos hused]
    exact h.active.cons _
  · rw [unusedBuffers_cons, if_pos hused]
    exact h.free
  · rw [unusedBuffers_cons, if_pos hused]
    exact h.usage

/-- A buffer that nobody uses any more is put in. -/
theorem insertFree (h : Placed rest active free usage) (buf : SharedBuffer K)
    (haddress : address ∉ AssocList.keys rest) (hkey : buf.data_key_ ∉ dataKeys rest) (hunused : ¬ 0 < buf.use_count_) :
    Placed ((address, buf) :: rest) active (BufferManager.insertNew buf.data_key_ address free)
      (if (buf.last_release_time_, address) ∈ usage then usage
        else usage.orderedInsert BufferManager.olderOrSame (buf.last_release_time_, address)) := by
  have hnone : free.lookup buf.data_key_ = none := by
    refine lookup_eq_none.2 fun hmem => ?_
    obtain ⟨e, he, heq⟩ := mem_map.1 hmem
    obtain ⟨b, hb, hkey', -⟩ := h.of_free (show (e.1, e.2) ∈ free from he)
    exact hkey (mem_map.2 ⟨_, hb, hkey'.trans heq⟩)
  have hnew : (buf.last_release_time_, address) ∉ usage := by
    intro hmem
    obtain ⟨b, hb, -, -⟩ := h.of_usage hmem
    exact haddress (mem_map_of_mem (f := Prod.fst) hb)
  rw [BufferManager.insertNew, if_pos hnone, if_neg hnew]
  refine ⟨nodup_cons.2 ⟨haddress, h.addresses⟩, nodup_cons.2 ⟨hkey, h.keys⟩, ?_, ?_, ?_⟩
  · rw [usedBuffers_cons, if_neg hunused]
    exact h.active
  · rw [unusedBuffers_cons, if_neg hunused]
    exact h.free.cons _
  · rw [unusedBuffers_cons, if_neg hunused]
    exact (perm_orderedInsert _ _ _).trans (h.usage.cons _)

end Moves

end Placed

end Whispercast.Io
