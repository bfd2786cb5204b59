import Whispercast.Rpc.CodecLaws

/-!
# The binary codec

The state of the decoder is a stack of item counts. What a failed call has left on it stays below what the next
calls put there, and is never looked at.
-/

namespace Whispercast.Rpc.BinaryDecoder

open Io Library StateReader List Regular

/-- The counts of the containers that are being read are on top of the stack. -/
def At (_ : Bool) (ns : List Nat) (s : DecoderState) : Prop :=
  (∀ n ∈ ns, n < 2 ^ 32) ∧ ∃ stack, s.itemsStack = ns.map UInt32.ofNat ++ stack

/-- There are no blanks in the binary encoding. -/
def NoBlank (_ : UInt8) : Prop := False

theorem blanks_eq_nil {b : Bytes} (h : Blanks NoBlank b) : b = [] := by
  cases b with
  | nil => rfl
  | cons c b => exact (h c mem_cons_self).elim

variable {P : DecoderState → Prop} {next : Bytes → Prop}

/-- Without blanks the triples are about the encoding alone. -/
theorem gets_of {α : Type} {Q : DecoderState → Prop} {r : Decoding α} {u : Bytes} {a : α}
    (h : ∀ s rest, P s → ∃ s', Q s' ∧ r s (u ++ rest) = (.ok a, s', rest)) : Gets NoBlank next P r u a Q := by
  intro s b rest hs hb _
  obtain ⟨s', hs', heq⟩ := h s rest hs
  refine ⟨s', [], hs', blanks_nil _, ?_⟩
  rw [blanks_eq_nil hb]
  exact heq

variable {n : Nat}

theorem decodeNumeric_ok {v : Nat} (hv : v < 256 ^ n) (s : DecoderState) (rest : Bytes) :
    decodeNumeric n s (leBytes n v ++ rest) = (.ok v, s, rest) := by
  have hlen : n ≤ (leBytes n v ++ rest).length := by
    rw [length_append, leBytes_length]
    exact Nat.le_add_right _ _
  rw [decodeNumeric, bind_ok (take_of_le _ s hlen), take_left' (leBytes_length n v),
    drop_left' (leBytes_length n v), leValue_leBytes_of_lt hv]
  rfl

theorem gets_numeric {α : Type} {N : Bytes → Prop} {v : Nat} (hv : v < 256 ^ n)
    (g : Nat → α) : Gets NoBlank N P (decodeNumeric n >>= fun x => pure (g x)) (leBytes n v) (g v) P := by
  apply gets_of
  intro s rest hs
  refine ⟨s, hs, ?_⟩
  rw [bind_ok (decodeNumeric_ok hv s rest)]
  rfl

variable {ns : List Nat}

theorem gets_itemCount (hn : n < 2 ^ 32) :
    Gets NoBlank Anything (At false ns) decodeItemCount (leBytes 4 (UInt32.ofNat n).toNat) ()
      (At false (n :: ns)) := by
  have htoNat : (UInt32.ofNat n).toNat = n := UInt32.toNat_ofNat_of_lt' hn
  apply gets_of
  intro s rest hs
  obtain ⟨hlt, stack, hstack⟩ := hs
  refine ⟨{ s with itemsStack := UInt32.ofNat n :: s.itemsStack }, ⟨?_, stack, ?_⟩, ?_⟩
  · intro m hm
    rcases mem_cons.1 hm with rfl | hm
    · exact hn
    · exact hlt m hm
  · rw [map_cons, cons_append, ← hstack]
  · rw [htoNat, decodeItemCount, bind_ok (decodeNumeric_ok hn s rest)]
    rfl

theorem ofNat_pos (hn : n + 1 < 2 ^ 32) : 0 < UInt32.ofNat (n + 1) := by
  rw [UInt32.lt_iff_toNat_lt, UInt32.toNat_ofNat_of_lt' hn]
  exact Nat.succ_pos n

variable {s : DecoderState}

theorem decodeContinue_more (hs : At false ((n + 1) :: ns) s) (l : Bytes) : decodeContinue s l = (.ok true, s, l) := by
  obtain ⟨hlt, _, hstack⟩ := hs
  rw [map_cons, cons_append] at hstack
  rw [decodeContinue, hstack]
  dsimp only
  rw [if_pos (ofNat_pos (hlt _ mem_cons_self))]

theorem decodeContinue_done (hs : At false (0 :: ns) s) (l : Bytes) :
    ∃ s', At false ns s' ∧ decodeContinue s l = (.ok false, s', l) := by
  obtain ⟨hlt, stack, hstack⟩ := hs
  refine ⟨{ s with itemsStack := ns.map UInt32.ofNat ++ stack }, ⟨?_, stack, rfl⟩, ?_⟩
  · exact fun m hm => hlt m (mem_cons_of_mem _ hm)
  · rw [decodeContinue, hstack]
    rfl

theorem decodeItemStart_ok (hs : At false ((n + 1) :: ns) s)
    (l : Bytes) : ∃ s', At false (n :: ns) s' ∧ decodeItemStart s l = (.ok (), s', l) := by
  obtain ⟨hlt, stack, hstack⟩ := hs
  have hn : n + 1 < 2 ^ 32 := hlt _ mem_cons_self
  rw [map_cons, cons_append] at hstack
  refine ⟨{ s with itemsStack := UInt32.ofNat n :: (ns.map UInt32.ofNat ++ stack) }, ⟨?_, stack, rfl⟩, ?_⟩
  · intro m hm
    rcases mem_cons.1 hm with rfl | hm
    · omega
    · exact hlt m (mem_cons_of_mem _ hm)
  · have hsub : UInt32.ofNat (n + 1) - 1 = UInt32.ofNat n := by
      rw [UInt32.ofNat_add]
      exact UInt32.add_sub_cancel _ _
    rw [decodeItemStart, StateReader.modify, hstack]
    dsimp only
    rw [hsub]

theorem structLaws : StructLaws binaryEncoder binaryDecoder NoBlank Anything At where
  start := gets_itemCount
  attribStart := gets_of fun _ rest hs => decodeItemStart_ok hs rest
  attribMiddle := Gets.pure ()
  attribEnd := rfl
  more := gets_of fun s rest hs => ⟨s, hs, decodeContinue_more hs rest⟩
  done := gets_of fun _ rest hs => decodeContinue_done hs rest
  next_more _ := trivial
  next_done _ := trivial

theorem decodeArrayContinue_more (hs : At false ((n + 1) :: ns) s)
    (l : Bytes) : ∃ s', At false (n :: ns) s' ∧ decodeArrayContinue s l = (.ok true, s', l) := by
  obtain ⟨s', hs', hstart⟩ := decodeItemStart_ok hs l
  refine ⟨s', hs', ?_⟩
  rw [decodeArrayContinue, bind_ok (decodeContinue_more hs l), if_pos rfl, bind_ok hstart]
  rfl

theorem arrayLaws : ArrayLaws binaryEncoder binaryDecoder NoBlank Anything At (At false) fun _ => True where
  start := gets_itemCount
  fresh h := h
  first := by
    intro α k n ns u a Q _ hk
    apply gets_of
    intro s rest hs
    obtain ⟨s', hs', hmore⟩ := decodeArrayContinue_more hs (u ++ rest)
    obtain ⟨s'', t, hQ, ht, heq⟩ := hk s' [] rest hs' (blanks_nil _) trivial
    refine ⟨s'', hQ, ?_⟩
    have hmore : binaryDecoder.decodeArrayContinue s (u ++ rest) = (.ok true, s', u ++ rest) := hmore
    rw [bind_ok hmore]
    rw [blanks_eq_nil ht] at heq
    exact heq
  more := gets_of fun _ rest hs => decodeArrayContinue_more hs rest
  done := by
    intro ns
    apply gets_of
    intro s rest hs
    obtain ⟨s', hs', hdone⟩ := decodeContinue_done hs rest
    refine ⟨s', hs', ?_⟩
    change decodeArrayContinue s rest = _
    rw [decodeArrayContinue, bind_ok hdone]
    rfl
  next_more _ := trivial
  next_done _ := trivial
  opens _ _ := trivial
  opens_append _ _ := trivial

theorem mapLaws : MapLaws binaryEncoder binaryDecoder NoBlank Anything At (At false) fun _ => True where
  start := gets_itemCount
  fresh h := h
  first := by
    intro α k n ns u a Q _ hk
    apply gets_of
    intro s rest hs
    obtain ⟨s', t, hQ, ht, heq⟩ := hk s [] rest hs (blanks_nil _) trivial
    refine ⟨s', hQ, ?_⟩
    have hmore : binaryDecoder.decodeMapContinue s (u ++ rest) = (.ok true, s, u ++ rest) :=
      decodeContinue_more hs _
    rw [bind_ok hmore]
    rw [blanks_eq_nil ht] at heq
    exact heq
  more := gets_of fun s rest hs => ⟨s, hs, decodeContinue_more hs rest⟩
  done := gets_of fun _ rest hs => decodeContinue_done hs rest
  pairStart := gets_of fun _ rest hs => decodeItemStart_ok hs rest
  pairMiddle := Gets.pure ()
  pairEnd := Gets.pure ()
  next_middle _ := trivial
  next_end _ _ := trivial
  next_more _ := trivial
  next_done _ := trivial
  opens _ _ := trivial
  opens_key _ _ _ := trivial

/-- A string whose size is an `int32`. -/
def Sized (s : Bytes) : Prop := s.length < 2 ^ 31

theorem gets_string {str : Bytes} (h : Sized str) :
    Gets NoBlank next P decodeString (BinaryEncoder.encodeString str) str P := by
  have hlt : str.length < 256 ^ 4 := Nat.lt_of_lt_of_le h (by decide)
  apply gets_of
  intro s rest hs
  refine ⟨s, hs, ?_⟩
  rw [BinaryEncoder.encodeString, append_assoc, decodeString, bind_ok (decodeNumeric_ok hlt s _),
    if_neg (Nat.not_le.2 h), take_of_le, take_left, drop_left]
  rw [length_append]
  exact Nat.le_add_right _ _

theorem gets_rawObject {obj : Bytes} (h : obj.length < 2 ^ 32) :
    Gets NoBlank next P readRawObject (BinaryEncoder.writeRawObject obj) obj P := by
  apply gets_of
  intro s rest hs
  refine ⟨s, hs, ?_⟩
  rw [BinaryEncoder.writeRawObject, append_assoc, readRawObject, bind_ok (decodeNumeric_ok h s _), take_of_le,
    take_left, drop_left]
  rw [length_append]
  exact Nat.le_add_right _ _

theorem gets_bool (v : Bool) : Gets NoBlank next P decodeBool [if v then 1 else 0] v P := by
  apply gets_of
  intro s rest hs
  refine ⟨s, hs, ?_⟩
  cases v with
  | false =>
    rw [decodeBool]
    exact bind_ok (decodeNumeric_ok (n := 1) (v := 0) (by decide) s rest) _
  | true =>
    rw [decodeBool]
    exact bind_ok (decodeNumeric_ok (n := 1) (v := 1) (by decide) s rest) _

theorem gets_void : Gets NoBlank next P decodeVoid [0xff] () P := by
  apply gets_of
  intro s rest hs
  refine ⟨s, hs, ?_⟩
  rw [decodeVoid]
  exact bind_ok (decodeNumeric_ok (n := 1) (v := 255) (by decide) s rest) _

theorem scalarLaws : ScalarLaws binaryEncoder binaryDecoder NoBlank Anything At (fun _ => True) Sized fun _ => True where
  void := ⟨fun _ => gets_void, fun _ _ _ => trivial⟩
  bool := ⟨fun _ => gets_bool _, fun _ _ _ => trivial⟩
  int32 := by
    refine ⟨?_, fun _ _ _ => trivial⟩
    intro key ns v _
    have h := gets_numeric (P := At key ns) (N := Anything) (n := 4) v.toUInt32.toNat_lt
      fun x => (UInt32.ofNat x).toInt32
    rwa [UInt32.ofNat_toNat, Int32.toInt32_toUInt32] at h
  uint32 := by
    refine ⟨?_, fun _ _ _ => trivial⟩
    intro key ns v _
    have h := gets_numeric (P := At key ns) (N := Anything) (n := 4) v.toNat_lt fun x => UInt32.ofNat x
    rwa [UInt32.ofNat_toNat] at h
  int64 := by
    refine ⟨?_, fun _ _ _ => trivial⟩
    intro key ns v _
    have h := gets_numeric (P := At key ns) (N := Anything) (n := 8) v.toUInt64.toNat_lt
      fun x => (UInt64.ofNat x).toInt64
    rwa [UInt64.ofNat_toNat, Int64.toInt64_toUInt64] at h
  uint64 := by
    refine ⟨?_, fun _ _ _ => trivial⟩
    intro key ns v _
    have h := gets_numeric (P := At key ns) (N := Anything) (n := 8) v.toNat_lt fun x => UInt64.ofNat x
    rwa [UInt64.ofNat_toNat] at h
  string := ⟨fun h => gets_string h, fun _ _ _ => trivial⟩

/-! ## Every input -/

section Inputs

variable {I : DecoderState → Prop}

theorem regular_numeric (n : Nat) : Regular .notEnoughData I n (decodeNumeric n) :=
  (Regular.take n _).bind_left fun _ => pure _

theorem regular_number {α : Type} (n : Nat) (g : Nat → α) (hn : 1 ≤ n) :
    Regular .notEnoughData I 1 (decodeNumeric n >>= fun x => pure (g x)) :=
  ((regular_numeric n).bind_left fun _ => Regular.pure _).mono hn

theorem regular_itemCount : Regular .notEnoughData (fun _ => True) 1 decodeItemCount :=
  ((regular_numeric 4).bind_left fun _ => modify fun _ _ => trivial).mono (by decide)

theorem regular_continue : Regular .notEnoughData (fun _ => True) 0 decodeContinue := by
  -- The answer depends on the stack only.
  have hsame : ∀ s, ∃ b s', ∀ l, decodeContinue s l = (.ok b, s', l) := by
    intro s
    unfold decodeContinue
    split
    · split_ifs
      · exact ⟨true, s, fun _ => rfl⟩
      · exact ⟨false, _, fun _ => rfl⟩
    · exact ⟨false, s, fun _ => rfl⟩
  refine ⟨?_, ?_, fun _ _ _ => trivial⟩
  · intro s l
    obtain ⟨b, s', hs⟩ := hsame s
    constructor
    · intro a s'' l' h x
      rw [hs] at h ⊢
      cases h
      rfl
    · intro e s'' l' h
      rw [hs] at h
      cases h
  · intro s l a s'' l' h
    obtain ⟨b, s', hs⟩ := hsame s
    rw [hs] at h
    cases h
    exact Nat.le_refl _

theorem regular_itemStart : Regular .notEnoughData (fun _ => True) 0 decodeItemStart :=
  modify fun _ _ => trivial

theorem regular_arrayContinue : Regular .notEnoughData (fun _ => True) 0 decodeArrayContinue := by
  apply regular_continue.bind_left
  intro more
  split_ifs
  · exact regular_itemStart.bind_left fun _ => pure _
  · exact pure _

theorem regular_string : Regular .notEnoughData I 1 decodeString := by
  apply ((regular_numeric 4).bind_left ?_).mono (by decide)
  intro length
  split_ifs
  · exact fail _
  · exact (Regular.take length _).mono (Nat.zero_le _)

theorem regular_rawObject : Regular .notEnoughData I 1 readRawObject :=
  ((regular_numeric 4).bind_left fun size => (Regular.take size _).mono (Nat.zero_le _)).mono (by decide)

theorem regular_void : Regular .notEnoughData I 1 decodeVoid := by
  apply (regular_numeric 1).bind_left
  intro byte
  split_ifs
  · exact pure _
  · exact fail _

theorem regular_bool : Regular .notEnoughData I 1 decodeBool := by
  apply (regular_numeric 1).bind_left
  intro byte
  split_ifs
  · exact pure _
  · exact pure _
  · exact fail _

theorem messageRegular : MessageRegular binaryDecoder fun _ => True where
  structStart := regular_itemCount
  structContinue := regular_continue
  structAttribStart := regular_itemStart
  structAttribMiddle := pure ()
  int32 := regular_number 4 _ (by decide)
  uint32 := regular_number 4 _ (by decide)
  string := regular_string
  rawObject := regular_rawObject

theorem valueRegular : ValueRegular binaryDecoder where
  arrayStart := regular_itemCount
  arrayContinue := regular_arrayContinue
  mapStart := regular_itemCount
  mapContinue := regular_continue
  mapPairStart := regular_itemStart
  mapPairMiddle := pure ()
  mapPairEnd := pure ()
  void := regular_void
  bool := regular_bool
  int32 := regular_number 4 _ (by decide)
  uint32 := regular_number 4 _ (by decide)
  int64 := regular_number 8 _ (by decide)
  uint64 := regular_number 8 _ (by decide)
  string := regular_string

end Inputs

end Whispercast.Rpc.BinaryDecoder
