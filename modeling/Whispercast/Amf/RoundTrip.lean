import Whispercast.Amf.Totality

/-!
# Objects are read back

`ReadNextObject` reads what `Encode` has written: the identical object, from exactly its bytes, and with
`READ_NO_DATA` as long as some of them are missing. The induction is on the object; each class has its own
lemma about its `Decode`, and the loops over items and over entries have one each.
-/

namespace Whispercast.Amf

open Library Io CObject DecodesFrom List
open Amf0Util AssocList Binary64 NumStreamer Reader.Reads

namespace CObject

/-- A key of a map: not empty, since the empty key ends the map, and with a length of two bytes. -/
def IsKey (key : Bytes) : Prop := key ≠ [] ∧ key.length < 2 ^ 16

/-- The objects within the limits of the format. Entries of a `CStringMap` have different keys, entries
of a `CMixedMap` are in the order of their keys. -/
inductive Encodable : CObject → Prop where
  | null : Encodable null
  | boolean (v : Bool) : Encodable (boolean v)
  | number (v : UInt64) : Encodable (number v)
  | string {v : Bytes} (hlen : v.length ≤ kMaximumStringReadableData) : Encodable (string v)
  | date {ms : Int64} (tz : Int16) (hms : Binary64.Exact ms.toInt) : Encodable (date ms tz)
  | recordSet : Encodable recordSet
  | recordSetPage : Encodable recordSetPage
  | array {data : List CObject} (hlen : data.length ≤ kMaximumArraySize)
      (hdata : ∀ o ∈ data, Encodable o) : Encodable (array data)
  | stringMap {data : List (Bytes × CObject)} (hkeys : ∀ e ∈ data, IsKey e.1)
      (hnodup : (AssocList.keys data).Nodup) (hdata : ∀ e ∈ data, Encodable e.2) :
      Encodable (stringMap data)
  | mixedMap {data : List (Bytes × CObject)} (unknown : Int32) (hkeys : ∀ e ∈ data, IsKey e.1)
      (hsorted : (AssocList.keys data).Pairwise fun a b => a < b) (hdata : ∀ e ∈ data, Encodable e.2) :
      Encodable (mixedMap unknown data)

mutual

/-- No number in the object is a NaN. -/
def nanFree : CObject → Bool
  | number v => !Binary64.isNaN v
  | array data => nanFreeItems data
  | stringMap data => nanFreePairs data
  | mixedMap _ data => nanFreePairs data
  | _ => true

/-- No number in the items is a NaN. -/
def nanFreeItems : List CObject → Bool
  | [] => true
  | o :: os => nanFree o && nanFreeItems os

/-- No number in the entries is a NaN. -/
def nanFreePairs : List (Bytes × CObject) → Bool
  | [] => true
  | (_, value) :: rest => nanFree value && nanFreePairs rest

end

/-! ## Decode of each class -/

section Fields

variable {α : Type} {n m k : Nat} {g : Decoder α} {v : Bytes} {a : α}

/-- A decoder that checks the size and the type byte, and goes on with `g`. -/
theorem tagged_decodes (tag : UInt8) (hg : DecodesFrom m g v a) (hm : 1 + m ≤ n) (hn : n ≤ v.length + 1) :
    DecodesFrom k (needData n >>= fun _ => NumStreamer.readByte >>= fun obtype =>
      if obtype ≠ tag then failWith .corruptedData else g) (tag :: v) a := by
  have hbranch : DecodesFrom m (if tag ≠ tag then failWith .corruptedData else g) v a := by
    rw [if_neg (not_not_intro rfl)]
    exact hg
  have hbyte : DecodesFrom n (readByte >>= fun obtype =>
      if obtype ≠ tag then failWith .corruptedData else g) (tag :: v) a :=
    byte tag hbranch hm
  apply DecodesFrom.needData hbyte
  rw [length_cons]
  exact hn

end Fields

section Classes

variable {k : Nat}

theorem decodeNull_decodes : DecodesFrom k decodeNull null.encode null := by
  have hbranch : DecodesFrom 0 (if amf0TypeNull ≠ amf0TypeNull ∧
      amf0TypeNull ≠ amf0TypeUndefined then failWith .corruptedData else pure null)
      [] null := Reader.Reads.pure null
  have hbyte : DecodesFrom 1 (readByte >>= fun obtype =>
      if obtype ≠ amf0TypeNull ∧ obtype ≠ amf0TypeUndefined then failWith .corruptedData
      else pure null) null.encode null := by
    rw [encode]
    exact byte _ hbranch (Nat.le_refl 1)
  exact DecodesFrom.needData hbyte (by rw [encode]; decide)

theorem decodeBoolean_decodes (v : Bool) : DecodesFrom k decodeBoolean (boolean v).encode (boolean v) := by
  rw [encode]
  cases v with
  | true =>
    have hvalue : DecodesFrom 0 (if valueTrue = valueTrue then pure (boolean true)
        else if valueTrue = valueFalse then pure (boolean false)
        else failWith .corruptedData) [] (boolean true) := Reader.Reads.pure _
    exact tagged_decodes _ (byte _ hvalue (Nat.le_refl 1)) (Nat.le_refl 2) (Nat.le_refl 2)
  | false =>
    have hvalue : DecodesFrom 0 (if valueFalse = valueTrue then pure (boolean true)
        else if valueFalse = valueFalse then pure (boolean false)
        else failWith .corruptedData) [] (boolean false) := Reader.Reads.pure _
    exact tagged_decodes _ (byte _ hvalue (Nat.le_refl 1)) (Nat.le_refl 2) (Nat.le_refl 2)

theorem decodeNumber_decodes (v : UInt64) : DecodesFrom k decodeNumber (number v).encode (number v) := by
  rw [encode]
  have hread : DecodesFrom 8 (readDouble .bigEndian) _ v :=
    lastField (readDouble_gets v .bigEndian) (writeNumber_length 8 _ _)
  apply tagged_decodes _ (hread.map number) (Nat.le_refl 9)
  rw [writeDouble, writeNumber_length]

theorem decodeString_decodes {v : Bytes} (hlen : v.length ≤ kMaximumStringReadableData) :
    DecodesFrom k decodeString (string v).encode (string v) := by
  rw [encode]
  exact (readString_decodes hlen).map string

theorem decodeDate_decodes {ms : Int64} (tz : Int16) (hms : Binary64.Exact ms.toInt) :
    DecodesFrom k decodeDate (date ms tz).encode (date ms tz) := by
  rw [encode]
  have hback : toInt64 (ofInt ms.toInt) = ms := by
    rw [toInt64_ofInt hms (Int64.le_toInt ms) (Int64.toInt_lt ms), Int64.ofInt_toInt]
  have hzone : DecodesFrom 2 (readInt16 .bigEndian) _ tz :=
    lastField (readInt16_gets tz .bigEndian) (writeNumber_length 2 _ _)
  have hlast := hzone.map fun timezone => date (toInt64 (ofInt ms.toInt)) timezone
  have hread : DecodesFrom 10 (readDouble .bigEndian >>= fun time =>
      readInt16 .bigEndian >>= fun timezone =>
        pure (date (toInt64 time) timezone)) _
      (date (toInt64 (ofInt ms.toInt)) tz) :=
    field (readDouble_gets _ .bigEndian) (writeNumber_length 8 _ _)
      hlast (Nat.le_refl 10)
  rw [hback] at hread
  apply tagged_decodes _ hread (Nat.le_refl 11)
  rw [length_append, writeDouble, writeInt16, writeNumber_length,
    writeNumber_length]

theorem decodeClassObject_decodes {name : Bytes} (o : CObject) (hlen : name.length ≤ kMaximumStringReadableData) :
    DecodesFrom k (decodeClassObject name o)
      (Amf0Util.amf0TypeClassObject :: Amf0Util.writeString name) o := by
  have hbranch : DecodesFrom 0 (if name ≠ name then failWith .corruptedData else pure o) [] o := by
    rw [if_neg (not_not_intro rfl)]
    exact Reader.Reads.pure o
  have hread : DecodesFrom 0 (readString >>= fun tag =>
      if tag ≠ name then failWith .corruptedData else pure o) (writeString name) o := by
    have h := (readString_decodes (k := 0) hlen).bind
      (f := fun tag => if tag ≠ name then failWith .corruptedData else pure o) hbranch
    rwa [append_nil] at h
  exact tagged_decodes _ hread (Nat.le_refl 1) (Nat.le_add_left 1 _)

/-- The class name is found ahead of a class object. -/
theorem peekClassName_decodes {name : Bytes} {f : Bytes → Decoder CObject} {o : CObject}
    (hlen : name.length ≤ kMaximumStringReadableData) (hf : f name = decodeClassObject name o) :
    DecodesFrom 1 (peekClassName >>= f) (Amf0Util.amf0TypeClassObject :: Amf0Util.writeString name) o := by
  have hname : DecodesFrom 1 (readByte >>= fun _ => readString)
      (amf0TypeClassObject :: writeString name) name :=
    byte _ (readString_decodes (k := 0) hlen) (Nat.le_refl 1)
  have hobject := decodeClassObject_decodes (k := 1) o hlen
  have h := lookahead (w := []) hname hf (by rw [append_nil]; exact hobject)
  rwa [append_nil] at h

end Classes

/-! ## Loops -/

section Loops

variable {next : Decoder CObject}

theorem decodeItems_decodes {data : List CObject} (h : ∀ o ∈ data, DecodesFrom 0 next o.encode o) :
    DecodesFrom 0 (decodeItems next data.length) (encodeItems data) data := by
  induction data with
  | nil => exact pure []
  | cons o os ih =>
    have hhead := h o mem_cons_self
    have htail := ih fun o' ho' => h o' (mem_cons_of_mem o ho')
    rw [encodeItems]
    exact hhead.bind (htail.map fun os => o :: os)

variable {fuel : Nat} {data : List (Bytes × CObject)}

/-- Reading the entries puts them behind those that are already there, when that is where `set` puts
each of them. -/
theorem decodePairs_decodes {set : Bytes → CObject → List (Bytes × CObject) → List (Bytes × CObject)} {acc : List (Bytes × CObject)} (hfuel : data.length < fuel)
    (h : ∀ e ∈ data, DecodesFrom 0 next e.2.encode e.2) (hkeys : ∀ e ∈ data, IsKey e.1)
    (hset : ∀ l e l', acc ++ data = l ++ e :: l' → set e.1 e.2 l = l ++ [e]) :
    DecodesFrom 0 (decodePairs next set fuel acc) (encodePairs data ++ Amf0Util.putString [])
      (acc ++ data) := by
  induction data generalizing fuel acc with
  | nil =>
    rcases Nat.exists_eq_succ_of_ne_zero (Nat.ne_of_gt hfuel) with ⟨fuel, rfl⟩
    have hend : DecodesFrom 0 (if ([] : Bytes) = [] then pure acc
        else next >>= fun value => decodePairs next set fuel (set [] value acc)) [] acc :=
      Reader.Reads.pure acc
    have hkey : DecodesFrom 0 pickString (putString []) [] :=
      pickString_decodes (by decide)
    have hread := hkey.bind (f := fun key => if key = [] then pure acc
      else next >>= fun value => decodePairs next set fuel (set key value acc)) hend
    rw [encodePairs, nil_append, append_nil]
    rwa [append_nil] at hread
  | cons e rest ih =>
    rcases e with ⟨key, value⟩
    rcases Nat.exists_eq_succ_of_ne_zero (Nat.ne_of_gt (Nat.lt_of_le_of_lt (Nat.zero_le _) hfuel)) with
      ⟨fuel, rfl⟩
    have hiskey : IsKey key := hkeys (key, value) mem_cons_self
    have hvalue : DecodesFrom 0 next value.encode value := h (key, value) mem_cons_self
    have hput : set key value acc = acc ++ [(key, value)] := hset acc (key, value) rest rfl
    have hrest : DecodesFrom 0 (decodePairs next set fuel (acc ++ [(key, value)]))
        (encodePairs rest ++ putString []) (acc ++ (key, value) :: rest) := by
      have hacc : acc ++ (key, value) :: rest = acc ++ [(key, value)] ++ rest := by
        rw [append_assoc, singleton_append]
      rw [hacc] at hset ⊢
      exact ih (Nat.lt_of_succ_lt_succ hfuel) (fun e he => h e (mem_cons_of_mem _ he))
        (fun e he => hkeys e (mem_cons_of_mem _ he)) hset
    rw [← hput] at hrest
    have hbranch : DecodesFrom 0 (if key = [] then pure acc
        else next >>= fun value => decodePairs next set fuel (set key value acc))
        (value.encode ++ (encodePairs rest ++ putString [])) (acc ++ (key, value) :: rest) := by
      rw [if_neg hiskey.1]
      exact hvalue.bind hrest
    have hkey : DecodesFrom 0 pickString (putString key) key :=
      pickString_decodes hiskey.2
    have hread := hkey.bind (f := fun key => if key = [] then pure acc
      else next >>= fun value => decodePairs next set fuel (set key value acc)) hbranch
    rw [encodePairs, append_assoc, append_assoc]
    exact hread

/-- An array of at most the maximum size is read back, when its elements are. -/
theorem decodeArray_decodes {data : List CObject} (hlen : data.length ≤ kMaximumArraySize)
    (h : ∀ o ∈ data, DecodesFrom 0 next o.encode o) {k : Nat} :
    DecodesFrom k (decodeArray next) (array data).encode (array data) := by
  have hsize : (Int32.ofNat data.length).toInt = data.length := by
    apply Int32.toInt_ofNat_of_lt
    exact Nat.lt_of_le_of_lt hlen (by decide)
  have hitems : DecodesFrom 0 (if (kMaximumArraySize : Int) < (Int32.ofNat data.length).toInt
      then failWith .structTooLong
      else decodeItems next (Int32.ofNat data.length).toInt.toNat >>= fun data => pure (array data))
      (encodeItems data) (array data) := by
    rw [hsize, if_neg (by omega), Int.toNat_natCast]
    exact (decodeItems_decodes h).map array
  have hread : DecodesFrom 4 (readInt32 .bigEndian >>= fun size =>
      if (kMaximumArraySize : Int) < size.toInt then failWith .structTooLong
      else decodeItems next size.toInt.toNat >>= fun data => pure (array data)) _ (array data) :=
    field (readInt32_gets _ .bigEndian) (writeNumber_length 4 _ _)
      hitems (Nat.le_refl 4)
  rw [encode]
  apply tagged_decodes _ hread (Nat.le_refl 5)
  rw [length_append, writeInt32, writeNumber_length]
  omega

/-- The entries of a map and the end of the object. -/
theorem decodePairs_end_decodes {γ : Type}
    {set : Bytes → CObject → List (Bytes × CObject) → List (Bytes × CObject)} (make : List (Bytes × CObject) → γ) (hfuel : data.length < fuel)
    (h : ∀ e ∈ data, DecodesFrom 0 next e.2.encode e.2) (hkeys : ∀ e ∈ data, IsKey e.1)
    (hset : ∀ l e l', data = l ++ e :: l' → set e.1 e.2 l = l ++ [e]) :
    DecodesFrom 0 (decodePairs next set fuel [] >>= fun data =>
      Amf0Util.readGenericObjectEnd >>= fun _ => pure (make data))
      (encodePairs data ++ (Amf0Util.putString [] ++ Amf0Util.writeGenericObjectEnd)) (make data) := by
  have hend : DecodesFrom 0 (readGenericObjectEnd >>= fun _ => pure (make data))
      writeGenericObjectEnd (make data) :=
    readGenericObjectEnd_decodes.map fun _ => make data
  have hpairs : DecodesFrom 0 (decodePairs next set fuel []) _ data :=
    decodePairs_decodes hfuel h hkeys hset
  have hread := hpairs.bind (f := fun data =>
    readGenericObjectEnd >>= fun _ => pure (make data)) hend
  rwa [append_assoc] at hread

/-- In a map without repeated keys every entry goes behind those before it. -/
theorem setLast_part (hnodup : (AssocList.keys data).Nodup)
    (l : List (Bytes × CObject)) (e : Bytes × CObject) (l' : List (Bytes × CObject))
    (hl : data = l ++ e :: l') : AssocList.setLast e.1 e.2 l = l ++ [e] := by
  rw [hl, AssocList.keys_append, AssocList.keys_cons, nodup_append] at hnodup
  apply setLast_of_not_mem
  intro hmem
  exact hnodup.2.2 e.1 hmem e.1 mem_cons_self rfl

/-- In a map in the order of the keys every entry goes behind those before it. -/
theorem setSorted_part (hsorted : (AssocList.keys data).Pairwise fun a b => a < b) (l : List (Bytes × CObject))
    (e : Bytes × CObject) (l' : List (Bytes × CObject)) (hl : data = l ++ e :: l') :
    AssocList.setSorted e.1 e.2 l = l ++ [e] := by
  rw [hl, AssocList.keys_append, AssocList.keys_cons, pairwise_append] at hsorted
  apply setSorted_of_lt
  intro key hkey
  exact hsorted.2.2 key hkey e.1 mem_cons_self

theorem decodeStringMap_decodes {k : Nat} (hfuel : data.length < fuel)
    (h : ∀ e ∈ data, DecodesFrom 0 next e.2.encode e.2) (hkeys : ∀ e ∈ data, IsKey e.1)
    (hnodup : (AssocList.keys data).Nodup) :
    DecodesFrom k (decodeStringMap next fuel) (stringMap data).encode (stringMap data) := by
  have hread : DecodesFrom 0 (decodePairs next setLast fuel [] >>= fun data =>
      readGenericObjectEnd >>= fun _ => pure (stringMap data)) _ (stringMap data) :=
    decodePairs_end_decodes stringMap hfuel h hkeys (setLast_part hnodup)
  rw [encode]
  apply tagged_decodes _ hread (by decide)
  rw [length_append, length_append, putString_length]
  omega

theorem decodeMixedMap_decodes {γ : Type} (make : Int32 → List (Bytes × CObject) → γ) {k : Nat} (unknown : Int32)
    (hfuel : data.length < fuel) (h : ∀ e ∈ data, DecodesFrom 0 next e.2.encode e.2)
    (hkeys : ∀ e ∈ data, IsKey e.1) (hsorted : (AssocList.keys data).Pairwise fun a b => a < b) :
    DecodesFrom k (decodeMixedMap make next fuel) (mixedMap unknown data).encode (make unknown data) := by
  have hpairs : DecodesFrom 0 (decodePairs next setSorted fuel [] >>= fun data =>
      readGenericObjectEnd >>= fun _ => pure (make unknown data)) _ (make unknown data) :=
    decodePairs_end_decodes (make unknown) hfuel h hkeys (setSorted_part hsorted)
  have hread : DecodesFrom 4 (readInt32 .bigEndian >>= fun unknown =>
      decodePairs next setSorted fuel [] >>= fun data =>
        readGenericObjectEnd >>= fun _ => pure (make unknown data)) _ (make unknown data) :=
    field (readInt32_gets unknown .bigEndian)
      (writeNumber_length 4 _ _) hpairs (Nat.le_refl 4)
  rw [encode]
  apply tagged_decodes _ hread (Nat.le_refl 5)
  rw [length_append, writeInt32, writeNumber_length]
  omega

end Loops

/-! ## Sizes -/

variable {o : CObject}

theorem encode_length_le_items {data : List CObject} (h : o ∈ data) : o.encode.length ≤ (encodeItems data).length := by
  induction data with
  | nil => exact absurd h not_mem_nil
  | cons o' os ih =>
    rw [encodeItems, length_append]
    rcases mem_cons.1 h with heq | hmem
    · rw [heq]
      exact Nat.le_add_right _ _
    · exact Nat.le_trans (ih hmem) (Nat.le_add_left _ _)

variable {data : List (Bytes × CObject)}

theorem encode_length_le_pairs {e : Bytes × CObject} (h : e ∈ data) :
    e.2.encode.length ≤ (encodePairs data).length := by
  induction data with
  | nil => exact absurd h not_mem_nil
  | cons e' rest ih =>
    rw [encodePairs, length_append, length_append]
    rcases mem_cons.1 h with heq | hmem
    · rw [heq]
      omega
    · have hle := ih hmem
      omega

theorem length_le_encodePairs (data : List (Bytes × CObject)) : data.length ≤ (encodePairs data).length := by
  induction data with
  | nil => exact Nat.zero_le _
  | cons e rest ih =>
    rw [encodePairs, length_append, length_append, putString_length, length_cons]
    omega

theorem encodePairs_length_lt (unknown : Int32) (data : List (Bytes × CObject)) :
    (encodePairs data).length + 1 < (mixedMap unknown data).encode.length := by
  rw [encode, length_cons, length_append, length_append, length_append,
    putString_length]
  omega

theorem itemsSize_eq {data : List CObject} (h : ∀ o ∈ data, o.encodingSize = UInt32.ofNat o.encode.length) :
    itemsSize data = UInt32.ofNat (encodeItems data).length := by
  induction data with
  | nil => rfl
  | cons o os ih =>
    rw [itemsSize, encodeItems, length_append, UInt32.ofNat_add, h o mem_cons_self,
      ih fun o' ho' => h o' (mem_cons_of_mem o ho')]

theorem pairsSize_eq (h : ∀ e ∈ data, e.2.encodingSize = UInt32.ofNat e.2.encode.length) :
    pairsSize data = UInt32.ofNat (encodePairs data).length := by
  induction data with
  | nil => rfl
  | cons e rest ih =>
    rw [pairsSize, encodePairs, length_append, length_append, putString_length,
      UInt32.ofNat_add, UInt32.ofNat_add, UInt32.ofNat_add, h e mem_cons_self,
      ih fun e' he' => h e' (mem_cons_of_mem e he'), ← UInt32.add_assoc]
    rfl

/-- `EncodingSize` is the number of bytes that `Encode` writes, as a `uint32`. -/
theorem encodingSize_eq (h : Encodable o) : o.encodingSize = UInt32.ofNat o.encode.length := by
  induction h with
  | null => rfl
  | boolean v => rfl
  | number v => rw [encodingSize, encode, length_cons, writeDouble,
      writeNumber_length]; rfl
  | @string v hlen =>
    rw [encodingSize, encode, writeString_length]
    split
    · rfl
    · rfl
  | date tz hms => rw [encodingSize, encode, length_cons, length_append, writeDouble,
      writeInt16, writeNumber_length, writeNumber_length]; rfl
  | recordSet => rfl
  | recordSetPage => rfl
  | @array data hlen hdata ih =>
    have hlength : (array data).encode.length = 5 + (encodeItems data).length := by
      rw [encode, length_cons, length_append, writeInt32,
        writeNumber_length]
      omega
    rw [encodingSize, itemsSize_eq ih, hlength, UInt32.ofNat_add]
    rfl
  | @stringMap data hkeys hnodup hdata ih =>
    have hlength : (stringMap data).encode.length = 1 + (encodePairs data).length + 2 + 1 := by
      rw [encode, length_append, length_append, length_append, putString_length,
        writeGenericObjectBegin, writeGenericObjectEnd, length_singleton]
      simp only [length_singleton, length_nil]
      omega
    rw [encodingSize, pairsSize_eq ih, hlength, UInt32.ofNat_add, UInt32.ofNat_add, UInt32.ofNat_add]
    rfl
  | @mixedMap data unknown hkeys hsorted hdata ih =>
    have hlength : (mixedMap unknown data).encode.length = 1 + 4 + (encodePairs data).length + 2 + 1 := by
      rw [encode, length_cons, length_append, length_append, length_append,
        putString_length, writeGenericObjectEnd, writeInt32,
        writeNumber_length]
      simp only [length_singleton, length_nil]
      omega
    rw [encodingSize, pairsSize_eq ih, hlength, UInt32.ofNat_add, UInt32.ofNat_add, UInt32.ofNat_add]
    rfl

/-! ## Equality -/

theorem equalsItems_self {data : List CObject} (h : ∀ o ∈ data, o.equals o = o.nanFree) :
    equalsItems data data = nanFreeItems data := by
  induction data with
  | nil => rfl
  | cons o os ih =>
    rw [equalsItems, nanFreeItems, h o mem_cons_self, ih fun o' ho' => h o' (mem_cons_of_mem o ho')]

/-- Every entry of a part of a map is found in the map. -/
theorem equalsPairs_part {part : List (Bytes × CObject)} (hnodup : (AssocList.keys data).Nodup)
    (hpart : ∀ e ∈ part, e ∈ data) (h : ∀ e ∈ part, e.2.equals e.2 = e.2.nanFree) :
    equalsPairs part data = nanFreePairs part := by
  induction part with
  | nil => rfl
  | cons e rest ih =>
    rcases e with ⟨key, value⟩
    have hlook : data.lookup key = some value :=
      lookup_of_mem hnodup (hpart (key, value) mem_cons_self)
    have hvalue : value.equals value = value.nanFree := h (key, value) mem_cons_self
    rw [equalsPairs, nanFreePairs, hlook]
    dsimp only
    rw [hvalue, ih (fun e he => hpart e (mem_cons_of_mem _ he))
      fun e he => h e (mem_cons_of_mem _ he)]

/-- An object equals itself exactly when no number in it is a NaN. -/
theorem equals_self (h : Encodable o) : o.equals o = o.nanFree := by
  induction h with
  | null => rfl
  | boolean v => exact beq_self_eq_true v
  | number v => exact eq_self v
  | @string v hlen => exact beq_self_eq_true v
  | @date ms tz hms =>
    rw [equals, nanFree, beq_self_eq_true, beq_self_eq_true]
    · rfl
    all_goals intros; contradiction
  | recordSet => rfl
  | recordSetPage => rfl
  | @array data hlen hdata ih =>
    rw [equals, nanFree, beq_self_eq_true, Bool.true_and, equalsItems_self ih]
  | @stringMap data hkeys hnodup hdata ih =>
    rw [equals, nanFree, beq_self_eq_true, Bool.true_and, equalsPairs_part hnodup (fun _ he => he) ih]
  | @mixedMap data unknown hkeys hsorted hdata ih =>
    have hnodup : (keys data).Nodup := by
      apply hsorted.imp
      intro a b hab heq
      rw [heq] at hab
      exact List.lt_irrefl b hab
    rw [equals, nanFree, beq_self_eq_true, Bool.true_and, equalsPairs_part hnodup (fun _ he => he) ih]

/-! ## ReadNextObject -/

/-- The type byte is peeked, and the decoder of that type reads the whole encoding. -/
theorem readObject_type_decodes {fuel : Nat} {obtype : UInt8} {w : Bytes} (hfuel : 0 < fuel)
    (h : DecodesFrom 1 (decodeByType (readObject (fuel - 1)) (fuel - 1) obtype) (obtype :: w) o) :
    DecodesFrom 0 (readObject fuel) (obtype :: w) o := by
  rcases Nat.exists_eq_succ_of_ne_zero (Nat.ne_of_gt hfuel) with ⟨fuel, rfl⟩
  have hbyte : DecodesFrom 1 (readByte : Decoder UInt8) [obtype] obtype :=
    lastField (readByte_gets obtype) rfl
  have hpeek : DecodesFrom 1 (peekByte >>= decodeByType (readObject fuel) fuel)
      ([obtype] ++ w) o := hbyte.lookahead rfl h
  exact DecodesFrom.needData hpeek (Nat.le_add_left 1 _)

/-- An object is read back with any fuel above the length of its encoding. -/
theorem readObject_decodes (h : Encodable o) {fuel : Nat} (hfuel : o.encode.length < fuel) :
    DecodesFrom 0 (readObject fuel) o.encode o := by
  induction h generalizing fuel with
  | null =>
    have hd := decodeNull_decodes (k := 1)
    exact readObject_type_decodes (Nat.zero_lt_of_lt hfuel) hd
  | boolean v =>
    have hd := decodeBoolean_decodes (k := 1) v
    exact readObject_type_decodes (Nat.zero_lt_of_lt hfuel) hd
  | number v =>
    have hd := decodeNumber_decodes (k := 1) v
    exact readObject_type_decodes (Nat.zero_lt_of_lt hfuel) hd
  | @string v hlen =>
    have hd := decodeString_decodes (k := 1) hlen
    rw [encode, writeString] at hd ⊢
    by_cases hshort : v.length < longStringLength
    · rw [if_pos hshort] at hd ⊢
      exact readObject_type_decodes (Nat.zero_lt_of_lt hfuel) hd
    · rw [if_neg hshort] at hd ⊢
      exact readObject_type_decodes (Nat.zero_lt_of_lt hfuel) hd
  | @date ms tz hms =>
    have hd := decodeDate_decodes (k := 1) tz hms
    exact readObject_type_decodes (Nat.zero_lt_of_lt hfuel) hd
  | recordSet =>
    have hlen : recordSetName.length ≤ kMaximumStringReadableData := by decide
    rw [encode]
    exact readObject_type_decodes (Nat.zero_lt_of_lt hfuel) (peekClassName_decodes hlen rfl)
  | recordSetPage =>
    have hlen : recordSetPageName.length ≤ kMaximumStringReadableData := by decide
    rw [encode]
    exact readObject_type_decodes (Nat.zero_lt_of_lt hfuel) (peekClassName_decodes hlen rfl)
  | @array data hlen hdata ih =>
    -- The elements are shorter than the array, so the fuel that is left is enough for each.
    have hitems : ∀ o ∈ data, DecodesFrom 0 (readObject (fuel - 1)) o.encode o := by
      intro o ho
      have hle := encode_length_le_items ho
      rw [encode, length_cons, length_append] at hfuel
      exact ih o ho (by omega)
    have hd := decodeArray_decodes (k := 1) hlen hitems
    exact readObject_type_decodes (Nat.zero_lt_of_lt hfuel) hd
  | @stringMap data hkeys hnodup hdata ih =>
    have hlength := length_le_encodePairs data
    have hpairs : (encodePairs data).length < fuel - 1 := by
      rw [encode, length_append, length_append, length_append,
        putString_length] at hfuel
      omega
    have hitems : ∀ e ∈ data, DecodesFrom 0 (readObject (fuel - 1)) e.2.encode e.2 := by
      intro e he
      exact ih e he (Nat.lt_of_le_of_lt (encode_length_le_pairs he) hpairs)
    have hd := decodeStringMap_decodes (k := 1) (Nat.lt_of_le_of_lt hlength hpairs) hitems hkeys hnodup
    exact readObject_type_decodes (Nat.zero_lt_of_lt hfuel) hd
  | @mixedMap data unknown hkeys hsorted hdata ih =>
    have hlength := length_le_encodePairs data
    have hpairs : (encodePairs data).length < fuel - 1 := by
      have hlt := encodePairs_length_lt unknown data
      omega
    have hitems : ∀ e ∈ data, DecodesFrom 0 (readObject (fuel - 1)) e.2.encode e.2 := by
      intro e he
      exact ih e he (Nat.lt_of_le_of_lt (encode_length_le_pairs he) hpairs)
    have hd := decodeMixedMap_decodes mixedMap (k := 1) unknown (Nat.lt_of_le_of_lt hlength hpairs) hitems hkeys
      hsorted
    exact readObject_type_decodes (Nat.zero_lt_of_lt hfuel) hd

end CObject

namespace Amf0Util

/-- `ReadNextObject` reads an object back, and misses data on every proper initial part of it. -/
theorem readNextObject_decodes {o : CObject} (h : o.Encodable) : DecodesFrom 0 readNextObject o.encode o := by
  constructor
  · intro rest
    have hfuel : (o.encode ++ rest).length < (o.encode ++ rest).length + 1 := Nat.lt_succ_self _
    have hlen : o.encode.length < (o.encode ++ rest).length + 1 := by
      rw [length_append]
      omega
    rw [← readObject_eq_readNextObject hfuel]
    exact (readObject_decodes h hlen).gets rest
  · intro p hp hne hn
    have hfuel : p.length < o.encode.length + 1 := Nat.lt_succ_of_le hp.length_le
    rw [← readObject_eq_readNextObject hfuel]
    exact (readObject_decodes h (Nat.lt_succ_self _)).2 p hp hne hn

end Amf0Util

/-- A mixed map is read back by its own `Decode` as well. -/
theorem CMixedMap.decode_decodes {m : CMixedMap} (h : m.toObject.Encodable) :
    DecodesFrom 0 CMixedMap.decode m.toObject.encode m := by
  have hfuel : ∀ fuel, m.toObject.encode.length < fuel →
      DecodesFrom 0 (CMixedMap.decodeFuel fuel) m.toObject.encode m := by
    intro fuel hfuel
    rcases m with ⟨unknown, data⟩
    cases h with
    | mixedMap _ hkeys hsorted hdata =>
      have hlt := encodePairs_length_lt unknown data
      have hlength := length_le_encodePairs data
      dsimp only [CMixedMap.toObject] at hfuel hkeys hsorted hdata
      have hitems : ∀ e ∈ data, DecodesFrom 0 (readObject fuel) e.2.encode e.2 := by
        intro e he
        have hle := encode_length_le_pairs he
        exact readObject_decodes (hdata e he) (by omega)
      have hroom : data.length < fuel := by omega
      exact decodeMixedMap_decodes CMixedMap.mk unknown hroom hitems hkeys hsorted
  constructor
  · intro rest
    have hlen : m.toObject.encode.length < (m.toObject.encode ++ rest).length + 1 := by
      rw [length_append]
      omega
    rw [← CMixedMap.decodeFuel_eq_decode (Nat.lt_succ_self _)]
    exact (hfuel _ hlen).gets rest
  · intro p hp hne hn
    have hlen : p.length < m.toObject.encode.length + 1 := Nat.lt_succ_of_le hp.length_le
    rw [← CMixedMap.decodeFuel_eq_decode hlen]
    exact (hfuel _ (Nat.lt_succ_self _)).2 p hp hne hn

/-! ## The round trip -/

/-- `EncodingSize` counts the bytes of the encoding; the encoding followed by anything is read as the same
object, which is equal to it unless a NaN is inside, and everything behind it is left; a proper initial
part of the encoding is reported as incomplete. -/
theorem amf0_round_trip {o : CObject} (h : o.Encodable) : o.encodingSize.toNat = o.encode.length % 2 ^ 32 ∧
      (∀ rest, Amf0Util.readNextObject (o.encode ++ rest) = (.ok o, rest)) ∧
      o.equals o = o.nanFree ∧
      ∀ p, p <+: o.encode → p ≠ o.encode →
        (Amf0Util.readNextObject p).1 = .error (.status .noData) := by
  have hread := readNextObject_decodes h
  refine ⟨?_, hread.gets, equals_self h, ?_⟩
  · rw [encodingSize_eq h, UInt32.toNat_ofNat']
  · intro p hp hne
    exact hread.2 p hp hne (Nat.zero_le _)

/-- A mixed map inside an array. -/
theorem amf0_round_trip_nested : Amf0Util.readNextObject
        ((CObject.array [.mixedMap 1 [([97], .date (-5) 0)], .null]).encode ++ [9, 8]) =
      (.ok (.array [.mixedMap 1 [([97], .date (-5) 0)], .null]), [9, 8]) := by
  have hdate : (date (-5) 0).Encodable := .date 0 ⟨5, 0, by decide, by decide⟩
  have hmap : (mixedMap 1 [([97], .date (-5) 0)]).Encodable := by
    refine .mixedMap 1 ?_ (pairwise_singleton _ _) ?_
    · intro e he
      rw [mem_singleton.1 he]
      exact ⟨by decide, by decide⟩
    · intro e he
      rw [mem_singleton.1 he]
      exact hdate
  have harray : (array [.mixedMap 1 [([97], .date (-5) 0)], .null]).Encodable := by
    refine .array (by decide) ?_
    intro o ho
    rcases mem_cons.1 ho with rfl | ho
    · exact hmap
    · rw [mem_singleton.1 ho]
      exact .null
  exact (amf0_round_trip harray).2.1 [9, 8]

/-- The encoding of a NaN is read as an object that is not equal to the original. -/
theorem nan_read_back_not_equal : (CObject.number 0x7FF8000000000000).Encodable ∧
    ∃ o, Amf0Util.readNextObject (CObject.number 0x7FF8000000000000).encode = (.ok o, []) ∧
      o.equals (CObject.number 0x7FF8000000000000) = false ∧
      (CObject.number 0x7FF8000000000000).equals o = false :=
  ⟨.number _, .number 0x7FF8000000000000, rfl, by decide, by decide⟩

end Whispercast.Amf
