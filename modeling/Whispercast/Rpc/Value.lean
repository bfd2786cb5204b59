import Whispercast.Rpc.BinaryLaws
import Whispercast.Rpc.JsonLaws
import Whispercast.Library.AssocList

/-!
# Encoded values

The templates `Encoder::Encode` and `Decoder::Decode` for vectors and maps, and the values that are built with
them. In the source the type of a value is a C++ type; here the types are an enumeration (`ValueType`), and the
template instances one function on it.
-/

namespace Whispercast.Rpc

open Io Library StateReader List Regular TurnTakes

/-- The types of map keys. -/
inductive KeyType where
  | int32
  | uint32
  | int64
  | uint64
  | string

/-- The types of values. -/
inductive ValueType where
  | void
  | bool
  | int32
  | uint32
  | int64
  | uint64
  | string
  | vector (t : ValueType)
  | map (k : KeyType) (t : ValueType)

/-- The keys of a type. -/
abbrev KeyType.Val : KeyType → Type
  | .int32 => Int32
  | .uint32 => UInt32
  | .int64 => Int64
  | .uint64 => UInt64
  | .string => Bytes

/-- The values of a type. A `std::map` is the list of its entries in the order of the keys. -/
abbrev ValueType.Val : ValueType → Type
  | .void => Unit
  | .bool => Bool
  | .int32 => Int32
  | .uint32 => UInt32
  | .int64 => Int64
  | .uint64 => UInt64
  | .string => Bytes
  | .vector t => List t.Val
  | .map k t => List (k.Val × t.Val)

/-- The order of the keys; strings are compared byte by byte. -/
def KeyType.lt : (k : KeyType) → k.Val → k.Val → Prop
  | .int32, a, b => a < b
  | .uint32, a, b => a < b
  | .int64, a, b => a < b
  | .uint64, a, b => a < b
  | .string, a, b => a < b

instance (k : KeyType) : LT k.Val := ⟨k.lt⟩

instance (k : KeyType) : DecidableLT k.Val := fun a b =>
  match k, a, b with
  | .int32, a, b => inferInstanceAs (Decidable ((a : Int32) < b))
  | .uint32, a, b => inferInstanceAs (Decidable ((a : UInt32) < b))
  | .int64, a, b => inferInstanceAs (Decidable ((a : Int64) < b))
  | .uint64, a, b => inferInstanceAs (Decidable ((a : UInt64) < b))
  | .string, a, b => inferInstanceAs (Decidable ((a : Bytes) < b))

instance (k : KeyType) : DecidableEq k.Val := fun a b =>
  match k, a, b with
  | .int32, a, b => inferInstanceAs (Decidable ((a : Int32) = b))
  | .uint32, a, b => inferInstanceAs (Decidable ((a : UInt32) = b))
  | .int64, a, b => inferInstanceAs (Decidable ((a : Int64) = b))
  | .uint64, a, b => inferInstanceAs (Decidable ((a : UInt64) = b))
  | .string, a, b => inferInstanceAs (Decidable ((a : Bytes) = b))

instance (k : KeyType) : Std.Asymm fun a b : k.Val => a < b := by
  constructor
  intro a b
  cases k with
  | int32 => exact fun h h' => Int32.lt_irrefl (Int32.lt_trans h h')
  | uint32 => exact fun h h' => UInt32.lt_irrefl _ (UInt32.lt_trans h h')
  | int64 => exact fun h h' => Int64.lt_irrefl (Int64.lt_trans h h')
  | uint64 => exact fun h h' => UInt64.lt_irrefl _ (UInt64.lt_trans h h')
  | string => exact fun h h' => List.lt_irrefl (a : Bytes) (List.lt_trans h h')

/-! ## Encoding -/

/-- The items of a container, with a text between them. -/
def separated (separator : Bytes) : List Bytes → Bytes
  | [] => []
  | item :: items => item ++ items.flatMap fun item => separator ++ item

/-- The pairs of a map from the `i`-th one on: the separator is written behind a pair unless the count, a
`uint32`, says that it is the last one. -/
def countedPairs (separator : Bytes) (count : Nat) : Nat → List Bytes → Bytes
  | _, [] => []
  | i, pair :: pairs =>
    pair ++ ((if i + 1 < count then separator else []) ++ countedPairs separator count (i + 1) pairs)

/-- `Encode(vector<T>)`: the count is a `uint32`, and so many items are encoded. -/
def Encoder.encodeVector {α : Type} (e : Encoder) (item : α → Bytes) (obj : List α) : Bytes :=
  let count := UInt32.ofNat obj.length
  e.encodeArrayStart count ++
    (separated e.encodeArrayContinue ((obj.take count.toNat).map item) ++ e.encodeArrayEnd)

/-- One pair of a map. -/
def Encoder.encodePair (e : Encoder) (key value : Bytes) : Bytes :=
  e.encodeMapPairStart ++ (key ++ (e.encodeMapPairMiddle ++ (value ++ e.encodeMapPairEnd)))

/-- `Encode(map<K, V>)`. -/
def Encoder.encodeMap {κ α : Type} (e : Encoder) (key : κ → Bytes) (value : α → Bytes) (obj : List (κ × α)) : Bytes :=
  let count := UInt32.ofNat obj.length
  e.encodeMapStart count ++
    (countedPairs e.encodeMapContinue count.toNat 0 (obj.map fun pair => e.encodePair (key pair.1) (value pair.2)) ++
      e.encodeMapEnd)

/-- `Encode` of a map key. -/
def KeyType.encode (e : Encoder) : (k : KeyType) → k.Val → Bytes
  | .int32, v => e.encodeInt32 true v
  | .uint32, v => e.encodeUInt32 true v
  | .int64, v => e.encodeInt64 true v
  | .uint64, v => e.encodeUInt64 true v
  | .string, v => e.encodeString v

/-- `Encode` of a value. -/
def ValueType.encode (e : Encoder) : (t : ValueType) → t.Val → Bytes
  | .void, _ => e.encodeVoid
  | .bool, v => e.encodeBool v
  | .int32, v => e.encodeInt32 false v
  | .uint32, v => e.encodeUInt32 false v
  | .int64, v => e.encodeInt64 false v
  | .uint64, v => e.encodeUInt64 false v
  | .string, v => e.encodeString v
  | .vector t, v => e.encodeVector (t.encode e) v
  | .map k t, v => e.encodeMap (k.encode e) (t.encode e) v

/-! ## Decoding -/

/-- One turn of the loop in `Decode(vector<T>)`. -/
def Decoder.decodeItem {α : Type} (d : Decoder) (item : Decoding α) (out : List α) :
    Decoding (List α ⊕ List α) := do
  let more ← d.decodeArrayContinue
  if more then do
    let x ← item
    pure (.inl (out ++ [x]))
  else pure (.inr out)

/-- `Decode(vector<T>)`. -/
def Decoder.decodeVector {α : Type} (d : Decoder) (item : Decoding α) : Decoding (List α) := do
  d.decodeArrayStart
  iterate (d.decodeItem item) .error []

/-- One turn of the loop in `Decode(map<K, V>)`. -/
def Decoder.decodePair {κ α : Type} [LT κ] [DecidableLT κ] [DecidableEq κ] (d : Decoder) (key : Decoding κ)
    (value : Decoding α) (out : List (κ × α)) : Decoding (List (κ × α) ⊕ List (κ × α)) := do
  let more ← d.decodeMapContinue
  if more then do
    d.decodeMapPairStart
    let k ← key
    d.decodeMapPairMiddle
    let v ← value
    d.decodeMapPairEnd
    pure (.inl (AssocList.setSorted k v out))
  else pure (.inr out)

/-- `Decode(map<K, V>)`. -/
def Decoder.decodeMap {κ α : Type} [LT κ] [DecidableLT κ] [DecidableEq κ] (d : Decoder) (key : Decoding κ)
    (value : Decoding α) : Decoding (List (κ × α)) := do
  d.decodeMapStart
  iterate (d.decodePair key value) .error []

/-- `Decode` of a map key. -/
def KeyType.decode (d : Decoder) : (k : KeyType) → Decoding k.Val
  | .int32 => d.decodeInt32
  | .uint32 => d.decodeUInt32
  | .int64 => d.decodeInt64
  | .uint64 => d.decodeUInt64
  | .string => d.decodeString

/-- `Decode` of a value. -/
def ValueType.decode (d : Decoder) : (t : ValueType) → Decoding t.Val
  | .void => d.decodeVoid
  | .bool => d.decodeBool
  | .int32 => d.decodeInt32
  | .uint32 => d.decodeUInt32
  | .int64 => d.decodeInt64
  | .uint64 => d.decodeUInt64
  | .string => d.decodeString
  | .vector t => d.decodeVector (t.decode d)
  | .map k t => d.decodeMap (k.decode d) (t.decode d)

/-! ## Values that come back -/

section Good

variable (str : Bytes → Prop) (u64 : UInt64 → Prop)

/-- The strings and the 64-bit numbers in the key come back. -/
def KeyType.Good : (k : KeyType) → k.Val → Prop
  | .int32, _ => True
  | .uint32, _ => True
  | .int64, _ => True
  | .uint64, v => u64 v
  | .string, v => str v

/-- The strings and the 64-bit numbers in the value come back, each container has a count that fits in a `uint32`,
and the keys of a map are in order. -/
def ValueType.Good : (t : ValueType) → t.Val → Prop
  | .void, _ => True
  | .bool, _ => True
  | .int32, _ => True
  | .uint32, _ => True
  | .int64, _ => True
  | .uint64, v => u64 v
  | .string, v => str v
  | .vector t, v => v.length < 2 ^ 32 ∧ ∀ x ∈ v, t.Good x
  | .map k t, v => v.length < 2 ^ 32 ∧ v.Pairwise (fun a b => a.1 < b.1) ∧ ∀ e ∈ v, k.Good str u64 e.1 ∧ t.Good e.2

end Good

theorem countedPairs_eq (separator : Bytes) {count i : Nat} {pairs : List Bytes} (h : i + pairs.length = count) :
    countedPairs separator count i pairs = separated separator pairs := by
  -- Behind the first pair the separators can be read as standing in front of the next one.
  have hrest : ∀ pairs i, i + 1 + pairs.length = count →
      (if i + 1 < count then separator else []) ++ countedPairs separator count (i + 1) pairs =
        pairs.flatMap fun pair => separator ++ pair := by
    intro pairs
    induction pairs with
    | nil =>
      intro i hi
      rw [length_nil] at hi
      rw [if_neg (by omega)]
      rfl
    | cons pair pairs ih =>
      intro i hi
      rw [length_cons] at hi
      rw [if_pos (by omega), countedPairs, ih (i + 1) (by omega), flatMap_cons, append_assoc]
  cases pairs with
  | nil => rfl
  | cons pair pairs =>
    rw [length_cons] at h
    rw [countedPairs, separated, hrest pairs i (by omega)]

section RoundTrip

variable {e : Encoder} {d : Decoder} {blank : UInt8 → Prop} {next : Bytes → Prop}
  {At : Bool → List Nat → DecoderState → Prop} {Fresh : List Nat → DecoderState → Prop} {Opens : Bytes → Prop}

section Vectors

variable (arrays : ArrayLaws e d blank next At Fresh Opens) {α : Type} {item : Decoding α} {text : α → Bytes}
  (hitem : Regular .notEnoughData (fun _ => True) 1 item)
  (hcontinue : Regular .notEnoughData (fun _ => True) 0 d.decodeArrayContinue)

include hitem hcontinue

theorem regular_decodeItem (out : List α) : Regular .notEnoughData (fun _ => True) 0 (d.decodeItem item out) := by
  apply hcontinue.bind_left
  intro more
  split_ifs
  · exact (hitem.bind_left fun _ => pure _).mono (Nat.zero_le 1)
  · exact pure _

theorem decodeItem_progress : Progress (d.decodeItem item) := by
  intro out
  apply bind hcontinue.takes
  intro more
  split_ifs
  · exact of_takes (hitem.bind_left fun _ => pure _).takes
  · exact last out

include arrays

/-- The rest of the loop, behind an item. -/
theorem gets_items {vs : List α} (ns : List Nat) (out : List α)
    (hgets : ∀ v ∈ vs, ∀ ns, Gets blank next (At false ns) item (text v) v (At false ns)) :
    Gets blank Anything (At false (vs.length :: ns)) (iterate (d.decodeItem item) .error out)
      (vs.flatMap (fun v => e.encodeArrayContinue ++ text v) ++ e.encodeArrayEnd) (out ++ vs) (At false ns) := by
  have hprogress := decodeItem_progress hitem hcontinue
  induction vs generalizing out with
  | nil =>
    have hlast : Gets blank Anything (At false (0 :: ns)) (d.decodeItem item out) e.encodeArrayEnd (.inr out)
        (At false ns) := arrays.done.bind_nil (Gets.pure (Sum.inr out))
    rw [flatMap_nil, nil_append, append_nil]
    exact Gets.iterate_last hprogress hlast
  | cons v vs ih =>
    have hone : Gets blank next (At false (vs.length :: ns)) (item >>= fun x => pure (Sum.inl (out ++ [x])))
        (text v) (Sum.inl (out ++ [v]) : List α ⊕ List α) (At false (vs.length :: ns)) :=
      (hgets v mem_cons_self (vs.length :: ns)).bind_pure fun x => Sum.inl (out ++ [x])
    have hturn : Gets blank next (At false ((vs.length + 1) :: ns)) (d.decodeItem item out)
        (e.encodeArrayContinue ++ text v) (.inl (out ++ [v])) (At false (vs.length :: ns)) :=
      arrays.more.bind hone fun _ _ => trivial
    have hrest := ih (out ++ [v]) fun w hw => hgets w (mem_cons_of_mem _ hw)
    rw [flatMap_cons, append_assoc _ _ e.encodeArrayEnd, append_cons out, length_cons]
    refine Gets.iterate_turn hprogress hturn hrest ?_
    intro rest _
    -- What comes behind an item is a separator or the end.
    cases vs with
    | nil => exact arrays.next_done rest
    | cons w vs =>
      simp only [flatMap_cons, append_assoc]
      exact arrays.next_more _

theorem gets_vector {vs : List α} {ns : List Nat} (hlen : vs.length < 2 ^ 32)
    (hgets : ∀ v ∈ vs, ∀ ns, Gets blank next (At false ns) item (text v) v (At false ns))
    (hopens : ∀ v ∈ vs, Opens (text v)) :
    Gets blank next (At false ns) (d.decodeVector item) (e.encodeVector text vs) vs (At false ns) := by
  have hcount : (UInt32.ofNat vs.length).toNat = vs.length := UInt32.toNat_ofNat_of_lt' hlen
  have hprogress := decodeItem_progress hitem hcontinue
  rw [Encoder.encodeVector, hcount, take_length]
  refine (arrays.start hlen).bind (N := next) ?_ fun _ _ => trivial
  cases vs with
  | nil =>
    have h := gets_items arrays hitem hcontinue ns []
      (show ∀ v ∈ ([] : List α), ∀ ns, Gets blank next (At false ns) item (text v) v (At false ns) from nofun)
    exact h.consequence (fun _ hs => arrays.fresh hs) (fun _ hs => hs) fun _ _ => trivial
  | cons v vs =>
    -- The continuation of the first turn, with the item and the loop behind it.
    have hrest := gets_items arrays hitem hcontinue ns [v] fun w hw => hgets w (mem_cons_of_mem _ hw)
    have hnext : ∀ rest, next ((vs.flatMap (fun v => e.encodeArrayContinue ++ text v) ++ e.encodeArrayEnd) ++ rest) := by
      intro rest
      cases vs with
      | nil => exact arrays.next_done rest
      | cons w vs =>
        simp only [flatMap_cons, append_assoc]
        exact arrays.next_more _
    have hone : Gets blank next (At false (vs.length :: ns)) (item >>= fun x => pure (Sum.inl ([] ++ [x])))
        (text v) (Sum.inl [v] : List α ⊕ List α) (At false (vs.length :: ns)) :=
      (hgets v mem_cons_self (vs.length :: ns)).bind_pure fun x => Sum.inl ([] ++ [x])
    have hopen : Opens (text v ++ (vs.flatMap (fun v => e.encodeArrayContinue ++ text v) ++ e.encodeArrayEnd)) :=
      arrays.opens_append (hopens v mem_cons_self) hnext
    rw [iterate_eq hprogress, Decoder.decodeItem, bind_assoc, map_cons, separated, flatMap_map,
      append_assoc]
    apply arrays.first hopen
    rw [if_pos rfl]
    exact (hone.bind hrest fun rest _ => hnext rest).consequence (fun _ hs => hs) (fun _ hs => hs) fun _ _ => trivial

end Vectors

section Maps

variable {κ α : Type} [LT κ] [DecidableLT κ] [DecidableEq κ] [Std.Asymm fun a b : κ => a < b]
  (maps : MapLaws e d blank next At Fresh Opens) {key : Decoding κ} {value : Decoding α} {keyText : κ → Bytes}
  {text : α → Bytes} (regular : ValueRegular d) (hkey : Regular .notEnoughData (fun _ => True) 1 key)
  (hvalue : Regular .notEnoughData (fun _ => True) 1 value)

include regular hkey hvalue

omit [LT κ] [DecidableLT κ] [DecidableEq κ] [Std.Asymm fun a b : κ => a < b] in
/-- A pair takes at least the key. -/
theorem regular_pair (f : κ → α → List (κ × α)) : Regular .notEnoughData (fun _ => True) 1
    (d.decodeMapPairStart >>= fun _ => key >>= fun k => d.decodeMapPairMiddle >>= fun _ => value >>= fun v =>
      d.decodeMapPairEnd >>= fun _ => (pure (.inl (f k v)) : Decoding (List (κ × α) ⊕ List (κ × α)))) := by
  apply regular.mapPairStart.bind_right
  intro _
  apply hkey.bind_left
  intro k
  apply regular.mapPairMiddle.bind_left
  intro _
  apply (hvalue.mono (Nat.zero_le 1)).bind_left
  intro v
  exact regular.mapPairEnd.bind_left fun _ => Regular.pure _

omit [Std.Asymm fun a b : κ => a < b] in
theorem regular_decodePair (out : List (κ × α)) :
    Regular .notEnoughData (fun _ => True) 0 (d.decodePair key value out) := by
  apply regular.mapContinue.bind_left
  intro more
  split_ifs
  · exact (regular_pair regular hkey hvalue _).mono (Nat.zero_le 1)
  · exact pure _

omit [Std.Asymm fun a b : κ => a < b] in
theorem decodePair_progress : Progress (d.decodePair key value) := by
  intro out
  apply bind regular.mapContinue.takes
  intro more
  split_ifs
  · exact of_takes (regular_pair regular hkey hvalue _).takes
  · exact last out

include maps

omit regular hkey hvalue in
/-- One pair, which goes behind the smaller keys. -/
theorem gets_pair {k : κ} {v : α} {n : Nat} (ns : List Nat) (out : List (κ × α))
    (hsorted : ∀ x ∈ AssocList.keys out, x < k)
    (hgetsKey : ∀ ns, Gets blank next (At true ns) key (keyText k) k (At true ns))
    (hgets : ∀ ns, Gets blank next (At false ns) value (text v) v (At false ns)) :
    Gets blank next (At false ((n + 1) :: ns))
      (d.decodeMapPairStart >>= fun _ => key >>= fun k => d.decodeMapPairMiddle >>= fun _ => value >>= fun v =>
        d.decodeMapPairEnd >>= fun _ =>
          (pure (.inl (AssocList.setSorted k v out)) : Decoding (List (κ × α) ⊕ List (κ × α))))
      (e.encodePair (keyText k) (text v)) (.inl (out ++ [(k, v)])) (At false (n :: ns)) := by
  rw [← AssocList.setSorted_of_lt v hsorted, Encoder.encodePair]
  refine maps.pairStart.bind (N := next) ?_ fun _ _ => trivial
  refine (hgetsKey (n :: ns)).bind (N := next) ?_ fun rest _ => ?_
  · refine maps.pairMiddle.bind (N := next) ?_ fun _ _ => trivial
    refine (hgets (n :: ns)).bind (N := next) ?_ fun rest hrest => maps.next_end rest hrest
    exact maps.pairEnd.bind_pure fun _ => Sum.inl (AssocList.setSorted k v out)
  · rw [append_assoc]
    exact maps.next_middle _

/-- The rest of the loop, behind a pair. -/
theorem gets_pairs {vs : List (κ × α)} (ns : List Nat) (out : List (κ × α))
    (hsorted : (out ++ vs).Pairwise fun a b => a.1 < b.1)
    (hgetsKey : ∀ v ∈ vs, ∀ ns, Gets blank next (At true ns) key (keyText v.1) v.1 (At true ns))
    (hgets : ∀ v ∈ vs, ∀ ns, Gets blank next (At false ns) value (text v.2) v.2 (At false ns)) :
    Gets blank Anything (At false (vs.length :: ns)) (iterate (d.decodePair key value) .error out)
      (vs.flatMap (fun v => e.encodeMapContinue ++ e.encodePair (keyText v.1) (text v.2)) ++ e.encodeMapEnd)
      (out ++ vs) (At false ns) := by
  have hprogress := decodePair_progress regular hkey hvalue
  induction vs generalizing out with
  | nil =>
    have hlast : Gets blank Anything (At false (0 :: ns)) (d.decodePair key value out) e.encodeMapEnd (.inr out)
        (At false ns) := maps.done.bind_nil (Gets.pure (Sum.inr out))
    rw [flatMap_nil, nil_append, append_nil]
    exact Gets.iterate_last hprogress hlast
  | cons v vs ih =>
    have hbelow : ∀ x ∈ AssocList.keys out, x < v.1 := by
      intro x hx
      obtain ⟨pair, hpair, rfl⟩ := mem_map.1 hx
      exact (pairwise_append.1 hsorted).2.2 pair hpair v mem_cons_self
    have hone := gets_pair maps (n := vs.length) ns out hbelow (hgetsKey v mem_cons_self)
      (hgets v mem_cons_self)
    have hturn : Gets blank next (At false ((vs.length + 1) :: ns)) (d.decodePair key value out)
        (e.encodeMapContinue ++ e.encodePair (keyText v.1) (text v.2)) (.inl (out ++ [v]))
        (At false (vs.length :: ns)) := maps.more.bind hone fun _ _ => trivial
    have hrest := ih (out ++ [v]) (by rwa [append_assoc]) (fun w hw => hgetsKey w (mem_cons_of_mem _ hw))
      fun w hw => hgets w (mem_cons_of_mem _ hw)
    rw [flatMap_cons, append_assoc _ _ e.encodeMapEnd, append_cons out, length_cons]
    refine Gets.iterate_turn hprogress hturn hrest ?_
    intro rest _
    cases vs with
    | nil => exact maps.next_done rest
    | cons w vs =>
      simp only [flatMap_cons, append_assoc]
      exact maps.next_more _

theorem gets_map {vs : List (κ × α)} {ns : List Nat} (hlen : vs.length < 2 ^ 32)
    (hsorted : vs.Pairwise fun a b => a.1 < b.1)
    (hgetsKey : ∀ v ∈ vs, ∀ ns, Gets blank next (At true ns) key (keyText v.1) v.1 (At true ns))
    (hopens : ∀ v ∈ vs, Opens (keyText v.1))
    (hgets : ∀ v ∈ vs, ∀ ns, Gets blank next (At false ns) value (text v.2) v.2 (At false ns)) :
    Gets blank next (At false ns) (d.decodeMap key value) (e.encodeMap keyText text vs) vs (At false ns) := by
  have hcount : (UInt32.ofNat vs.length).toNat = vs.length := UInt32.toNat_ofNat_of_lt' hlen
  have hprogress := decodePair_progress regular hkey hvalue
  rw [Encoder.encodeMap, hcount, countedPairs_eq _ (by rw [length_map, Nat.zero_add])]
  refine (maps.start hlen).bind (N := next) ?_ fun _ _ => trivial
  cases vs with
  | nil =>
    have h := gets_pairs maps regular hkey hvalue ns [] (Pairwise.nil (α := κ × α))
      (show ∀ v ∈ ([] : List (κ × α)), ∀ ns, Gets blank next (At true ns) key (keyText v.1) v.1 (At true ns) from nofun)
      (show ∀ v ∈ ([] : List (κ × α)), ∀ ns, Gets blank next (At false ns) value (text v.2) v.2 (At false ns) from nofun)
    exact h.consequence (fun _ hs => maps.fresh hs) (fun _ hs => hs) fun _ _ => trivial
  | cons v vs =>
    have hrest := gets_pairs maps regular hkey hvalue ns [v] hsorted
      (fun w hw => hgetsKey w (mem_cons_of_mem _ hw)) fun w hw => hgets w (mem_cons_of_mem _ hw)
    have hnext : ∀ rest, next ((vs.flatMap (fun v => e.encodeMapContinue ++ e.encodePair (keyText v.1) (text v.2)) ++
        e.encodeMapEnd) ++ rest) := by
      intro rest
      cases vs with
      | nil => exact maps.next_done rest
      | cons w vs =>
        simp only [flatMap_cons, append_assoc]
        exact maps.next_more _
    have hone := gets_pair maps (n := vs.length) ns [] nofun (hgetsKey v mem_cons_self)
      (hgets v mem_cons_self)
    have hopen : ∀ x, Opens (e.encodePair (keyText v.1) (text v.2) ++ x) := by
      intro x
      rw [Encoder.encodePair]
      simp only [append_assoc]
      exact maps.opens_key _ _ (hopens v mem_cons_self)
    rw [iterate_eq hprogress, Decoder.decodePair, bind_assoc, map_cons, separated, flatMap_map,
      append_assoc]
    apply maps.first (hopen _)
    rw [if_pos rfl]
    exact (hone.bind hrest fun rest _ => hnext rest).consequence (fun _ hs => hs) (fun _ hs => hs) fun _ _ => trivial

end Maps

end RoundTrip

/-! ## All values -/

section Values

variable {e : Encoder} {d : Decoder} {blank : UInt8 → Prop} {next : Bytes → Prop}
  {At : Bool → List Nat → DecoderState → Prop} {Fresh : List Nat → DecoderState → Prop} {Opens : Bytes → Prop}
  {str : Bytes → Prop} {u64 : UInt64 → Prop}

theorem regular_key (regular : ValueRegular d) (k : KeyType) :
    Regular .notEnoughData (fun _ => True) 1 (k.decode d) := by
  cases k with
  | int32 => exact regular.int32
  | uint32 => exact regular.uint32
  | int64 => exact regular.int64
  | uint64 => exact regular.uint64
  | string => exact regular.string

/-- Decoding a value decides for all longer inputs, and takes at least one byte. -/
theorem regular_value (regular : ValueRegular d) (t : ValueType) :
    Regular .notEnoughData (fun _ => True) 1 (t.decode d) := by
  induction t with
  | void => exact regular.void
  | bool => exact regular.bool
  | int32 => exact regular.int32
  | uint32 => exact regular.uint32
  | int64 => exact regular.int64
  | uint64 => exact regular.uint64
  | string => exact regular.string
  | vector t ih =>
    apply regular.arrayStart.bind_left
    intro _
    exact iterate (decodeItem_progress ih regular.arrayContinue)
      (regular_decodeItem ih regular.arrayContinue) []
  | map k t ih =>
    have hkey := regular_key regular k
    apply regular.mapStart.bind_left
    intro _
    exact iterate (decodePair_progress regular hkey ih) (regular_decodePair regular hkey ih) []

variable (arrays : ArrayLaws e d blank next At Fresh Opens) (maps : MapLaws e d blank next At Fresh Opens)
  (scalars : ScalarLaws e d blank next At Opens str u64) (regular : ValueRegular d)

include scalars

theorem gets_key (k : KeyType) {v : k.Val} (hv : k.Good str u64 v) :
    (∀ ns, Gets blank next (At true ns) (k.decode d) (k.encode e v) v (At true ns)) ∧ Opens (k.encode e v) := by
  cases k with
  | int32 => exact ⟨fun ns => scalars.int32.gets trivial, scalars.int32.opens true v trivial⟩
  | uint32 => exact ⟨fun ns => scalars.uint32.gets trivial, scalars.uint32.opens true v trivial⟩
  | int64 => exact ⟨fun ns => scalars.int64.gets trivial, scalars.int64.opens true v trivial⟩
  | uint64 => exact ⟨fun ns => scalars.uint64.gets hv, scalars.uint64.opens true v hv⟩
  | string => exact ⟨fun ns => scalars.string.gets hv, scalars.string.opens true v hv⟩

include arrays maps regular

/-- A value is decoded from its own encoding, with what a value may be followed by behind it. -/
theorem gets_value (t : ValueType) {v : t.Val} (hv : t.Good str u64 v) :
    (∀ ns, Gets blank next (At false ns) (t.decode d) (t.encode e v) v (At false ns)) ∧ Opens (t.encode e v) := by
  induction t with
  | void => exact ⟨fun ns => scalars.void.gets (k := false) trivial, scalars.void.opens false v trivial⟩
  | bool => exact ⟨fun ns => scalars.bool.gets (k := false) trivial, scalars.bool.opens false v trivial⟩
  | int32 => exact ⟨fun ns => scalars.int32.gets trivial, scalars.int32.opens false v trivial⟩
  | uint32 => exact ⟨fun ns => scalars.uint32.gets trivial, scalars.uint32.opens false v trivial⟩
  | int64 => exact ⟨fun ns => scalars.int64.gets trivial, scalars.int64.opens false v trivial⟩
  | uint64 => exact ⟨fun ns => scalars.uint64.gets hv, scalars.uint64.opens false v hv⟩
  | string => exact ⟨fun ns => scalars.string.gets hv, scalars.string.opens false v hv⟩
  | vector t ih =>
    obtain ⟨hlen, hitems⟩ := hv
    refine ⟨fun ns => ?_, arrays.opens _ _⟩
    exact gets_vector arrays (regular_value regular t) regular.arrayContinue hlen
      (fun x hx => (ih (hitems x hx)).1) fun x hx => (ih (hitems x hx)).2
  | map k t ih =>
    obtain ⟨hlen, hsorted, hitems⟩ := hv
    refine ⟨fun ns => ?_, maps.opens _ _⟩
    exact gets_map maps regular (regular_key regular k) (regular_value regular t) hlen hsorted
      (fun x hx => (gets_key scalars k (hitems x hx).1).1) (fun x hx => (gets_key scalars k (hitems x hx).1).2)
      fun x hx => (ih (hitems x hx).2).1

end Values

end Whispercast.Rpc
