import Whispercast.Http.Consts
import Whispercast.Io.NumStreaming
import Whispercast.Library.AssocList

/-!
# The operations of a state

Model of the map of a `StateKeeper`, of `strutil::GetBounds`, and of the operations on the map as `QueueOp` writes them
to a record and as `ReadState` reads them from it (`common/io/checkpoint/state_keeper.cc`). Sizes are `int32`, so a value
with more bytes than that is cut off by `MemoryStream::Write`.
-/

namespace Whispercast.Checkpoint

open Io Library List NumStreamer

/-- `map<string, string>`: its entries in the order of the keys. -/
abbrev StateMap : Type := List (Bytes × Bytes)

/-! ## Maps -/

/-- `strutil::GetNextInLexicographicOrder`, on the reversed text. -/
def nextOfReversed : Bytes → Bytes
  | [] => []
  | b :: rest => if b = 0xff then nextOfReversed rest else rest.reverse ++ [b + 1]

def getNextInLexicographicOrder (s : Bytes) : Bytes := nextOfReversed s.reverse

namespace StateMap

/-- The entries before the first bound of `GetBounds`. -/
def before (start : Bytes) (m : StateMap) : StateMap := if start = [] then [] else m.takeWhile fun e => e.1 < start

/-- The entries from the second bound of `GetBounds` on: the first of them has a key above the next text in the order. -/
def behind (start : Bytes) (m : StateMap) : StateMap :=
  if getNextInLexicographicOrder start = [] then []
  else m.dropWhile fun e => ¬ getNextInLexicographicOrder start < e.1

/-- The entries between the bounds. -/
def between (start : Bytes) (m : StateMap) : StateMap :=
  (m.drop (before start m).length).take (m.length - (before start m).length - (behind start m).length)

/-- `erase` between the bounds. -/
def clearPrefix (start : Bytes) (m : StateMap) : StateMap := before start m ++ behind start m

def erase (key : Bytes) (m : StateMap) : StateMap := m.filter fun e => e.1 ≠ key

/-- `(*out)[name] = value`. -/
def set (key value : Bytes) (m : StateMap) : StateMap := AssocList.setSorted key value m

/-- `insert`, which does not overwrite. -/
def insert (key value : Bytes) (m : StateMap) : StateMap :=
  if (m.lookup key).isSome then m else AssocList.setSorted key value m

/-- Entries are inserted one after another. -/
def insertAll (m acc : StateMap) : StateMap := m.foldl (fun acc e => insert e.1 e.2 acc) acc

end StateMap

/-! ## Operations -/

/-- An operation on the map. -/
inductive StateOp where
  | set (key value : Bytes)
  | delete (key : Bytes)
  | clearPrefix (start : Bytes)

namespace StateOp

def OP_SET : UInt8 := 0
def OP_DELETE : UInt8 := 1
def OP_CLEARPREFIX : UInt8 := 2

/-- The map behind an operation. -/
def apply (m : StateMap) : StateOp → StateMap
  | set key value => m.set key value
  | delete key => m.erase key
  | clearPrefix start => m.clearPrefix start

/-- The key of an operation. -/
def key : StateOp → Bytes
  | set key _ => key
  | delete key => key
  | clearPrefix start => start

/-- What `MemoryStream::Write` writes of a text: its size is an `int32`. -/
def written (s : Bytes) : Bytes := s.take (Int32.ofNat s.length).toInt.toNat

/-- What `QueueOp` writes. -/
def encode : StateOp → Bytes
  | set key value =>
    NumStreamer.writeInt16 (Int16.ofNat key.length) .bigEndian ++ (written key ++ (NumStreamer.writeByte OP_SET ++
      (NumStreamer.writeInt32 (Int32.ofNat value.length) .bigEndian ++ written value)))
  | delete key =>
    NumStreamer.writeInt16 (Int16.ofNat key.length) .bigEndian ++ (written key ++ NumStreamer.writeByte OP_DELETE)
  | clearPrefix start =>
    NumStreamer.writeInt16 (Int16.ofNat start.length) .bigEndian ++
      (written start ++ NumStreamer.writeByte OP_CLEARPREFIX)

end StateOp

/-! ## Reading a record -/

/-- `ReadString(&s, len)`: all of the stream for -1, and no memory for another negative length. -/
def readString (len : Int) (buf : Bytes) : Option (Bytes × Bytes) :=
  if len = -1 then some (buf, [])
  else if len < 0 then none
  else some (buf.take len.toNat, buf.drop len.toNat)

/-- `ReadInt16`. -/
def int16At (buf : Bytes) : Int16 := (UInt16.ofNat (NumStreamer.numberOf .bigEndian (buf.take 2))).toInt16

/-- `ReadInt32`. -/
def int32At (buf : Bytes) : Int32 := (UInt32.ofNat (NumStreamer.numberOf .bigEndian (buf.take 4))).toInt32

/-- What `ReadState` does from the opcode on; the name is read. -/
def readCode (name : Bytes) (m : StateMap) : Bytes → Option (StateMap × Bytes)
  -- OpCode missing
  | [] => some (m, [])
  | op_code :: buf =>
    if op_code = StateOp.OP_SET then
      if buf.length < 4 then some (m, buf)
      else
        let value_size := int32At buf
        (readString value_size.toInt (buf.drop 4)).map fun (value, buf) =>
          if value_size.toInt ≠ value.length then (m, buf) else (m.set name value, buf)
    else if op_code = StateOp.OP_DELETE then some (m.erase name, buf)
    else if op_code = StateOp.OP_CLEARPREFIX then some (m.clearPrefix name, buf)
    else some (m, buf)

/-- One turn of the loop of `ReadState` over a record. -/
def readOp (m : StateMap) (buf : Bytes) : Option (StateMap × Bytes) :=
  if buf.length < 2 then none
  else
    let name_size := int16At buf
    (readString name_size.toInt (buf.drop 2)).bind fun (name, buf) =>
      if name_size.toInt ≠ name.length then some (m, buf) else readCode name m buf

/-- The loop of `ReadState` over a record, `n` turns at most. It is `none` where a `CHECK` fails. -/
def readLoop : Nat → StateMap → Bytes → Option StateMap
  | 0, _, _ => none
  | n + 1, m, buf => if buf = [] then some m else (readOp m buf).bind fun (m, buf) => readLoop n m buf

/-- A record of the log is read. Each turn takes two bytes at least. -/
def readRecord (m : StateMap) (buf : Bytes) : Option StateMap := readLoop (buf.length + 1) m buf

/-! ## What is written is read -/

section Written

variable {m : StateMap} {op : StateOp}

theorem int16At_append (x : Int16) (rest : Bytes) : int16At (NumStreamer.writeInt16 x .bigEndian ++ rest) = x := by
  have htake : (writeInt16 x .bigEndian ++ rest).take 2 = writeInt16 x .bigEndian :=
    take_left' (writeNumber_length 2 _ _)
  have hlt : x.toUInt16.toNat < 256 ^ 2 := UInt16.toNat_lt _
  rw [int16At, htake, writeInt16, numberOf_writeNumber .bigEndian hlt, UInt16.ofNat_toNat]
  rfl

theorem int32At_append (x : Int32) (rest : Bytes) : int32At (NumStreamer.writeInt32 x .bigEndian ++ rest) = x := by
  have htake : (writeInt32 x .bigEndian ++ rest).take 4 = writeInt32 x .bigEndian :=
    take_left' (writeNumber_length 4 _ _)
  have hlt : x.toUInt32.toNat < 256 ^ 4 := UInt32.toNat_lt _
  rw [int32At, htake, writeInt32, numberOf_writeNumber .bigEndian hlt, UInt32.ofNat_toNat]
  rfl

theorem toInt_int16 {n : Nat} (h : n < 2 ^ 15) : (Int16.ofNat n).toInt = n := Int16.toInt_ofNat_of_lt h

theorem toInt_int32 {n : Nat} (h : n < 2 ^ 31) : (Int32.ofNat n).toInt = n := Int32.toInt_ofNat_of_lt h

/-- A text whose size is an `int32` is written as it is. -/
theorem StateOp.written_of_lt {s : Bytes} (h : s.length < 2 ^ 31) : written s = s := by
  rw [written, toInt_int32 h, Int.toNat_natCast, take_length]

theorem readString_append (s rest : Bytes) : readString s.length (s ++ rest) = some (s, rest) := by
  rw [readString, if_neg (by omega), if_neg (by omega), Int.toNat_natCast, take_left, drop_left]

/-- The sizes of an operation fit into the numbers they are written as. -/
def StateOp.Fits : StateOp → Prop
  | .set key value => key.length < 2 ^ 15 ∧ value.length < 2 ^ 31
  | .delete key => key.length < 2 ^ 15
  | .clearPrefix start => start.length < 2 ^ 15

/-- The name of an operation is read. -/
theorem readOp_name {name : Bytes} (h : name.length < 2 ^ 15) (m : StateMap) (rest : Bytes) :
    readOp m (NumStreamer.writeInt16 (Int16.ofNat name.length) .bigEndian ++ (StateOp.written name ++ rest)) =
      readCode name m rest := by
  have hlen : (writeInt16 (Int16.ofNat name.length) .bigEndian).length = 2 :=
    writeNumber_length 2 _ _
  rw [readOp, if_neg (by rw [length_append, hlen]; omega)]
  dsimp only
  rw [int16At_append, toInt_int16 h, drop_left' hlen, StateOp.written_of_lt (by omega), readString_append,
    Option.bind_some, if_neg (fun hne => hne rfl)]

/-- An operation is read as it was written. -/
theorem readOp_encode (h : op.Fits) (m : StateMap) (rest : Bytes) :
    readOp m (op.encode ++ rest) = some (op.apply m, rest) := by
  cases op with
  | set key value =>
    have hsize : (writeInt32 (Int32.ofNat value.length) .bigEndian).length = 4 :=
      writeNumber_length 4 _ _
    simp only [StateOp.encode, append_assoc]
    rw [readOp_name h.1, writeByte, cons_append, nil_append, readCode, if_pos rfl,
      if_neg (by rw [length_append, hsize]; omega)]
    dsimp only
    rw [int32At_append, toInt_int32 h.2, drop_left' hsize, StateOp.written_of_lt h.2, readString_append,
      Option.map_some, if_neg (fun hne => hne rfl)]
    rfl
  | delete key | clearPrefix start =>
    simp only [StateOp.encode, append_assoc]
    rw [readOp_name h]
    rfl

theorem encode_length (op : StateOp) : 2 ≤ op.encode.length := by
  cases op <;> simp [StateOp.encode, writeInt16, writeNumber_length]

theorem readLoop_encode {ops : List StateOp} (h : ∀ op ∈ ops, op.Fits) (m : StateMap) {n : Nat}
    (hn : (ops.flatMap StateOp.encode).length < n) :
    readLoop n m (ops.flatMap StateOp.encode) = some (ops.foldl StateOp.apply m) := by
  induction ops generalizing m n with
  | nil =>
    obtain ⟨n, rfl⟩ : ∃ k, n = k + 1 := ⟨n - 1, by omega⟩
    exact if_pos rfl
  | cons op ops ih =>
    obtain ⟨n, rfl⟩ : ∃ k, n = k + 1 := ⟨n - 1, by omega⟩
    have hlen := encode_length op
    rw [flatMap_cons, length_append] at hn
    have hne : op.encode ++ ops.flatMap StateOp.encode ≠ [] := by
      intro hnil
      rw [(append_eq_nil_iff.1 hnil).1] at hlen
      exact absurd hlen (by decide)
    rw [flatMap_cons, readLoop, if_neg hne, readOp_encode (h op mem_cons_self), Option.bind_some]
    exact ih (fun op' hop => h op' (mem_cons_of_mem _ hop)) (op.apply m) (by omega)

/-- A record with operations does to the map what the operations do. -/
theorem readRecord_encode {ops : List StateOp} (h : ∀ op ∈ ops, op.Fits) (m : StateMap) :
    readRecord m (ops.flatMap StateOp.encode) = some (ops.foldl StateOp.apply m) :=
  readLoop_encode h m (Nat.lt_succ_self _)

end Written

/-! ## Maps in order -/

/-- The keys are in order, and different. -/
def StateMap.Sorted (m : StateMap) : Prop := (AssocList.keys m).Pairwise (· < ·)

theorem StateMap.Sorted.set {m : StateMap} (h : m.Sorted) (key value : Bytes) : (m.set key value).Sorted :=
  AssocList.setSorted_sorted key value h

/-- Some of the entries are in order too. -/
theorem StateMap.Sorted.sublist {m m' : StateMap} (h : m.Sorted) (hsub : m'.Sublist m) : m'.Sorted :=
  Pairwise.sublist (hsub.map Prod.fst) h

/-- The next text in the order ends in a greater byte than the text has in its place. -/
theorem nextOfReversed_split {s : Bytes} (h : nextOfReversed s ≠ []) :
    ∃ pre b post, s.reverse = pre ++ b :: post ∧ nextOfReversed s = pre ++ [b + 1] ∧ b < b + 1 := by
  induction s with
  | nil => exact absurd rfl h
  | cons b s ih =>
    rw [nextOfReversed] at h ⊢
    by_cases hb : b = 0xff
    · rw [if_pos hb] at h ⊢
      obtain ⟨pre, c, post, hs, hnext, hlt⟩ := ih h
      exact ⟨pre, c, post ++ [b], by rw [reverse_cons, hs]; simp, hnext, hlt⟩
    · rw [if_neg hb]
      refine ⟨s.reverse, b, [], reverse_cons, rfl, ?_⟩
      rw [UInt8.lt_iff_toNat_lt, UInt8.toNat_add]
      have hne : b.toNat ≠ 255 := fun heq => hb (UInt8.toNat_inj.1 heq)
      have hlt := b.toNat_lt
      show b.toNat < (b.toNat + 1) % 256
      omega

/-- The next text in the order is above the text. -/
theorem lt_getNext {s : Bytes} (h : getNextInLexicographicOrder s ≠ []) : s < getNextInLexicographicOrder s := by
  obtain ⟨_, b, _, hs, hnext, hlt⟩ := nextOfReversed_split h
  rw [reverse_reverse] at hs
  rw [getNextInLexicographicOrder, hnext, hs]
  exact append_left_lt (Lex.rel hlt)

namespace StateMap

variable {m acc : StateMap}

/-- A key before the bounds is below a key behind them. -/
theorem before_lt_behind {start : Bytes} {e e' : Bytes × Bytes} (he : e ∈ before start m) (he' : e' ∈ behind start m)
    (h : m.Sorted) : e.1 < e'.1 := by
  rw [before] at he
  rw [behind] at he'
  split_ifs at he with hstart
  · cases he
  split_ifs at he' with hnext
  · cases he'
  have hbelow : e.1 < start := by simpa using List.mem_takeWhile_imp he
  refine List.lt_trans (List.lt_trans hbelow (lt_getNext hnext)) ?_
  -- The first entry of the rest has a key above the next text, the others have a greater one.
  have hrest : StateMap.Sorted (m.dropWhile fun e => ¬ getNextInLexicographicOrder start < e.1) :=
    h.sublist (dropWhile_sublist _)
  cases hcons : m.dropWhile fun e => ¬ getNextInLexicographicOrder start < e.1 with
  | nil =>
    rw [hcons] at he'
    cases he'
  | cons first rest =>
    have hne : (m.dropWhile fun e => ¬ getNextInLexicographicOrder start < e.1) ≠ [] := by
      rw [hcons]
      exact List.cons_ne_nil _ _
    have hfirst := List.head_dropWhile_not _ hne
    have habove : getNextInLexicographicOrder start < first.1 := by
      simp only [hcons, List.head_cons] at hfirst
      simpa using hfirst
    rw [hcons] at he' hrest
    rcases List.mem_cons.1 he' with rfl | hmem
    · exact habove
    · exact List.lt_trans habove ((List.pairwise_cons.1 hrest).1 _ (List.mem_map_of_mem hmem))

theorem mem_clearPrefix {start : Bytes} {e : Bytes × Bytes} (h : e ∈ m.clearPrefix start) : e ∈ m := by
  rcases mem_append.1 h with hmem | hmem
  · rw [before] at hmem
    split_ifs at hmem
    · cases hmem
    · exact (takeWhile_sublist _).subset hmem
  · rw [behind] at hmem
    split_ifs at hmem
    · cases hmem
    · exact (dropWhile_sublist _).subset hmem

theorem Sorted.clearPrefix (h : m.Sorted) (start : Bytes) : (m.clearPrefix start).Sorted := by
  have hbefore : (before start m).Sorted := by
    rw [before]
    split_ifs
    · exact Pairwise.nil
    · exact h.sublist (takeWhile_sublist _)
  have hbehind : (behind start m).Sorted := by
    rw [behind]
    split_ifs
    · exact Pairwise.nil
    · exact h.sublist (dropWhile_sublist _)
  rw [Sorted, StateMap.clearPrefix, AssocList.keys_append, pairwise_append]
  refine ⟨hbefore, hbehind, ?_⟩
  intro k hk k' hk'
  obtain ⟨e, he, rfl⟩ := mem_map.1 hk
  obtain ⟨_, he', rfl⟩ := mem_map.1 hk'
  exact before_lt_behind he he' h

theorem Sorted.erase (h : m.Sorted) (key : Bytes) : (m.erase key).Sorted := h.sublist filter_sublist

theorem Sorted.insert (h : m.Sorted) (key value : Bytes) : (insert key value m).Sorted := by
  rw [StateMap.insert]
  split_ifs
  · exact h
  · exact AssocList.setSorted_sorted key value h

theorem lookup_insert (key value k : Bytes) :
    (insert key value m).lookup k = (m.lookup k).or (if k = key then some value else none) := by
  rw [StateMap.insert]
  by_cases hk : k = key
  · subst hk
    cases hfound : m.lookup k <;> simp [hfound, AssocList.lookup_setSorted]
  · cases hfound : m.lookup key <;> simp [hk, AssocList.lookup_setSorted]

theorem Sorted.insertAll (h : acc.Sorted) (m : StateMap) : StateMap.Sorted (insertAll m acc) := by
  induction m generalizing acc with
  | nil => exact h
  | cons e m ih => exact ih (h.insert e.1 e.2)

/-- Inserted entries are found behind those that were there. -/
theorem lookup_insertAll (m acc : StateMap) (k : Bytes) : (m.insertAll acc).lookup k = (acc.lookup k).or (m.lookup k) := by
  induction m generalizing acc with
  | nil => simp [StateMap.insertAll]
  | cons e m ih =>
    have hstep : StateMap.insertAll (e :: m) acc = StateMap.insertAll m (insert e.1 e.2 acc) := rfl
    rw [hstep, ih, lookup_insert, Option.or_assoc, lookup_cons]
    congr 1
    by_cases hk : k = e.1
    · simp [hk]
    · simp [hk, beq_false_of_ne hk]

end StateMap

end Whispercast.Checkpoint
