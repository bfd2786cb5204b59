import Whispercast.Amf.Objects

/-!
# Reading an object ends

On every input `ReadNextObject` returns a status or an object: no `CHECK` fails, and a fuel above the
length of the input is never used up. Hence the fuel does not show in the result, and `readNextObject` is
the function of the source.
-/

namespace Whispercast.Amf

open Library Io Amf0Util CObject NumStreamer Reader Reader.ExtendedBy Reader.Takes

/-- What a reading function of the source never ends with, apart from an aborted program. -/
def Stuck (e : Stop ReadStatus) : Prop := e = .check ∨ e = .fuel

theorem not_stuck_status (s : ReadStatus) : ¬ Stuck (.status s) := by
  rintro (h | h)
  · cases h
  · cases h

/-- On inputs of these lengths the decoder does not get stuck, and takes at least `k` bytes. -/
abbrev Total {α : Type} (lo hi k : Nat) (r : Decoder α) : Prop := Reader.Takes Stuck lo hi k r

section Fields

variable {α γ : Type} {lo hi k n : Nat} {r : Decoder α} {f : UInt8 → Decoder γ}

theorem failWith_total (s : ReadStatus) : Total lo hi k (failWith s : Decoder α) :=
  fail (not_stuck_status s)

theorem needData_total (hr : Total (max lo n) hi k r) : Total lo hi k (needData n >>= fun _ => r) :=
  need (not_stuck_status .noData) hr

theorem readNumber_exactly (n : Nat) (order : ByteOrder) :
    Reader.TakesExactly n (NumStreamer.readNumber n order : Decoder Nat) :=
  (TakesExactly.take n _).map _

theorem readByte_exactly : Reader.TakesExactly 1 (NumStreamer.readByte : Decoder UInt8) :=
  (readNumber_exactly 1 .lilEndian).map _

/-- A byte that is known to be there. -/
theorem readByte_total (hlo : 1 ≤ lo) (hf : ∀ c, Total (lo - 1) (hi - 1) 0 (f c)) :
    Total lo hi 1 (NumStreamer.readByte >>= f) :=
  field readByte_exactly hlo hf

/-- A number that is known to be there, as the last field. -/
theorem exactly_total {m : Nat} {q : Decoder α} (hq : Reader.TakesExactly m q) (hlo : m ≤ lo) : Total lo hi m q := by
  intro s hs _
  rcases hq s (Nat.le_trans hlo hs) with ⟨a, ha⟩
  have hlen : (s.drop m).length = s.length - m := List.length_drop
  rw [ha]
  change (s.drop m).length + m ≤ s.length
  omega

end Fields

/-! ## Strings -/

namespace Amf0Util

variable {lo hi : Nat}

theorem readStringLength_total (obtype : UInt8) : Total lo hi 0 (readStringLength obtype) := by
  rw [readStringLength]
  split
  · apply needData_total
    have hnum : TakesExactly 2 (readUInt16 .bigEndian : Decoder UInt16) :=
      (readNumber_exactly 2 .bigEndian).map _
    exact (exactly_total (hnum.map UInt16.toNat) (Nat.le_max_right _ _)).weaken
  · split
    · apply needData_total
      have hnum : TakesExactly 4 (readUInt32 .bigEndian : Decoder UInt32) :=
        (readNumber_exactly 4 .bigEndian).map _
      exact (exactly_total (hnum.map UInt32.toNat) (Nat.le_max_right _ _)).weaken
    · exact failWith_total _

theorem readBytes_total (len : Nat) : Total lo hi 0 (needData len >>= fun _ => readBytes len) := by
  apply needData_total
  exact (exactly_total (TakesExactly.take len _) (Nat.le_max_right _ _)).weaken

theorem readStringData_total (len : Nat) : Total lo hi 0 (readStringData len) := by
  rw [readStringData]
  split
  · exact failWith_total _
  · exact readBytes_total len

theorem readString_total : Total lo hi 1 readString := by
  apply needData_total
  apply readByte_total (Nat.le_max_right _ _)
  intro obtype
  have hrest : Total 0 (hi - 1) 0 (readStringLength obtype >>= readStringData) :=
    (readStringLength_total obtype).bind fun _ => readStringData_total
  exact hrest.mono (Nat.zero_le _) (Nat.le_refl _) (Nat.le_refl _)

theorem pickString_total : Total lo hi 2 pickString := by
  apply needData_total
  have hnum : TakesExactly 2 (readUInt16 .bigEndian : Decoder UInt16) :=
    (readNumber_exactly 2 .bigEndian).map _
  exact field hnum (Nat.le_max_right _ _) fun len => readBytes_total len.toNat

theorem readGenericObjectEnd_total : Total lo hi 0 readGenericObjectEnd := by
  apply needData_total
  have hbyte : Total (max lo 1) hi 1 (readByte >>= fun obtype =>
      if obtype = amf0TypeEndOfObject then pure () else failWith .corruptedData) := by
    apply readByte_total (Nat.le_max_right _ _)
    intro obtype
    split
    · exact Reader.Takes.pure ()
    · exact failWith_total _
  exact hbyte.weaken

end Amf0Util

/-! ## Objects -/

namespace CObject

variable {lo hi : Nat}

theorem decodeNull_total : Total lo hi 1 decodeNull := by
  apply needData_total
  apply readByte_total (Nat.le_max_right _ _)
  intro obtype
  split
  · exact failWith_total _
  · exact pure _

theorem decodeBoolean_total : Total lo hi 1 decodeBoolean := by
  apply needData_total
  apply readByte_total (by omega)
  intro obtype
  split
  · exact failWith_total _
  · have hvalue : Total (max lo 2 - 1) (hi - 1) 1 (readByte >>= fun value =>
        if value = valueTrue then pure (boolean true)
        else if value = valueFalse then pure (boolean false)
        else failWith .corruptedData) := by
      apply readByte_total (by omega)
      intro value
      split
      · exact Reader.Takes.pure _
      · split
        · exact Reader.Takes.pure _
        · exact failWith_total _
    exact hvalue.weaken

theorem decodeNumber_total : Total lo hi 1 decodeNumber := by
  apply needData_total
  apply readByte_total (by omega)
  intro obtype
  split
  · exact failWith_total _
  · have hnum : TakesExactly 8 (readDouble .bigEndian : Decoder UInt64) :=
      (readNumber_exactly 8 .bigEndian).map _
    exact (exactly_total (hnum.map number) (by omega)).weaken

theorem decodeString_total : Total lo hi 1 decodeString :=
  readString_total.bind fun _ _ => pure _

theorem decodeDate_total : Total lo hi 1 decodeDate := by
  apply needData_total
  apply readByte_total (by omega)
  intro obtype
  split
  · exact failWith_total _
  · have htime : TakesExactly 8 (readDouble .bigEndian : Decoder UInt64) :=
      (readNumber_exactly 8 .bigEndian).map _
    have hzone : TakesExactly 2 (readInt16 .bigEndian : Decoder Int16) :=
      (readNumber_exactly 2 .bigEndian).map _
    have hrest : Total (max lo 11 - 1) (hi - 1) 8 (readDouble .bigEndian >>= fun time =>
        readInt16 .bigEndian >>= fun timezone =>
          pure (date (Binary64.toInt64 time) timezone)) := by
      apply field htime (by omega)
      intro time
      exact (exactly_total (hzone.map _) (by omega)).weaken
    exact hrest.weaken

theorem decodeClassObject_total (name : Bytes) (o : CObject) : Total lo hi 1 (decodeClassObject name o) := by
  apply needData_total
  apply readByte_total (Nat.le_max_right _ _)
  intro obtype
  split
  · exact failWith_total _
  · have htag : Total (max lo 1 - 1) (hi - 1) 1 (readString >>= fun tag =>
        if tag ≠ name then failWith .corruptedData else pure o) := by
      apply readString_total.bind
      intro _ tag
      split
      · exact failWith_total _
      · exact Reader.Takes.pure _
    exact htag.weaken

section Structures

variable {next : Decoder CObject}

theorem decodeItems_total (hnext : Total 0 hi 1 next) (n : Nat) : Total 0 hi 0 (decodeItems next n) := by
  induction n generalizing hi with
  | zero => exact pure _
  | succ n ih =>
    have htail := ih (hnext.mono (Nat.le_refl _) (Nat.sub_le hi 1) (Nat.le_refl _))
    have hall : Total 0 hi 1 (decodeItems next (n + 1)) :=
      hnext.bind fun _ o => htail.bind fun _ os => pure (o :: os)
    exact hall.weaken

variable {fuel : Nat}

/-- Every entry takes bytes of the input, so the loop ends before the fuel does. -/
theorem decodePairs_total {set : Bytes → CObject → List (Bytes × CObject) → List (Bytes × CObject)} (hnext : Total 0 hi 1 next) (hfuel : hi < fuel) (data : List (Bytes × CObject)) :
    Total 0 hi 0 (decodePairs next set fuel data) := by
  induction fuel generalizing hi data with
  | zero => exact absurd hfuel (Nat.not_lt_zero hi)
  | succ fuel ih =>
    have hall : Total 0 hi 2 (decodePairs next set (fuel + 1) data) := by
      apply pickString_total.bind
      intro hkey key
      split
      · exact pure _
      · have hvalue : Total 0 (hi - 2) 1 (next >>= fun value =>
            decodePairs next set fuel (set key value data)) := by
          apply (hnext.mono (Nat.le_refl _) (Nat.sub_le hi 2) (Nat.le_refl _)).bind
          intro hroom value
          have hless := hnext.mono (Nat.le_refl _) (Nat.sub_le hi 3) (Nat.le_refl _)
          exact ih hless (by omega) _
        exact hvalue.weaken
    exact hall.weaken

/-- `CArray::Decode` reads objects from what follows the five bytes of its header. -/
theorem decodeArray_total (hnext : Total 0 (hi - 1) 1 next) : Total lo hi 1 (decodeArray next) := by
  apply needData_total
  apply readByte_total (by omega)
  intro obtype
  split
  · exact failWith_total _
  · have hsize : TakesExactly 4 (readInt32 .bigEndian : Decoder Int32) :=
      (readNumber_exactly 4 .bigEndian).map _
    apply weaken
    apply field hsize (by omega)
    intro size
    split
    · exact failWith_total _
    · have hless := hnext.mono (Nat.le_refl 0) (Nat.sub_le (hi - 1) 4) (Nat.le_refl 1)
      have hitems : Total 0 (hi - 1 - 4) 0 (decodeItems next size.toInt.toNat >>= fun data =>
          pure (array data)) :=
        (decodeItems_total hless _).bind fun _ data => Reader.Takes.pure (array data)
      exact hitems.mono (Nat.zero_le _) (Nat.le_refl _) (Nat.le_refl _)

/-- The entries of a map and the end of the object. -/
theorem decodePairs_end_total {set : Bytes → CObject → List (Bytes × CObject) → List (Bytes × CObject)} (hnext : Total 0 hi 1 next) (hfuel : hi < fuel)
    {γ : Type} (make : List (Bytes × CObject) → γ) : Total lo hi 0 (decodePairs next set fuel [] >>= fun data =>
      Amf0Util.readGenericObjectEnd >>= fun _ => pure (make data)) := by
  have hpairs : Total 0 hi 0 (decodePairs next set fuel [] >>= fun data =>
      readGenericObjectEnd >>= fun _ => pure (make data)) := by
    apply (decodePairs_total hnext hfuel []).bind
    intro _ data
    apply readGenericObjectEnd_total.bind
    intro _ _
    exact Reader.Takes.pure _
  exact hpairs.mono (Nat.zero_le _) (Nat.le_refl _) (Nat.le_refl _)

theorem decodeStringMap_total (hnext : Total 0 (hi - 1) 1 next) (hfuel : hi - 1 < fuel) :
    Total lo hi 1 (decodeStringMap next fuel) := by
  apply needData_total
  apply readByte_total (by omega)
  intro obtype
  split
  · exact failWith_total _
  · exact decodePairs_end_total hnext hfuel stringMap

theorem decodeMixedMap_total {γ : Type} (make : Int32 → List (Bytes × CObject) → γ)
    (hnext : Total 0 (hi - 1) 1 next) (hfuel : hi - 1 < fuel) :
    Total lo hi 1 (decodeMixedMap make next fuel) := by
  apply needData_total
  apply readByte_total (by omega)
  intro obtype
  split
  · exact failWith_total _
  · have hunknown : TakesExactly 4 (readInt32 .bigEndian : Decoder Int32) :=
      (readNumber_exactly 4 .bigEndian).map _
    apply weaken
    apply field hunknown (by omega)
    intro unknown
    exact decodePairs_end_total (hnext.mono (Nat.le_refl 0) (Nat.sub_le _ 4) (Nat.le_refl 1))
      (by omega) (make unknown)

end Structures

theorem className_total (hlo : 1 ≤ lo) : Total lo hi 1 (NumStreamer.readByte >>= fun _ => Amf0Util.readString) := by
  apply readByte_total hlo
  intro _
  exact readString_total.weaken

theorem decodeByType_total {next : Decoder CObject} {fuel : Nat} (hnext : Total 0 (hi - 1) 1 next)
    (hfuel : hi - 1 < fuel) (hlo : 1 ≤ lo) (obtype : UInt8) :
    Total lo hi 1 (decodeByType next fuel obtype) := by
  rw [decodeByType]
  split
  · exact decodeNumber_total
  · exact decodeBoolean_total
  · exact decodeString_total
  · exact decodeString_total
  · exact decodeStringMap_total hnext hfuel
  · exact decodeNull_total
  · exact decodeNull_total
  · exact decodeMixedMap_total mixedMap hnext hfuel
  · exact decodeArray_total hnext
  · exact decodeDate_total
  · -- A reference: two bytes and an error.
    apply needData_total
    have href : TakesExactly 2 (readInt16 .bigEndian : Decoder Int16) :=
      (readNumber_exactly 2 .bigEndian).map _
    exact (field href (Nat.le_max_right _ _) fun _ => failWith_total _).mono
      (Nat.le_refl _) (Nat.le_refl _) (by decide)
  · -- A class object: its name is looked at first.
    apply lookahead (className_total hlo)
    intro className
    split
    · exact decodeClassObject_total _ _
    · split
      · exact decodeClassObject_total _ _
      · exact failWith_total _
  all_goals exact failWith_total _

/-- A fuel above the length of the input is enough. -/
theorem readObject_total {fuel : Nat} (hfuel : hi < fuel) : Total lo hi 1 (readObject fuel) := by
  induction fuel generalizing lo hi with
  | zero => exact absurd hfuel (Nat.not_lt_zero hi)
  | succ fuel ih =>
    apply needData_total
    apply of_le
    intro hle
    have hone : 1 ≤ max lo 1 := Nat.le_max_right lo 1
    have hbyte : Total (max lo 1) hi 1 (readByte : Decoder UInt8) :=
      exactly_total readByte_exactly hone
    apply hbyte.lookahead
    intro obtype
    exact decodeByType_total (ih (by omega)) (by omega) hone obtype

/-! ## More fuel makes no difference -/

section Fuel

variable {next next' : Decoder CObject}

section

variable (h : Reader.ExtendedBy .fuel next next')

include h

theorem decodeItems_extended (n : Nat) : Reader.ExtendedBy .fuel (decodeItems next n) (decodeItems next' n) := by
  induction n with
  | zero => exact refl _
  | succ n ih => exact h.bind fun o => ih.bind fun os => refl _

theorem decodePairs_extended {set : Bytes → CObject → List (Bytes × CObject) → List (Bytes × CObject)} (fuel : Nat) (data : List (Bytes × CObject)) :
    Reader.ExtendedBy .fuel (decodePairs next set fuel data) (decodePairs next' set (fuel + 1) data) := by
  induction fuel generalizing data with
  | zero => exact fail _
  | succ fuel ih =>
    apply (refl pickString).bind
    intro key
    exact (refl _).ite (h.bind fun value => ih (set key value data))

theorem decodeMixedMap_extended {γ : Type} (make : Int32 → List (Bytes × CObject) → γ) (fuel : Nat) :
    Reader.ExtendedBy .fuel (decodeMixedMap make next fuel) (decodeMixedMap make next' (fuel + 1)) := by
  apply (refl _).bind
  intro _
  apply (refl _).bind
  intro _
  apply (refl _).ite
  apply (refl _).bind
  intro _
  exact (decodePairs_extended h fuel []).bind fun data => refl _

theorem decodeByType_extended (fuel : Nat) (obtype : UInt8) :
    Reader.ExtendedBy .fuel (decodeByType next fuel obtype) (decodeByType next' (fuel + 1) obtype) := by
  rw [decodeByType, decodeByType]
  split
  case h_5 =>
    -- `CStringMap::Decode`
    apply (refl _).bind
    intro _
    apply (refl _).bind
    intro _
    exact (refl _).ite
      ((decodePairs_extended h fuel []).bind fun data => refl _)
  case h_8 => exact decodeMixedMap_extended h mixedMap fuel
  case h_9 =>
    -- `CArray::Decode`
    apply (refl _).bind
    intro _
    apply (refl _).bind
    intro _
    apply (refl _).ite
    apply (refl _).bind
    intro size
    exact (refl _).ite
      ((decodeItems_extended h _).bind fun data => refl _)
  all_goals exact refl _

end

theorem readObject_extended (fuel : Nat) : Reader.ExtendedBy .fuel (readObject fuel) (readObject (fuel + 1)) := by
  induction fuel with
  | zero => exact fail _
  | succ fuel ih =>
    apply (refl _).bind
    intro _
    apply (refl _).bind
    intro obtype
    exact decodeByType_extended ih fuel obtype

end Fuel

theorem not_stuck_of_total {α : Type} {r : Decoder α} {s : Bytes} {k : Nat} {e : Stop ReadStatus}
    (h : Total 0 s.length k r) (he : Stuck e) : (r s).1 ≠ .error e := by
  intro herr
  have hr := h s (Nat.zero_le _) (Nat.le_refl _)
  rw [herr] at hr
  exact hr he

theorem readObject_succ {fuel : Nat} {s : Bytes} (hfuel : s.length < fuel) :
    readObject (fuel + 1) s = readObject fuel s := by
  rcases readObject_extended fuel s with herr | heq
  · exact absurd herr (not_stuck_of_total (readObject_total hfuel) (Or.inr rfl))
  · exact heq.symm

end CObject

namespace Amf0Util

/-- The fuel does not show: every fuel above the length of the input gives the same result. -/
theorem readObject_eq_readNextObject {fuel : Nat} {s : Bytes} (hfuel : s.length < fuel) :
    CObject.readObject fuel s = readNextObject s := by
  induction fuel with
  | zero => exact absurd hfuel (Nat.not_lt_zero _)
  | succ fuel ih =>
    rcases Nat.lt_succ_iff_lt_or_eq.1 hfuel with hlt | heq
    · rw [readObject_succ hlt, ih hlt]
    · rw [readNextObject, heq]

/-- On every input `ReadNextObject` reports a status, or takes at least a byte and returns an object. -/
theorem readNextObject_total {lo hi : Nat} : Total lo hi 1 readNextObject := fun s _ _ =>
  readObject_total (Nat.lt_succ_self s.length) s (Nat.zero_le _) (Nat.le_refl _)

end Amf0Util

namespace CMixedMap

/-- `CMixedMap::Decode` by a fuel. -/
abbrev decodeFuel (fuel : Nat) : Decoder CMixedMap :=
  CObject.decodeMixedMap CMixedMap.mk (CObject.readObject fuel) fuel

theorem decodeFuel_total {fuel lo hi : Nat} (hfuel : hi < fuel) : Total lo hi 1 (decodeFuel fuel) :=
  decodeMixedMap_total CMixedMap.mk (readObject_total (Nat.lt_of_le_of_lt (Nat.sub_le _ _) hfuel))
    (Nat.lt_of_le_of_lt (Nat.sub_le _ _) hfuel)

theorem decodeFuel_eq_decode {fuel : Nat} {s : Bytes} (hfuel : s.length < fuel) : decodeFuel fuel s = decode s := by
  induction fuel with
  | zero => exact absurd hfuel (Nat.not_lt_zero _)
  | succ fuel ih =>
    rcases Nat.lt_succ_iff_lt_or_eq.1 hfuel with hlt | heq
    · rw [← ih hlt]
      rcases decodeMixedMap_extended (readObject_extended fuel) CMixedMap.mk fuel s with
        herr | heq
      · exact absurd herr (not_stuck_of_total (decodeFuel_total hlt) (Or.inr rfl))
      · exact heq.symm
    · rw [decode, heq]

end CMixedMap

end Whispercast.Amf
