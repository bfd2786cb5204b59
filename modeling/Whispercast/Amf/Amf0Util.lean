import Whispercast.Io.NumStreaming

/-!
# Strings and markers of AMF0

Model of `rtmp/objects/amf/amf_util.h` and of the parts of `amf0_util.{h,cc}` that deal with strings and
object ends; `ReadNextObject` is with the objects it creates. Writers give the bytes they write. Readers
work on the readable bytes of the stream and leave them as the source does, also when they fail.
-/

namespace Whispercast.Amf

open Library Io NumStreamer Reader Reader.Reads

inductive ReadStatus where
  /-- Everything went OK. -/
  | ok
  /-- Not enough data available. -/
  | noData
  /-- Some corruption in the input stream. -/
  | corruptedData
  /-- An object that cannot be read. -/
  | notImplemented
  /-- References are not supported. -/
  | unsupportedReferences
  /-- A string or an array that is too long. -/
  | structTooLong
  /-- The internal limits on memory are overrun. -/
  | oom
  /-- Too many channels. -/
  | tooManyChannels
  deriving DecidableEq

/-- A reading function that returns a `ReadStatus`. -/
abbrev Decoder (α : Type) : Type := StreamReader ReadStatus α

/-- `return READ_...` with a status other than `READ_OK`. -/
def failWith {α : Type} (s : ReadStatus) : Decoder α := Reader.fail (.status s)

/-- `if ( in->Size() < n ) return READ_NO_DATA`. -/
def needData (n : Nat) : Decoder Unit := Reader.need n (.status .noData)

/-- `in->ReadString(out, len)` with its `CHECK_EQ`. -/
def readBytes (len : Nat) : Decoder Bytes := Reader.take len .check

/-- From all strings at most 10MB are read. -/
def kMaximumStringReadableData : Nat := 10 * 2 ^ 20

/-- Arrays have at most this size. -/
def kMaximumArraySize : Nat := 10000

namespace Amf0Util

def longStringLength : Nat := 65535

def amf0TypeNumber : UInt8 := 0x00
def amf0TypeBoolean : UInt8 := 0x01
def amf0TypeString : UInt8 := 0x02
def amf0TypeObject : UInt8 := 0x03
def amf0TypeNull : UInt8 := 0x05
def amf0TypeUndefined : UInt8 := 0x06
def amf0TypeMixedArray : UInt8 := 0x08
def amf0TypeEndOfObject : UInt8 := 0x09
def amf0TypeArray : UInt8 := 0x0A
def amf0TypeDate : UInt8 := 0x0B
def amf0TypeLongString : UInt8 := 0x0C
def amf0TypeClassObject : UInt8 := 0x10

def valueTrue : UInt8 := 0x01
def valueFalse : UInt8 := 0x00

/-! ## Writing -/

/-- `WriteString`: a string object, short or long. -/
def writeString (str : Bytes) : Bytes :=
  if str.length < longStringLength then
    amf0TypeString :: (NumStreamer.writeNumber 2 .bigEndian str.length ++ str)
  else
    amf0TypeLongString :: (NumStreamer.writeNumber 4 .bigEndian str.length ++ str)

/-- `PutString`: the bytes of a string behind their number. -/
def putString (str : Bytes) : Bytes := NumStreamer.writeNumber 2 .bigEndian str.length ++ str

def writeClassObjectBegin : Bytes := [amf0TypeClassObject]
def writeGenericObjectBegin : Bytes := [amf0TypeObject]
def writeGenericObjectEnd : Bytes := [amf0TypeEndOfObject]

/-! ## Reading -/

/-- The length of a string object, by its type. -/
def readStringLength (obtype : UInt8) : Decoder Nat :=
  if obtype = amf0TypeString then do
    needData 2
    let len ← NumStreamer.readUInt16 .bigEndian
    pure len.toNat
  else if obtype = amf0TypeLongString then do
    needData 4
    let len ← NumStreamer.readUInt32 .bigEndian
    pure len.toNat
  else failWith .corruptedData

/-- The data of a string object of known length. -/
def readStringData (len : Nat) : Decoder Bytes :=
  if kMaximumStringReadableData < len then failWith .structTooLong
  else do
    needData len
    readBytes len

def readString : Decoder Bytes := do
  needData 1
  let obtype ← NumStreamer.readByte
  let len ← readStringLength obtype
  readStringData len

def pickString : Decoder Bytes := do
  needData 2
  let len ← NumStreamer.readUInt16 .bigEndian
  needData len.toNat
  readBytes len.toNat

def readGenericObjectEnd : Decoder Unit := do
  needData 1
  let obtype ← NumStreamer.readByte
  if obtype = amf0TypeEndOfObject then pure () else failWith .corruptedData

end Amf0Util

/-! ## What is written is read -/

/-- The reader takes exactly these bytes, and asks for more data on every proper initial part. -/
abbrev DecodesFrom {α : Type} (n : Nat) (r : Decoder α) (u : Bytes) (a : α) : Prop :=
  Reader.Reads (.status .noData) n r u a

section

variable {α γ : Type} {n k : Nat} {r : Decoder α} {u v : Bytes} {a : α} {b : γ}

theorem DecodesFrom.needData (hr : DecodesFrom n r u a) (hn : n ≤ u.length) :
    DecodesFrom k (needData n >>= fun _ => r) u a :=
  need hr hn

/-- A byte that is known to be there. -/
theorem DecodesFrom.byte {f : UInt8 → Decoder γ} (c : UInt8) (hf : DecodesFrom k (f c) v b)
    (hn : 1 + k ≤ n) : DecodesFrom n (NumStreamer.readByte >>= f) (c :: v) b :=
  field (readByte_gets c) rfl hf hn

theorem readBytes_decodes (str : Bytes) : DecodesFrom str.length (readBytes str.length) str str :=
  lastField (Gets.take _ rfl) rfl

namespace Amf0Util

theorem readStringData_decodes {str : Bytes} (h : str.length ≤ kMaximumStringReadableData) :
    DecodesFrom 0 (readStringData str.length) str str := by
  rw [readStringData, if_neg (Nat.not_lt.2 h)]
  exact (readBytes_decodes str).needData (Nat.le_refl _)

/-- A string object of at most 10MB is read back. -/
theorem readString_decodes {str : Bytes} (h : str.length ≤ kMaximumStringReadableData) :
    DecodesFrom k readString (writeString str) str := by
  have hdata := readStringData_decodes h
  rw [writeString]
  by_cases hshort : str.length < longStringLength
  · -- The short form: the length has two bytes.
    have hlt : str.length < 2 ^ 16 := Nat.lt_trans hshort (by decide)
    have hnum : (UInt16.ofNat str.length).toNat = str.length := by
      rw [UInt16.toNat_ofNat', Nat.mod_eq_of_lt hlt]
    have hlen : DecodesFrom 0 (readStringLength amf0TypeString)
        (writeNumber 2 .bigEndian str.length) str.length := by
      have hnumber : DecodesFrom 2 (readUInt16 .bigEndian) _ (UInt16.ofNat str.length) :=
        lastField (readUInt16_gets .bigEndian hlt)
          (writeNumber_length 2 _ _)
      have hread := hnumber.map UInt16.toNat
      rw [hnum] at hread
      exact DecodesFrom.needData hread (writeNumber_length 2 _ _).ge
    rw [if_pos hshort]
    exact DecodesFrom.needData (DecodesFrom.byte _ (hlen.bind hdata) (Nat.le_refl 1)) (Nat.le_add_left 1 _)
  · -- The long form: the length has four bytes.
    have hlt : str.length < 2 ^ 32 := Nat.lt_of_le_of_lt h (by decide)
    have hnum : (UInt32.ofNat str.length).toNat = str.length := by
      rw [UInt32.toNat_ofNat', Nat.mod_eq_of_lt hlt]
    have hlen : DecodesFrom 0 (readStringLength amf0TypeLongString)
        (writeNumber 4 .bigEndian str.length) str.length := by
      have hnumber : DecodesFrom 4 (readUInt32 .bigEndian) _ (UInt32.ofNat str.length) :=
        lastField (readUInt32_gets _ .bigEndian)
          (writeNumber_length 4 _ _)
      have hread := hnumber.map UInt32.toNat
      rw [writeUInt32, hnum] at hread
      exact DecodesFrom.needData hread (writeNumber_length 4 _ _).ge
    rw [if_neg hshort]
    exact DecodesFrom.needData (DecodesFrom.byte _ (hlen.bind hdata) (Nat.le_refl 1)) (Nat.le_add_left 1 _)

/-- A string behind its length is read back when the length has two bytes. -/
theorem pickString_decodes {str : Bytes} (h : str.length < 2 ^ 16) : DecodesFrom k pickString (putString str) str := by
  have hnum : (UInt16.ofNat str.length).toNat = str.length := by
    rw [UInt16.toNat_ofNat', Nat.mod_eq_of_lt h]
  have hdata : DecodesFrom 0 (needData (UInt16.ofNat str.length).toNat >>= fun _ =>
      readBytes (UInt16.ofNat str.length).toNat) str str := by
    rw [hnum]
    exact (readBytes_decodes str).needData (Nat.le_refl _)
  have hread : DecodesFrom 2 (readUInt16 .bigEndian >>= fun len =>
      needData len.toNat >>= fun _ => readBytes len.toNat) (putString str) str :=
    field (readUInt16_gets .bigEndian h)
      (writeNumber_length 2 _ _) hdata (Nat.le_refl 2)
  apply DecodesFrom.needData hread
  rw [putString, List.length_append, writeNumber_length]
  exact Nat.le_add_right 2 _

theorem readGenericObjectEnd_decodes : DecodesFrom k readGenericObjectEnd writeGenericObjectEnd () := by
  have hend : DecodesFrom 0 (if amf0TypeEndOfObject = amf0TypeEndOfObject then pure ()
      else failWith .corruptedData) [] () := Reader.Reads.pure ()
  have hbyte : DecodesFrom 1 (readByte >>= fun obtype =>
      if obtype = amf0TypeEndOfObject then pure () else failWith .corruptedData)
      writeGenericObjectEnd () :=
    DecodesFrom.byte _ hend (Nat.le_refl 1)
  exact DecodesFrom.needData hbyte (Nat.le_refl 1)

theorem writeString_length (str : Bytes) : (writeString str).length =
    if str.length < longStringLength then 3 + str.length else 5 + str.length := by
  rw [writeString]
  split
  · rw [List.length_cons, List.length_append, writeNumber_length]
    omega
  · rw [List.length_cons, List.length_append, writeNumber_length]
    omega

@[simp] theorem putString_length (str : Bytes) : (putString str).length = 2 + str.length := by
  rw [putString, List.length_append, writeNumber_length]

end Amf0Util

end

end Whispercast.Amf
