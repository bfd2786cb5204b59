import Whispercast.Library.AssocList
import Whispercast.Library.Binary64
import Whispercast.Amf.Amf0Util

/-!
# AMF0 objects

Model of `rtmp/objects/rtmp_objects.{h,cc}` and of `Amf0Util::ReadNextObject`. A `CStringMap` keeps its
entries in the order of `keys_`, a `CMixedMap` in the order of its `std::map`, which compares keys as
strings of unsigned bytes. A number is the bit pattern of its `double`.

`ReadNextObject` and the `Decode` functions of the structures call each other, and the loops over map
entries end when the input says so; the model bounds both by a fuel, which the length of the input always
suffices for.
-/

namespace Whispercast.Amf

open Library Io

/-- `CObject` and its subclasses. -/
inductive CObject where
  /-- `CNull`. -/
  | null
  /-- `CBoolean`. -/
  | boolean (value_ : Bool)
  /-- `CNumber`. -/
  | number (value_ : UInt64)
  /-- `CString`. -/
  | string (value_ : Bytes)
  /-- `CDate`. -/
  | date (timer_ms_ : Int64) (timezone_mins_ : Int16)
  /-- `CRecordSet`. -/
  | recordSet
  /-- `CRecordSetPage`. -/
  | recordSetPage
  /-- `CArray`. -/
  | array (data_ : List CObject)
  /-- `CStringMap`. -/
  | stringMap (data_ : List (Bytes × CObject))
  /-- `CMixedMap`. -/
  | mixedMap (unknown_ : Int32) (data_ : List (Bytes × CObject))

/-- The class name of a record set. -/
def recordSetName : Bytes := "RecordSet".toList.map fun c => UInt8.ofNat c.toNat

/-- The class name of a page of a record set. -/
def recordSetPageName : Bytes := "RecordSetPage".toList.map fun c => UInt8.ofNat c.toNat

namespace CObject

/-! ## Encode -/

mutual

def encode : CObject → Bytes
  | null => [Amf0Util.amf0TypeNull]
  | boolean v => [Amf0Util.amf0TypeBoolean, if v then Amf0Util.valueTrue else Amf0Util.valueFalse]
  | number v => Amf0Util.amf0TypeNumber :: NumStreamer.writeDouble v .bigEndian
  | string v => Amf0Util.writeString v
  | date ms tz => Amf0Util.amf0TypeDate ::
      (NumStreamer.writeDouble (Binary64.ofInt ms.toInt) .bigEndian ++ NumStreamer.writeInt16 tz .bigEndian)
  | recordSet => Amf0Util.writeClassObjectBegin ++ Amf0Util.writeString recordSetName
  | recordSetPage => Amf0Util.writeClassObjectBegin ++ Amf0Util.writeString recordSetPageName
  | array data => Amf0Util.amf0TypeArray ::
      (NumStreamer.writeInt32 (Int32.ofNat data.length) .bigEndian ++ encodeItems data)
  | stringMap data => Amf0Util.writeGenericObjectBegin ++
      (encodePairs data ++ (Amf0Util.putString [] ++ Amf0Util.writeGenericObjectEnd))
  | mixedMap unknown data => Amf0Util.amf0TypeMixedArray :: (NumStreamer.writeInt32 unknown .bigEndian ++
      (encodePairs data ++ (Amf0Util.putString [] ++ Amf0Util.writeGenericObjectEnd)))

/-- The loop of `CArray::Encode`. -/
def encodeItems : List CObject → Bytes
  | [] => []
  | o :: os => encode o ++ encodeItems os

/-- The loop of `CStringMap::Encode` and `CMixedMap::Encode`. -/
def encodePairs : List (Bytes × CObject) → Bytes
  | [] => []
  | (key, value) :: rest => Amf0Util.putString key ++ (encode value ++ encodePairs rest)

end

mutual

/-- `EncodingSize`, a `uint32`. -/
def encodingSize : CObject → UInt32
  | null => 1
  | boolean _ => 2
  | number _ => 9
  | string v =>
    if v.length < Amf0Util.longStringLength then UInt32.ofNat (1 + 2 + v.length)
    else UInt32.ofNat (1 + 4 + v.length)
  | date _ _ => 11
  | recordSet => 13
  | recordSetPage => 17
  | array data => 5 + itemsSize data
  | stringMap data => 1 + pairsSize data + 2 + 1
  | mixedMap _ data => 1 + 4 + pairsSize data + 2 + 1

/-- The loop of `CArray::EncodingSize`. -/
def itemsSize : List CObject → UInt32
  | [] => 0
  | o :: os => encodingSize o + itemsSize os

/-- The loop of `CStringMap::EncodingSize` and `CMixedMap::EncodingSize`. -/
def pairsSize : List (Bytes × CObject) → UInt32
  | [] => 0
  | (key, value) :: rest => (2 + UInt32.ofNat key.length + encodingSize value) + pairsSize rest

end

/-! ## Equals -/

mutual

def equals : CObject → CObject → Bool
  | null, null => true
  | boolean v, boolean w => w == v
  | number v, number w => Binary64.eq w v
  | string v, string w => w == v
  | date ms tz, date ms' tz' => ms == ms' && tz == tz'
  | recordSet, recordSet => true
  | recordSetPage, recordSetPage => true
  | array data, array data' => data'.length == data.length && equalsItems data data'
  | stringMap data, stringMap data' => data'.length == data.length && equalsPairs data data'
  | mixedMap _ data, mixedMap _ data' => data'.length == data.length && equalsPairs data data'
  | _, _ => false

/-- The loop of `CArray::Equals`. -/
def equalsItems : List CObject → List CObject → Bool
  | o :: os, o' :: os' => equals o o' && equalsItems os os'
  | _, _ => true

/-- The loop of `CStringMap::Equals` and `CMixedMap::Equals`: every key is found in the other map. -/
def equalsPairs : List (Bytes × CObject) → List (Bytes × CObject) → Bool
  | [], _ => true
  | (key, value) :: rest, data' =>
    match data'.lookup key with
    | some value' => equals value value' && equalsPairs rest data'
    | none => false

end

/-! ## Decode -/

/-- `CNull::Decode`. -/
def decodeNull : Decoder CObject := do
  needData 1
  let obtype ← NumStreamer.readByte
  if obtype ≠ Amf0Util.amf0TypeNull ∧ obtype ≠ Amf0Util.amf0TypeUndefined then failWith .corruptedData
  else pure null

/-- `CBoolean::Decode`. -/
def decodeBoolean : Decoder CObject := do
  needData 2
  let obtype ← NumStreamer.readByte
  if obtype ≠ Amf0Util.amf0TypeBoolean then failWith .corruptedData
  else do
    let value ← NumStreamer.readByte
    if value = Amf0Util.valueTrue then pure (boolean true)
    else if value = Amf0Util.valueFalse then pure (boolean false)
    else failWith .corruptedData

/-- `CNumber::Decode`. -/
def decodeNumber : Decoder CObject := do
  needData 9
  let obtype ← NumStreamer.readByte
  if obtype ≠ Amf0Util.amf0TypeNumber then failWith .corruptedData
  else do
    let value ← NumStreamer.readDouble .bigEndian
    pure (number value)

/-- `CString::Decode`. -/
def decodeString : Decoder CObject := do
  let value ← Amf0Util.readString
  pure (string value)

/-- `CDate::Decode`. -/
def decodeDate : Decoder CObject := do
  needData 11
  let obtype ← NumStreamer.readByte
  if obtype ≠ Amf0Util.amf0TypeDate then failWith .corruptedData
  else do
    let time ← NumStreamer.readDouble .bigEndian
    let timezone ← NumStreamer.readInt16 .bigEndian
    pure (date (Binary64.toInt64 time) timezone)

/-- `CRecordSet::Decode` and `CRecordSetPage::Decode`, which differ in the class name. -/
def decodeClassObject (name : Bytes) (o : CObject) : Decoder CObject := do
  needData 1
  let obtype ← NumStreamer.readByte
  if obtype ≠ Amf0Util.amf0TypeClassObject then failWith .corruptedData
  else do
    let tag ← Amf0Util.readString
    if tag ≠ name then failWith .corruptedData else pure o

/-- `CRecordSet::Decode`. -/
def decodeRecordSet : Decoder CObject := decodeClassObject recordSetName recordSet

/-- `CRecordSetPage::Decode`. -/
def decodeRecordSetPage : Decoder CObject := decodeClassObject recordSetPageName recordSetPage

/-- The loop of `CArray::Decode`; `next` is `ReadNextObject`. -/
def decodeItems (next : Decoder CObject) : Nat → Decoder (List CObject)
  | 0 => pure []
  | n + 1 => do
      let o ← next
      let os ← decodeItems next n
      pure (o :: os)

/-- `CArray::Decode`. The size is an `int32`: a negative one makes an empty array. -/
def decodeArray (next : Decoder CObject) : Decoder CObject := do
  needData 5
  let obtype ← NumStreamer.readByte
  if obtype ≠ Amf0Util.amf0TypeArray then failWith .corruptedData
  else do
    let size ← NumStreamer.readInt32 .bigEndian
    if (kMaximumArraySize : Int) < size.toInt then failWith .structTooLong
    else do
      let data ← decodeItems next size.toInt.toNat
      pure (array data)

/-- The loop of `CStringMap::Decode` and `CMixedMap::Decode`: entries up to an empty key. `set` is the way
the map takes an entry. -/
def decodePairs (next : Decoder CObject)
    (set : Bytes → CObject → List (Bytes × CObject) → List (Bytes × CObject)) :
    Nat → List (Bytes × CObject) → Decoder (List (Bytes × CObject))
  | 0, _ => Reader.fail .fuel
  | n + 1, data => do
      let key ← Amf0Util.pickString
      if key = [] then pure data
      else do
        let value ← next
        decodePairs next set n (set key value data)

/-- `CStringMap::Decode`. -/
def decodeStringMap (next : Decoder CObject) (fuel : Nat) : Decoder CObject := do
  needData 3
  let obtype ← NumStreamer.readByte
  if obtype ≠ Amf0Util.amf0TypeObject then failWith .corruptedData
  else do
    let data ← decodePairs next AssocList.setLast fuel []
    Amf0Util.readGenericObjectEnd
    pure (stringMap data)

/-- `CMixedMap::Decode`; `make` puts the map together. -/
def decodeMixedMap {γ : Type} (make : Int32 → List (Bytes × CObject) → γ) (next : Decoder CObject)
    (fuel : Nat) : Decoder γ := do
  needData 5
  let obtype ← NumStreamer.readByte
  if obtype ≠ Amf0Util.amf0TypeMixedArray then failWith .corruptedData
  else do
    let unknown ← NumStreamer.readInt32 .bigEndian
    let data ← decodePairs next AssocList.setSorted fuel []
    Amf0Util.readGenericObjectEnd
    pure (make unknown data)

/-- The class name of a class object, looked at from its first byte on. -/
def peekClassName : Decoder Bytes := Reader.lookahead do
  let _ ← NumStreamer.readByte
  Amf0Util.readString

/-- The switch of `ReadNextObject` over the type of the object. -/
def decodeByType (next : Decoder CObject) (fuel : Nat) (obtype : UInt8) : Decoder CObject :=
  match obtype.toNat with
  | 0x00 => decodeNumber
  | 0x01 => decodeBoolean
  | 0x02 => decodeString
  | 0x0C => decodeString
  | 0x03 => decodeStringMap next fuel
  | 0x05 => decodeNull
  | 0x06 => decodeNull
  | 0x08 => decodeMixedMap mixedMap next fuel
  | 0x0A => decodeArray next
  | 0x0B => decodeDate
  -- `AMF0_TYPE_REFERENCE`: the two bytes are read for the log message.
  | 0x07 => do
      needData 2
      let _ ← NumStreamer.readInt16 .bigEndian
      failWith .unsupportedReferences
  | 0x10 => do
      let className ← peekClassName
      if className = recordSetName then decodeRecordSet
      else if className = recordSetPageName then decodeRecordSetPage
      else failWith .notImplemented
  -- XML, movie clips, record sets, unsupported and AMF3 objects.
  | 0x0F => failWith .notImplemented
  | 0x04 => failWith .notImplemented
  | 0x0E => failWith .notImplemented
  | 0x0D => failWith .notImplemented
  | 0x11 => failWith .notImplemented
  -- `AMF0_TYPE_END_OF_OBJECT` and everything else.
  | _ => failWith .corruptedData

/-- `ReadNextObject`, by a fuel. -/
def readObject : Nat → Decoder CObject
  | 0 => Reader.fail .fuel
  | fuel + 1 => do
      needData 1
      let obtype ← NumStreamer.peekByte
      decodeByType (readObject fuel) fuel obtype

end CObject

def Amf0Util.readNextObject : Decoder CObject := fun s => CObject.readObject (s.length + 1) s

/-- `CString::Decode`, as a decoder of the string. -/
def CString.decode : Decoder Bytes := Amf0Util.readString

/-- `CMixedMap` on its own. -/
structure CMixedMap where
  unknown_ : Int32
  data_ : List (Bytes × CObject)

namespace CMixedMap

/-- A mixed map is an object. -/
def toObject (m : CMixedMap) : CObject := .mixedMap m.unknown_ m.data_

def decode : Decoder CMixedMap := fun s =>
  CObject.decodeMixedMap CMixedMap.mk (CObject.readObject (s.length + 1)) (s.length + 1) s

/-- The entries that the loop of `CMixedMap::Decode` has put into the map when it ends, also by an
error. -/
def reachedPairs (next : Decoder CObject) :
    Nat → List (Bytes × CObject) → Bytes → List (Bytes × CObject)
  | 0, data, _ => data
  | n + 1, data, s =>
    match Amf0Util.pickString s with
    | (.error _, _) => data
    | (.ok key, s') =>
      if key = [] then data
      else match next s' with
        | (.error _, _) => data
        | (.ok value, s'') => reachedPairs next n (AssocList.setSorted key value data) s''

/-- What `CMixedMap::Decode` makes of a map, also when it returns an error: the map is cleared first, and
then takes what is read. -/
def reached (unknown : Int32) (s : Bytes) : CMixedMap :=
  let header : Decoder Int32 := do
    needData 5
    let obtype ← NumStreamer.readByte
    if obtype ≠ Amf0Util.amf0TypeMixedArray then failWith .corruptedData
    else NumStreamer.readInt32 .bigEndian
  match header s with
  | (.error _, _) => ⟨unknown, []⟩
  | (.ok unknown', s') =>
    ⟨unknown', reachedPairs (CObject.readObject (s.length + 1)) (s.length + 1) [] s'⟩

end CMixedMap

end Whispercast.Amf
