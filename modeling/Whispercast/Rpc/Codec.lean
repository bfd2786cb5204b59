import Whispercast.Rpc.JsonText
import Whispercast.Io.NumStreaming

/-!
# RPC codecs

Models of `rpc::Encoder` and `rpc::Decoder` with their binary and JSON implementations
(`whisperlib/net/rpc/lib/codec`). Both classes are interfaces of many small methods; here they are records of
functions. What an encoder appends to its output is the value of a method. A decoder method takes bytes off the
stream and changes the decoder object; in case of an error or too little data nothing is put back, `ReadRawObject`
of JSON apart.
-/

namespace Whispercast.Rpc

open Io Library

inductive CodecId where
  | binary
  | json

/-- A `DECODE_RESULT` other than success. -/
inductive DecodeFault where
  | notEnoughData
  | error
  deriving DecidableEq

/-- The members of `BinaryDecoder` (the last item of `items_stack_` first) and of `JsonDecoder`. -/
structure DecoderState where
  itemsStack : List UInt32 := []
  decodingMapKey : Bool := false
  isFirstItem : Bool := true

/-- A decoder method. -/
abbrev Decoding (α : Type) : Type := StateReader UInt8 DecodeFault DecoderState α

/-- `rpc::Encoder`. The flag of the numbers is `encoding_map_key_`: it is set from `EncodeMapPairStart` to
`EncodeMapPairMiddle`, so exactly while a key is encoded. -/
structure Encoder where
  encodeStructStart : UInt32 → Bytes
  encodeStructContinue : Bytes
  encodeStructEnd : Bytes
  encodeStructAttribStart : Bytes
  encodeStructAttribMiddle : Bytes
  encodeStructAttribEnd : Bytes
  encodeArrayStart : UInt32 → Bytes
  encodeArrayContinue : Bytes
  encodeArrayEnd : Bytes
  encodeMapStart : UInt32 → Bytes
  encodeMapContinue : Bytes
  encodeMapEnd : Bytes
  encodeMapPairStart : Bytes
  encodeMapPairMiddle : Bytes
  encodeMapPairEnd : Bytes
  encodeVoid : Bytes
  encodeBool : Bool → Bytes
  encodeInt32 : Bool → Int32 → Bytes
  encodeUInt32 : Bool → UInt32 → Bytes
  encodeInt64 : Bool → Int64 → Bytes
  encodeUInt64 : Bool → UInt64 → Bytes
  encodeString : Bytes → Bytes
  writeRawObject : Bytes → Bytes

structure Decoder where
  decodeStructStart : Decoding Unit
  decodeStructContinue : Decoding Bool
  decodeStructAttribStart : Decoding Unit
  decodeStructAttribMiddle : Decoding Unit
  decodeArrayStart : Decoding Unit
  decodeArrayContinue : Decoding Bool
  decodeMapStart : Decoding Unit
  decodeMapContinue : Decoding Bool
  decodeMapPairStart : Decoding Unit
  decodeMapPairMiddle : Decoding Unit
  decodeMapPairEnd : Decoding Unit
  decodeVoid : Decoding Unit
  decodeBool : Decoding Bool
  decodeInt32 : Decoding Int32
  decodeUInt32 : Decoding UInt32
  decodeInt64 : Decoding Int64
  decodeUInt64 : Decoding UInt64
  decodeString : Decoding Bytes
  readRawObject : Decoding Bytes

/-! ## Binary -/

namespace BinaryEncoder

/-- `Encode(string)`: the size is written as an `int32`. -/
def encodeString (str : Bytes) : Bytes := leBytes 4 str.length ++ str

/-- `WriteRawObject`: the size is a `uint32`. -/
def writeRawObject (obj : Bytes) : Bytes := leBytes 4 obj.length ++ obj

end BinaryEncoder

/-- `BinaryEncoder`; the byte order is little-endian. -/
def binaryEncoder : Encoder where
  encodeStructStart n := leBytes 4 n.toNat
  encodeStructContinue := []
  encodeStructEnd := []
  encodeStructAttribStart := []
  encodeStructAttribMiddle := []
  encodeStructAttribEnd := []
  encodeArrayStart n := leBytes 4 n.toNat
  encodeArrayContinue := []
  encodeArrayEnd := []
  encodeMapStart n := leBytes 4 n.toNat
  encodeMapContinue := []
  encodeMapEnd := []
  encodeMapPairStart := []
  encodeMapPairMiddle := []
  encodeMapPairEnd := []
  encodeVoid := [0xff]
  encodeBool v := [if v then 1 else 0]
  encodeInt32 _ v := leBytes 4 v.toUInt32.toNat
  encodeUInt32 _ v := leBytes 4 v.toNat
  encodeInt64 _ v := leBytes 8 v.toUInt64.toNat
  encodeUInt64 _ v := leBytes 8 v.toNat
  encodeString := BinaryEncoder.encodeString
  writeRawObject := BinaryEncoder.writeRawObject

namespace BinaryDecoder

/-- `DecodeNumeric` of a number with `n` bytes. -/
def decodeNumeric (n : Nat) : Decoding Nat := do
  let bytes ← StateReader.take n .notEnoughData
  pure (leValue bytes)

def decodeItemCount : Decoding Unit := do
  let n ← decodeNumeric 4
  StateReader.modify fun s => { s with itemsStack := UInt32.ofNat n :: s.itemsStack }

/-- `DecodeStructContinue`, `DecodeMapContinue`: more items if the last count is not zero; if it is, it goes. The
stack is not empty there. -/
def decodeContinue : Decoding Bool := fun s l =>
  match s.itemsStack with
  | n :: stack => if 0 < n then (.ok true, s, l) else (.ok false, { s with itemsStack := stack }, l)
  | [] => (.ok false, s, l)

/-- `DecodeStructAttribStart`, `DecodeMapPairStart`: one item less. -/
def decodeItemStart : Decoding Unit :=
  StateReader.modify fun s => match s.itemsStack with
    | n :: stack => { s with itemsStack := (n - 1) :: stack }
    | [] => s

def decodeArrayContinue : Decoding Bool := do
  let more ← decodeContinue
  if more then do
    decodeItemStart
    pure true
  else pure false

/-- `Decode(rpc::Void)`. -/
def decodeVoid : Decoding Unit := do
  let byte ← decodeNumeric 1
  if byte = 0xff then pure () else StateReader.fail .error

/-- `Decode(bool)`. -/
def decodeBool : Decoding Bool := do
  let byte ← decodeNumeric 1
  if byte = 0 then pure false
  else if byte = 1 then pure true
  else StateReader.fail .error

/-- `Decode(string)`: the length is read as an `int32` and must not be negative. -/
def decodeString : Decoding Bytes := do
  let length ← decodeNumeric 4
  if 2 ^ 31 ≤ length then StateReader.fail .error else StateReader.take length .notEnoughData

def readRawObject : Decoding Bytes := do
  let size ← decodeNumeric 4
  StateReader.take size .notEnoughData

end BinaryDecoder

open BinaryDecoder in
def binaryDecoder : Decoder where
  decodeStructStart := decodeItemCount
  decodeStructContinue := decodeContinue
  decodeStructAttribStart := decodeItemStart
  decodeStructAttribMiddle := pure ()
  decodeArrayStart := decodeItemCount
  decodeArrayContinue := decodeArrayContinue
  decodeMapStart := decodeItemCount
  decodeMapContinue := decodeContinue
  decodeMapPairStart := decodeItemStart
  decodeMapPairMiddle := pure ()
  decodeMapPairEnd := pure ()
  decodeVoid := decodeVoid
  decodeBool := decodeBool
  decodeInt32 := do let v ← decodeNumeric 4; pure (UInt32.ofNat v).toInt32
  decodeUInt32 := do let v ← decodeNumeric 4; pure (UInt32.ofNat v)
  decodeInt64 := do let v ← decodeNumeric 8; pure (UInt64.ofNat v).toInt64
  decodeUInt64 := do let v ← decodeNumeric 8; pure (UInt64.ofNat v)
  decodeString := decodeString
  readRawObject := readRawObject

/-! ## JSON -/

namespace JsonEncoder

/-- `PrintBody`: a key has quotes, another number has a blank behind it. -/
def printBody (encodingMapKey : Bool) (n : Int) : Bytes :=
  if encodingMapKey then 34 :: (printNumber n ++ [34]) else printNumber n ++ [32]

/-- `true`. -/
def trueText : Bytes := [116, 114, 117, 101]

/-- `false`. -/
def falseText : Bytes := [102, 97, 108, 115, 101]

/-- `null`. -/
def nullText : Bytes := [110, 117, 108, 108]

end JsonEncoder

open JsonEncoder in
def jsonEncoder : Encoder where
  encodeStructStart _ := [123]
  encodeStructContinue := [44, 32]
  encodeStructEnd := [125]
  encodeStructAttribStart := []
  encodeStructAttribMiddle := [58, 32]
  encodeStructAttribEnd := []
  encodeArrayStart _ := [91]
  encodeArrayContinue := [44, 32]
  encodeArrayEnd := [93]
  encodeMapStart _ := [123]
  encodeMapContinue := [44, 32]
  encodeMapEnd := [125]
  encodeMapPairStart := []
  encodeMapPairMiddle := [58, 32]
  encodeMapPairEnd := []
  encodeVoid := nullText
  encodeBool v := if v then trueText else falseText
  encodeInt32 key v := printBody key v.toInt
  encodeUInt32 key v := printBody key v.toNat
  encodeInt64 key v := printBody key v.toInt
  encodeUInt64 key v := printBody key v.toNat
  encodeString := jsonQuoted
  writeRawObject obj := obj

namespace JsonDecoder

/-- The result for a token that could not be read. -/
def faultOf : TokenFault → DecodeFault
  | .noData => .notEnoughData
  | .errorChar => .error

/-- The next token of the stream. -/
def nextToken : Decoding Token := fun s l =>
  match readNextAsciiToken l with
  | .ok (t, rest) => (.ok t, s, rest)
  | .error fault => (.error (faultOf fault), s, l)

/-- `ReadExpectedSeparator`: only the first character of the token is compared. -/
def readExpectedSeparator (expected : UInt8) : Decoding Unit := do
  let t ← nextToken
  if t.text.head? = some expected then pure () else StateReader.fail .error

/-- What `DecodeElementContinue` does when it finds neither separator: the token is put back, and it belongs to
the first element if there was none before. -/
def decodeFirstElement : Decoding Bool := fun s l =>
  if s.isFirstItem then (.ok true, { s with isFirstItem := false }, l) else (.error .error, s, l)

def decodeElementContinue (separator : UInt8) : Decoding Bool := fun s l =>
  match readNextAsciiToken l with
  | .error .noData => (.error .notEnoughData, s, l)
  | .error .errorChar => decodeFirstElement s l
  | .ok (t, rest) =>
    if t = .sep separator then (.ok false, s, rest)
    else if t = .sep 44 then (.ok true, s, rest)
    else decodeFirstElement s l

/-- `DecodeStructStart`, `DecodeArrayStart`, `DecodeMapStart`. -/
def decodeStart (separator : UInt8) : Decoding Unit := do
  StateReader.modify fun s => { s with isFirstItem := true }
  readExpectedSeparator separator

def decodeMapPairStart : Decoding Unit := StateReader.modify fun s => { s with decodingMapKey := true }

def decodeMapPairMiddle : Decoding Unit := do
  StateReader.modify fun s => { s with decodingMapKey := false }
  readExpectedSeparator 58

/-- `Decode(rpc::Void)`. -/
def decodeVoid : Decoding Unit := do
  let t ← nextToken
  if t = .word JsonEncoder.nullText then pure () else StateReader.fail .error

/-- `Decode(bool)`. -/
def decodeBool : Decoding Bool := do
  let t ← nextToken
  if t = .word JsonEncoder.trueText then pure true
  else if t = .word JsonEncoder.falseText then pure false
  else StateReader.fail .error

/-- `decoding_map_key_`. -/
def hasQuotes : Decoding Bool := fun s l => (.ok s.decodingMapKey, s, l)

/-- The text of a number: quoted as a key, and not quoted elsewhere. -/
def numberText (quotes : Bool) : Token → Option Bytes
  | .word text => if quotes then none else some text
  | .quoted text => if quotes then some (jsonStrUnescape false (unquote text)) else none
  | .sep _ => none

/-- `ReadNumber` of an integer. -/
def readNumber : Decoding Int := do
  let t ← nextToken
  let quotes ← hasQuotes
  match (numberText quotes t).bind strtoll with
  | some n => pure n
  | none => StateReader.fail .error

/-- `Decode(string)`. -/
def decodeString : Decoding Bytes := do
  let t ← nextToken
  match t with
  | .quoted text => pure (jsonStrUnescape false (unquote text))
  | _ => StateReader.fail .error

/-- The closing brackets that `ReadRawObject` waits for behind a token, the last one first; none when the token
closes something else. -/
def paranthesisAfter (paranthesis : Bytes) : Token → Option Bytes
  | .sep c =>
    if c = 123 then some (125 :: paranthesis)
    else if c = 91 then some (93 :: paranthesis)
    else if c = 125 ∨ c = 93 then
      match paranthesis with
      | p :: rest => if p = c then some rest else none
      | [] => none
    else some paranthesis
  | _ => some paranthesis

/-- One turn of the loop in `ReadRawObject`, with the brackets that are waited for and what has been written. -/
def readRawToken (x : Bytes × Bytes) : Decoding ((Bytes × Bytes) ⊕ Bytes) := do
  let t ← nextToken
  let out := x.2 ++ t.text
  match paranthesisAfter x.1 t with
  | none => StateReader.fail .error
  | some [] => pure (.inr (out ++ [32]))
  | some paranthesis => pure (.inl (paranthesis, out))

/-- `ReadRawObject`. With too little data the stream is put back. -/
def readRawObject : Decoding Bytes := fun s l =>
  match StateReader.iterate readRawToken .error ([], []) s l with
  | (.error .notEnoughData, s', _) => (.error .notEnoughData, s', l)
  | result => result

end JsonDecoder

open JsonDecoder in
/-- `JsonDecoder`. A number is stored in the type that it is read for. -/
def jsonDecoder : Decoder where
  decodeStructStart := decodeStart 123
  decodeStructContinue := decodeElementContinue 125
  decodeStructAttribStart := pure ()
  decodeStructAttribMiddle := readExpectedSeparator 58
  decodeArrayStart := decodeStart 91
  decodeArrayContinue := decodeElementContinue 93
  decodeMapStart := decodeStart 123
  decodeMapContinue := decodeElementContinue 125
  decodeMapPairStart := decodeMapPairStart
  decodeMapPairMiddle := decodeMapPairMiddle
  decodeMapPairEnd := pure ()
  decodeVoid := decodeVoid
  decodeBool := decodeBool
  decodeInt32 := do let n ← readNumber; pure (Int32.ofInt n)
  decodeUInt32 := do let n ← readNumber; pure (UInt32.ofInt n)
  decodeInt64 := do let n ← readNumber; pure (Int64.ofInt n)
  decodeUInt64 := do let n ← readNumber; pure (UInt64.ofInt n)
  decodeString := decodeString
  readRawObject := readRawObject

/-- `CreateEncoder`. -/
def CodecId.encoder : CodecId → Encoder
  | .binary => binaryEncoder
  | .json => jsonEncoder

/-- `CreateDecoder`; the new object has the default state. -/
def CodecId.decoder : CodecId → Decoder
  | .binary => binaryDecoder
  | .json => jsonDecoder

end Whispercast.Rpc
