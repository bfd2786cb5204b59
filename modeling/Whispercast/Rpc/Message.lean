import Whispercast.Rpc.Value
import Whispercast.Http.Consts

/-!
# RPC messages

Model of `whisperlib/net/rpc/lib/types/rpc_message.cc`. A message is a struct of a header and a body, which are
structs themselves; `SerializeLoad` takes the attributes of each in any order, every one at most once. The
attributes that have been found are optional values here, and the loop over them is one definition.
-/

namespace Whispercast.Rpc

open Io Library StateReader
open Http (ascii)
open Regular

inductive MessageType where
  | call
  | reply
  deriving DecidableEq

/-- The number of a message type. -/
def MessageType.code : MessageType → UInt32
  | .call => 0
  | .reply => 1

/-- The message type with this number. -/
def messageType? (code : UInt32) : Option MessageType :=
  if code = 0 then some .call else if code = 1 then some .reply else none

inductive ReplyStatus where
  | success
  | serviceUnavail
  | procUnavail
  | garbageArgs
  | systemErr
  | serverBusy
  | unauthorized
  | queryTimeout
  | tooManyQueries
  | connClosed
  | connError
  deriving DecidableEq

/-- The number of a status. -/
def ReplyStatus.code : ReplyStatus → Int32
  | .success => 0
  | .serviceUnavail => 1
  | .procUnavail => 2
  | .garbageArgs => 3
  | .systemErr => 4
  | .serverBusy => 5
  | .unauthorized => 6
  | .queryTimeout => 101
  | .tooManyQueries => 102
  | .connClosed => 103
  | .connError => 104

/-- The status with this number, if `IsValidReplyStatus`. -/
def replyStatus? (code : UInt32) : Option ReplyStatus :=
  [.success, .serviceUnavail, .procUnavail, .garbageArgs, .systemErr, .serverBusy, .unauthorized, .queryTimeout,
    .tooManyQueries, .connClosed, .connError].find? fun status => status.code.toUInt32 = code

theorem messageType?_code (t : MessageType) : messageType? t.code = some t := by
  cases t with
  | call => rfl
  | reply => rfl

theorem replyStatus?_code (s : ReplyStatus) : replyStatus? s.code.toUInt32 = some s := by
  cases s <;> rfl

structure Header where
  xid : Int32 := 0
  msgType : MessageType := .call

structure CallBody where
  service : Bytes := []
  method : Bytes := []
  params : Bytes := []

structure ReplyBody where
  replyStatus : ReplyStatus := .success
  result : Bytes := []

/-- `rpc::Message`. Only the body that belongs to the type is used. -/
structure Message where
  header : Header := {}
  cbody : CallBody := {}
  rbody : ReplyBody := {}

/-! ## SerializeSave -/

def Encoder.encodeStructAttrib (e : Encoder) (attrib : Bytes × Bytes) : Bytes :=
  e.encodeStructAttribStart ++ (e.encodeString attrib.1 ++
    (e.encodeStructAttribMiddle ++ (attrib.2 ++ e.encodeStructAttribEnd)))

/-- A struct of encoded attributes: `EncodeStructStart`, the attributes with `EncodeStructContinue` between
them, `EncodeStructEnd`. -/
def Encoder.encodeStruct (e : Encoder) (attribs : List (Bytes × Bytes)) : Bytes :=
  e.encodeStructStart (UInt32.ofNat attribs.length) ++
    (separated e.encodeStructContinue (attribs.map e.encodeStructAttrib) ++ e.encodeStructEnd)

def Header.serializeSave (e : Encoder) (h : Header) : Bytes :=
  e.encodeStruct [(ascii "xid", e.encodeInt32 false h.xid), (ascii "msgType", e.encodeUInt32 false h.msgType.code)]

def CallBody.serializeSave (e : Encoder) (b : CallBody) : Bytes :=
  e.encodeStruct [(ascii "service", e.encodeString b.service), (ascii "method", e.encodeString b.method),
    (ascii "params", e.writeRawObject b.params)]

/-- `ReplyBody::SerializeSave`. The status is an enumeration whose values fit in an `int`, so the overload for
`int32` is called. -/
def ReplyBody.serializeSave (e : Encoder) (b : ReplyBody) : Bytes :=
  e.encodeStruct [(ascii "replyStatus", e.encodeInt32 false b.replyStatus.code),
    (ascii "result", e.writeRawObject b.result)]

def Message.serializeSave (e : Encoder) (m : Message) : Bytes :=
  e.encodeStruct [(ascii "header", m.header.serializeSave e),
    match m.header.msgType with
    | .call => (ascii "cbody", m.cbody.serializeSave e)
    | .reply => (ascii "rbody", m.rbody.serializeSave e)]

/-! ## SerializeLoad -/

/-- One turn of the loop over the attributes of a struct. `attrib` reads the value of the attribute with this
name into what has been found. -/
def Decoder.decodeAttrib {φ : Type} (d : Decoder) (attrib : Bytes → φ → Decoding φ) (x : φ) : Decoding (φ ⊕ φ) := do
  d.decodeStructAttribStart
  let name ← d.decodeString
  d.decodeStructAttribMiddle
  let x ← attrib name x
  let more ← d.decodeStructContinue
  pure (if more then .inl x else .inr x)

/-- A struct. -/
def Decoder.decodeStruct {φ : Type} (d : Decoder) (attrib : Bytes → φ → Decoding φ) (x : φ) : Decoding φ := do
  d.decodeStructStart
  iterate (d.decodeAttrib attrib) .error x

/-- An attribute that is found for the first time. -/
def once {φ α : Type} (found : Option α) (value : Decoding α) (set : α → φ) : Decoding φ :=
  if found.isSome then StateReader.fail .error else do
    let v ← value
    pure (set v)

/-- The attributes of a header. -/
structure HeaderFound where
  xid : Option Int32 := none
  msgType : Option MessageType := none

/-- A number that stands for something. -/
def decodeCode {α : Type} (d : Decoder) (of : UInt32 → Option α) : Decoding α := do
  let code ← d.decodeUInt32
  match of code with
  | some a => pure a
  | none => StateReader.fail .error

/-- The attributes that `Header::SerializeLoad` knows. -/
def HeaderFound.attrib (d : Decoder) (name : Bytes) (x : HeaderFound) : Decoding HeaderFound :=
  if name = ascii "xid" then once x.xid d.decodeInt32 fun v => { x with xid := some v }
  else if name = ascii "msgType" then
    once x.msgType (decodeCode d messageType?) fun v => { x with msgType := some v }
  else StateReader.fail .error

def Header.serializeLoad (d : Decoder) : Decoding Header := do
  let x ← d.decodeStruct (HeaderFound.attrib d) {}
  match x.xid, x.msgType with
  | some xid, some msgType => pure { xid := xid, msgType := msgType }
  | _, _ => StateReader.fail .error

/-- The attributes of a call. -/
structure CallFound where
  service : Option Bytes := none
  method : Option Bytes := none
  params : Option Bytes := none

/-- The attributes that `CallBody::SerializeLoad` knows. -/
def CallFound.attrib (d : Decoder) (name : Bytes) (x : CallFound) : Decoding CallFound :=
  if name = ascii "service" then once x.service d.decodeString fun v => { x with service := some v }
  else if name = ascii "method" then once x.method d.decodeString fun v => { x with method := some v }
  else if name = ascii "params" then once x.params d.readRawObject fun v => { x with params := some v }
  else StateReader.fail .error

def CallBody.serializeLoad (d : Decoder) : Decoding CallBody := do
  let x ← d.decodeStruct (CallFound.attrib d) {}
  match x.service, x.method, x.params with
  | some service, some method, some params => pure { service := service, method := method, params := params }
  | _, _, _ => StateReader.fail .error

/-- The attributes of a reply. -/
structure ReplyFound where
  replyStatus : Option ReplyStatus := none
  result : Option Bytes := none

/-- The attributes that `ReplyBody::SerializeLoad` knows. -/
def ReplyFound.attrib (d : Decoder) (name : Bytes) (x : ReplyFound) : Decoding ReplyFound :=
  if name = ascii "replyStatus" then
    once x.replyStatus (decodeCode d replyStatus?) fun v => { x with replyStatus := some v }
  else if name = ascii "result" then once x.result d.readRawObject fun v => { x with result := some v }
  else StateReader.fail .error

def ReplyBody.serializeLoad (d : Decoder) : Decoding ReplyBody := do
  let x ← d.decodeStruct (ReplyFound.attrib d) {}
  match x.replyStatus, x.result with
  | some replyStatus, some result => pure { replyStatus := replyStatus, result := result }
  | _, _ => StateReader.fail .error

/-- The attributes of a message. -/
structure MessageFound where
  header : Option Header := none
  cbody : Option CallBody := none
  rbody : Option ReplyBody := none

/-- The attributes that `Message::SerializeLoad` knows. -/
def MessageFound.attrib (d : Decoder) (name : Bytes) (x : MessageFound) : Decoding MessageFound :=
  if name = ascii "header" then once x.header (Header.serializeLoad d) fun v => { x with header := some v }
  else if name = ascii "cbody" then once x.cbody (CallBody.serializeLoad d) fun v => { x with cbody := some v }
  else if name = ascii "rbody" then once x.rbody (ReplyBody.serializeLoad d) fun v => { x with rbody := some v }
  else StateReader.fail .error

/-- `Message::SerializeLoad`. Only the header has to be there; a body that is missing is the one of a new message. -/
def Message.serializeLoad (d : Decoder) : Decoding Message := do
  let x ← d.decodeStruct (MessageFound.attrib d) {}
  match x.header with
  | some header => pure { header := header, cbody := x.cbody.getD {}, rbody := x.rbody.getD {} }
  | none => StateReader.fail .error

/-! ## Every input -/

section Inputs

variable {d : Decoder} {I : DecoderState → Prop} (regular : MessageRegular d I)

include regular

section Struct

variable {φ : Type} {attrib : Bytes → φ → Decoding φ}
  (hattrib : ∀ name x, Regular .notEnoughData I 0 (attrib name x))

include hattrib

theorem regular_decodeAttrib (x : φ) : Regular .notEnoughData I 1 (d.decodeAttrib attrib x) := by
  apply regular.structAttribStart.bind_right
  intro _
  apply regular.string.bind_left
  intro name
  apply regular.structAttribMiddle.bind_left
  intro _
  apply (hattrib name x).bind_left
  intro x
  exact regular.structContinue.bind_left fun _ => pure _

theorem decodeAttrib_progress : Progress (d.decodeAttrib attrib) :=
  fun x => TurnTakes.of_takes (regular_decodeAttrib regular hattrib x).takes

theorem regular_decodeStruct (x : φ) : Regular .notEnoughData I 0 (d.decodeStruct attrib x) := by
  apply (regular.structStart.mono (Nat.zero_le 1)).bind_left
  intro _
  exact (iterate (decodeAttrib_progress regular hattrib) (regular_decodeAttrib regular hattrib) x).mono
    (Nat.zero_le 1)

end Struct

omit regular in
theorem regular_once {φ α : Type} {found : Option α} {value : Decoding α} {set : α → φ}
    (hvalue : Regular .notEnoughData I 0 value) : Regular .notEnoughData I 0 (once found value set) := by
  rw [once]
  split_ifs
  · exact fail _
  · exact hvalue.bind_left fun _ => pure _

theorem regular_code {α : Type} (of : UInt32 → Option α) : Regular .notEnoughData I 0 (decodeCode d of) := by
  apply (regular.uint32.mono (Nat.zero_le 1)).bind_left
  intro code
  cases of code with
  | none => exact fail _
  | some a => exact pure _

variable (name : Bytes)

theorem regular_headerAttrib (x : HeaderFound) : Regular .notEnoughData I 0 (HeaderFound.attrib d name x) := by
  rw [HeaderFound.attrib]
  split_ifs
  · exact regular_once (regular.int32.mono (Nat.zero_le 1))
  · exact regular_once (regular_code regular _)
  · exact fail _

theorem regular_header : Regular .notEnoughData I 0 (Header.serializeLoad d) := by
  have hattrib := regular_headerAttrib regular
  apply (regular_decodeStruct regular hattrib {}).bind_left
  intro x
  split
  · exact pure _
  · exact fail _

theorem regular_callAttrib (x : CallFound) : Regular .notEnoughData I 0 (CallFound.attrib d name x) := by
  rw [CallFound.attrib]
  split_ifs
  · exact regular_once (regular.string.mono (Nat.zero_le 1))
  · exact regular_once (regular.string.mono (Nat.zero_le 1))
  · exact regular_once (regular.rawObject.mono (Nat.zero_le 1))
  · exact fail _

theorem regular_cbody : Regular .notEnoughData I 0 (CallBody.serializeLoad d) := by
  have hattrib := regular_callAttrib regular
  apply (regular_decodeStruct regular hattrib {}).bind_left
  intro x
  split
  · exact pure _
  · exact fail _

theorem regular_replyAttrib (x : ReplyFound) : Regular .notEnoughData I 0 (ReplyFound.attrib d name x) := by
  rw [ReplyFound.attrib]
  split_ifs
  · exact regular_once (regular_code regular _)
  · exact regular_once (regular.rawObject.mono (Nat.zero_le 1))
  · exact fail _

theorem regular_rbody : Regular .notEnoughData I 0 (ReplyBody.serializeLoad d) := by
  have hattrib := regular_replyAttrib regular
  apply (regular_decodeStruct regular hattrib {}).bind_left
  intro x
  split
  · exact pure _
  · exact fail _

theorem regular_messageAttrib (x : MessageFound) : Regular .notEnoughData I 0 (MessageFound.attrib d name x) := by
  rw [MessageFound.attrib]
  split_ifs
  · exact regular_once (regular_header regular)
  · exact regular_once (regular_cbody regular)
  · exact regular_once (regular_rbody regular)
  · exact fail _

/-- Decoding a message decides for all longer inputs, and keeps the invariant of the decoder. -/
theorem regular_message : Regular .notEnoughData I 1 (Message.serializeLoad d) := by
  have hattrib := regular_messageAttrib regular
  have hstruct : Regular .notEnoughData I 1 (d.decodeStruct (MessageFound.attrib d) {}) := by
    apply regular.structStart.bind_left
    intro _
    exact (iterate (decodeAttrib_progress regular hattrib) (regular_decodeAttrib regular hattrib) {}).mono
      (Nat.zero_le 1)
  apply hstruct.bind_left
  intro x
  split
  · exact pure _
  · exact fail _

end Inputs

end Whispercast.Rpc
