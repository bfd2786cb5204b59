import Whispercast.Amf.RoundTrip
import Whispercast.Rtmp.Header

/-!
# RTMP events

Model of `rtmp/events/rtmp_event.h`, `rtmp_event_ping.{h,cc}`, `rtmp_event_invoke.{h,cc}`,
`rtmp_event_notify.{h,cc}` and `rtmp_call.{h,cc}`: the classes of events, what `EncodeBody` writes and what
`DecodeBody` makes of a body for the class that `Coder::CreateEvent` chooses by the event type. An
`EventStreamMetadata` has the type of an `EventNotify`, and is read as one.
-/

namespace Whispercast.Rtmp

open Library Io Amf

/-! ## The classes of events -/

/-- `EventPing::Type`. -/
inductive PingType where
  | streamClear
  | streamClearBuffer
  | clientBuffer
  | streamReset
  | pingClient
  | pongServer
  | swfVerifyRequest
  | swfVerifyResponse
  | ping31
  | ping32

namespace PingType

def toInt16 : PingType → Int16
  | streamClear => 0
  | streamClearBuffer => 1
  | clientBuffer => 3
  | streamReset => 4
  | pingClient => 6
  | pongServer => 7
  | swfVerifyRequest => 26
  | swfVerifyResponse => 27
  | ping31 => 31
  | ping32 => 32

/-- The values for which `EventPing::IsValidType` is true. -/
def ofInt16 (type : Int16) : Option PingType :=
  match type.toUInt16.toNat with
  | 0 => some streamClear
  | 1 => some streamClearBuffer
  | 3 => some clientBuffer
  | 4 => some streamReset
  | 6 => some pingClient
  | 7 => some pongServer
  | 26 => some swfVerifyRequest
  | 27 => some swfVerifyResponse
  | 31 => some ping31
  | 32 => some ping32
  | _ => none

end PingType

structure PendingCall where
  service_name_ : Bytes
  method_name_ : Bytes
  invoke_id_ : UInt32
  connection_params_ : Option CObject
  arguments_ : List CObject

/-- The subclasses of `BulkDataEvent`. -/
inductive BulkDataEvent where
  | videoData
  | audioData
  | mediaData
  | streamMetadata
  | flexSharedObject
  | sharedObject

/-- The members of an event beside its header, by the class of the event. -/
inductive EventBody where
  | bytesRead (bytes_read_ : UInt32)
  | chunkSize (chunk_size_ : UInt32)
  | serverBW (bandwidth_ : UInt32)
  | clientBW (bandwidth_ : UInt32) (value2_ : UInt8)
  | ping (ping_type_ : PingType) (value2_ value3_ value4_ value5_ : Int32)
  | invoke (pending_call_ : PendingCall)
  | notify (name_ : Bytes) (values_ : List CObject)
  | flexMessage (unknown_ : UInt8) (data_ : List CObject)
  | bulkData (subclass : BulkDataEvent) (data_ : Bytes)

/-- The event type of a bulk event. -/
def BulkDataEvent.eventType : BulkDataEvent → EventType
  | videoData => .videoData
  | audioData => .audioData
  | mediaData => .mediaData
  | streamMetadata => .notify
  | flexSharedObject => .flexSharedObject
  | sharedObject => .sharedObject

def EventBody.eventType : EventBody → EventType
  | bytesRead _ => .bytesRead
  | chunkSize _ => .chunkSize
  | serverBW _ => .serverBandwidth
  | clientBW _ _ => .clientBandwidth
  | ping _ _ _ _ _ => .ping
  | invoke _ => .invoke
  | notify _ _ => .notify
  | flexMessage _ _ => .flexMessage
  | bulkData subclass _ => subclass.eventType

/-- `Event`. The constructor checks that the header says what the class is. -/
structure Event where
  header_ : Header
  body : EventBody
  type_eq : header_.event_type_ = body.eventType

/-! ## EncodeBody -/

namespace PendingCall

/-- `Call::Encode` with the invoke id. -/
def encode (call : PendingCall) : Bytes :=
  Amf0Util.writeString
      (if call.service_name_ = [] then call.method_name_ else call.service_name_ ++ (0x2E :: call.method_name_)) ++
    ((CObject.number (Binary64.ofInt call.invoke_id_.toNat)).encode ++
      ((call.connection_params_.getD .null).encode ++ CObject.encodeItems call.arguments_))

end PendingCall

namespace EventBody

/-- The values of a ping after the first one: each is written when it and those before it are set. -/
def encodePingValues : List Int32 → Bytes
  | [] => []
  | v :: vs => if v = -1 then [] else NumStreamer.writeInt32 v .bigEndian ++ encodePingValues vs

def encodeBody : EventBody → Bytes
  | bytesRead v => NumStreamer.writeInt32 v.toInt32 .bigEndian
  | chunkSize v => NumStreamer.writeInt32 v.toInt32 .bigEndian
  | serverBW v => NumStreamer.writeInt32 v.toInt32 .bigEndian
  | clientBW v value2 => NumStreamer.writeInt32 v.toInt32 .bigEndian ++ NumStreamer.writeByte value2
  | ping t v2 v3 v4 v5 =>
    NumStreamer.writeInt16 t.toInt16 .bigEndian ++
      (NumStreamer.writeInt32 v2 .bigEndian ++ encodePingValues [v3, v4, v5])
  | invoke call => call.encode
  | notify name values => Amf0Util.writeString name ++ CObject.encodeItems values
  | flexMessage unknown data => NumStreamer.writeByte unknown ++ CObject.encodeItems data
  | bulkData _ data => data

end EventBody

/-! ## DecodeBody -/

/-- The loop `while ( !in->IsEmpty() )` over `ReadNextObject`, by a fuel. -/
def readObjectsLoop : Nat → Bytes → Except (Stop ReadStatus) (List CObject) × Bytes
  | 0, s => (.error .fuel, s)
  | _ + 1, [] => (.ok [], [])
  | n + 1, b :: s =>
    match Amf0Util.readNextObject (b :: s) with
    | (.error e, s') => (.error e, s')
    | (.ok o, s') =>
      match readObjectsLoop n s' with
      | (.error e, s'') => (.error e, s'')
      | (.ok os, s'') => (.ok (o :: os), s'')

/-- All the objects to the end of a body. -/
def readObjects : Decoder (List CObject) := fun s => readObjectsLoop (s.length + 1) s

/-- `DecodeBody` of the events with one `uint32`. -/
def decodeUInt32 {α : Type} (make : UInt32 → α) : Decoder α := do
  needData 4
  let v ← NumStreamer.readInt32 .bigEndian
  pure (make v.toUInt32)

/-- `EventClientBW::DecodeBody`. -/
def decodeClientBW {α : Type} (make : UInt32 → UInt8 → α) : Decoder α := do
  needData 5
  let v ← NumStreamer.readInt32 .bigEndian
  let value2 ← NumStreamer.readByte
  pure (make v.toUInt32 value2)

/-- A value of a ping that may be missing. The constructor has set it to -1. -/
def readPingValues : Nat → Decoder (List Int32)
  | 0 => pure []
  | n + 1 => fun s =>
    if 4 ≤ s.length then
      (do
        let v ← NumStreamer.readInt32 .bigEndian
        let vs ← readPingValues n
        pure (v :: vs) : Decoder (List Int32)) s
    else (.ok (List.replicate (n + 1) (-1)), s)

/-- `EventPing::DecodeBody`. -/
def decodePing {α : Type} (make : PingType → Int32 → Int32 → Int32 → Int32 → α) : Decoder α := do
  needData 6
  let type ← NumStreamer.readInt16 .bigEndian
  match PingType.ofInt16 type with
  | none => failWith .notImplemented
  | some t => do
      let v2 ← NumStreamer.readInt32 .bigEndian
      let vs ← readPingValues 3
      pure (make t v2 (vs.getD 0 (-1)) (vs.getD 1 (-1)) (vs.getD 2 (-1)))

/-- The parts of an action in front of its last dot and behind it. -/
def splitLastDot : Bytes → Option (Bytes × Bytes)
  | [] => none
  | b :: s =>
    match splitLastDot s with
    | some (service, method) => some (b :: service, method)
    | none => if b = 0x2E then some ([], s) else none

/-- `CNumber::int_value` of a number. -/
def intValue : CObject → Int64
  | .number v => Binary64.toInt64 v
  | _ => 0

/-- The invoke id of a call. When there is no number, there is no id, and nothing is taken. -/
def readInvokeId : Decoder UInt32 := fun s =>
  match CObject.decodeNumber s with
  | (.ok o, s') => (.ok (intValue o).toUInt64.toUInt32, s')
  | (.error (.status _), _) => (.ok 0, s)
  | (.error e, s') => (.error e, s')

/-- `Call::Decode` of a new call. The first object is for the connection. -/
def PendingCall.decode : Decoder PendingCall := do
  let action ← CString.decode
  let invoke_id ← readInvokeId
  let objects ← readObjects
  pure {
    service_name_ := ((splitLastDot action).getD ([], action)).1
    method_name_ := ((splitLastDot action).getD ([], action)).2
    invoke_id_ := invoke_id
    connection_params_ := objects.head?
    arguments_ := objects.tail }

/-- `EventNotify::DecodeBody`. -/
def decodeNotify {α : Type} (make : Bytes → List CObject → α) : Decoder α := do
  let name ← CString.decode
  let values ← readObjects
  pure (make name values)

/-- `EventFlexMessage::DecodeBody`. -/
def decodeFlexMessage {α : Type} (make : UInt8 → List CObject → α) : Decoder α := do
  needData 1
  let unknown ← NumStreamer.readByte
  let data ← readObjects
  pure (make unknown data)

/-- `BulkDataEvent::DecodeBody`. -/
def decodeBulkData {α : Type} (make : Bytes → α) : Decoder α := fun s => (.ok (make s), [])

/-- `DecodeBody` of the event that `Coder::CreateEvent` creates for a type. -/
def decodeBody : (event_type : EventType) → Decoder {body : EventBody // body.eventType = event_type}
  | .chunkSize => decodeUInt32 fun v => ⟨.chunkSize v, rfl⟩
  | .invoke => do
      let call ← PendingCall.decode
      pure ⟨.invoke call, rfl⟩
  | .notify => decodeNotify fun name values => ⟨.notify name values, rfl⟩
  | .ping => decodePing fun t v2 v3 v4 v5 => ⟨.ping t v2 v3 v4 v5, rfl⟩
  | .bytesRead => decodeUInt32 fun v => ⟨.bytesRead v, rfl⟩
  | .audioData => decodeBulkData fun data => ⟨.bulkData .audioData data, rfl⟩
  | .videoData => decodeBulkData fun data => ⟨.bulkData .videoData data, rfl⟩
  | .flexSharedObject => decodeBulkData fun data => ⟨.bulkData .flexSharedObject data, rfl⟩
  | .sharedObject => decodeBulkData fun data => ⟨.bulkData .sharedObject data, rfl⟩
  | .serverBandwidth => decodeUInt32 fun v => ⟨.serverBW v, rfl⟩
  | .clientBandwidth => decodeClientBW fun v value2 => ⟨.clientBW v value2, rfl⟩
  | .flexMessage => decodeFlexMessage fun unknown data => ⟨.flexMessage unknown data, rfl⟩
  | .mediaData => decodeBulkData fun data => ⟨.bulkData .mediaData data, rfl⟩

end Whispercast.Rtmp
