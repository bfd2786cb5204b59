import Whispercast.Amf.Amf0Util

/-!
# RTMP headers

Model of `rtmp/events/rtmp_header.{h,cc}`, with the event types of `rtmp/rtmp_consts.h` and the members of
the `Coder` that a header is written and read by. A chunk begins with a header, which says in up to four
levels of detail what has changed since the last header on its channel.

The arrays of a coder are functions of the channel id. Both directions check that an id is below
`kMaxNumChannels` before they use it. `last_read_event_size_` and `last_write_event_size_` are not
initialised by the constructor, so a new coder has arbitrary sizes in them.
-/

namespace Whispercast.Rtmp

open Library Io Amf NumStreamer Reader

/-! ## Event types -/

inductive EventType where
  | chunkSize
  | bytesRead
  | ping
  | serverBandwidth
  | clientBandwidth
  | audioData
  | videoData
  | flexSharedObject
  | flexMessage
  | notify
  | sharedObject
  | invoke
  | mediaData
  deriving DecidableEq

namespace EventType

def toByte : EventType → UInt8
  | chunkSize => 0x01
  | bytesRead => 0x03
  | ping => 0x04
  | serverBandwidth => 0x05
  | clientBandwidth => 0x06
  | audioData => 0x08
  | videoData => 0x09
  | flexSharedObject => 0x10
  | flexMessage => 0x11
  | notify => 0x12
  | sharedObject => 0x13
  | invoke => 0x14
  | mediaData => 0x16

/-- The types for which `IsValidEventType` is true. -/
def ofByte (b : UInt8) : Option EventType :=
  match b.toNat with
  | 0x01 => some chunkSize
  | 0x03 => some bytesRead
  | 0x04 => some ping
  | 0x05 => some serverBandwidth
  | 0x06 => some clientBandwidth
  | 0x08 => some audioData
  | 0x09 => some videoData
  | 0x10 => some flexSharedObject
  | 0x11 => some flexMessage
  | 0x12 => some notify
  | 0x13 => some sharedObject
  | 0x14 => some invoke
  | 0x16 => some mediaData
  | _ => none

@[simp] theorem ofByte_toByte (t : EventType) : ofByte t.toByte = some t := by
  cases t <;> rfl

end EventType

/-! ## Headers and the state of a coder -/

inductive HeaderType where
  | headerNew
  | headerSameSource
  | headerTimerChange
  | headerContinue
  deriving DecidableEq

namespace HeaderType

def code : HeaderType → UInt8
  | headerNew => 0x00
  | headerSameSource => 0x01
  | headerTimerChange => 0x02
  | headerContinue => 0x03

/-- The type with a code of two bits. -/
def ofCode (c : UInt8) : HeaderType :=
  match c.toNat with
  | 0 => headerNew
  | 1 => headerSameSource
  | 2 => headerTimerChange
  | _ => headerContinue

/-- `HeaderLength`. -/
def length : HeaderType → Nat
  | headerNew => 11
  | headerSameSource => 7
  | headerTimerChange => 3
  | headerContinue => 0

end HeaderType

def kInvalidChannelId : UInt32 := 0xffffffff
def kInvalidStreamId : UInt32 := 0xffffffff
def kMaxNumChannels : UInt32 := 32
def kMaxChunkSize : UInt32 := 65536
def kDefaultChunkSize : Nat := 128

structure Header where
  channel_id_ : UInt32
  stream_id_ : UInt32
  event_type_ : EventType
  timestamp_ms_ : UInt32
  is_timestamp_relative_ : Bool

/-- `Header::Header()`. -/
def Header.new : Header := ⟨kInvalidChannelId, kInvalidStreamId, .sharedObject, 0, true⟩

/-- The members of a `Coder`. -/
structure Coder where
  memory_limit_ : Int
  last_read_event_header_ : UInt32 → Header
  last_read_event_size_ : UInt32 → UInt32
  last_write_event_header_ : UInt32 → Header
  last_write_event_size_ : UInt32 → UInt32
  partial_bodies_ : UInt32 → Bytes
  read_chunk_size_ : Nat
  write_chunk_size_ : Nat
  memory_used_ : Int

/-- `Coder::Coder`, with what the memory of the two arrays of sizes holds. -/
def Coder.new (memory_limit : Int) (read_sizes write_sizes : UInt32 → UInt32) : Coder where
  memory_limit_ := memory_limit
  last_read_event_header_ := fun _ => Header.new
  last_read_event_size_ := read_sizes
  last_write_event_header_ := fun _ => Header.new
  last_write_event_size_ := write_sizes
  partial_bodies_ := fun _ => []
  read_chunk_size_ := kDefaultChunkSize
  write_chunk_size_ := kDefaultChunkSize
  memory_used_ := 0

namespace Header

/-! ## Reading -/

/-- The loop that skips the zero padding in front of the header byte. -/
def readHeaderByte : Bytes → Except (Stop ReadStatus) UInt8 × Bytes
  | [] => (.error (.status .noData), [])
  | b :: s => if b = 0 then readHeaderByte s else (.ok b, s)

/-- The channel id: in the low bits of the header byte, or in one or two more bytes. -/
def readChannelId (header_byte : UInt8) : Decoder UInt32 :=
  if header_byte &&& 0x3f = 0 then do
    let b ← NumStreamer.readByte
    pure ((0x40 : UInt32) + b.toUInt32)
  else if header_byte &&& 0x3f = 1 then do
    let b ← NumStreamer.readByte
    let b' ← NumStreamer.readByte
    pure ((0x40 : UInt32) + b.toUInt32 + (b'.toUInt32 <<< 8))
  else pure (header_byte &&& 0x3f).toUInt32

/-- The event type, with the check by `IsValidEventType`. -/
def readEventType : Decoder EventType := do
  let b ← NumStreamer.readByte
  match EventType.ofByte b with
  | some t => pure t
  | none => failWith .corruptedData

/-- The timestamp: the extended one of 32 bits is read when the other one does not fit 24 bits. -/
def readExtended (timestamp_ms : UInt32) : Decoder UInt32 :=
  if 0xffffff ≤ timestamp_ms then NumStreamer.readUInt32 .bigEndian else pure timestamp_ms

/-- The switch of `Decode` over the header type. -/
def readFields (header_type : HeaderType) (channel_id : UInt32) (last_header : Header)
    (last_event_size : UInt32) : Decoder (Header × UInt32) :=
  match header_type with
  | .headerNew => do
      let ts24 ← NumStreamer.readUInt24 .bigEndian
      let event_size ← NumStreamer.readUInt24 .bigEndian
      let event_type ← readEventType
      let stream_id ← NumStreamer.readInt32 .lilEndian
      let timestamp_ms ← readExtended (UInt32.ofNat ts24)
      pure (⟨channel_id, stream_id.toUInt32, event_type, timestamp_ms, false⟩, UInt32.ofNat event_size)
  | .headerSameSource => do
      let ts24 ← NumStreamer.readUInt24 .bigEndian
      let event_size ← NumStreamer.readUInt24 .bigEndian
      let event_type ← readEventType
      let timestamp_ms ← readExtended (UInt32.ofNat ts24)
      pure (⟨channel_id, last_header.stream_id_, event_type, timestamp_ms, true⟩, UInt32.ofNat event_size)
  | .headerTimerChange => do
      let ts24 ← NumStreamer.readUInt24 .bigEndian
      let timestamp_ms ← readExtended (UInt32.ofNat ts24)
      pure (⟨channel_id, last_header.stream_id_, last_header.event_type_, timestamp_ms, true⟩, last_event_size)
  | .headerContinue => do
      let timestamp_ms ← readExtended last_header.timestamp_ms_
      pure (⟨channel_id, last_header.stream_id_, last_header.event_type_, timestamp_ms, true⟩, last_event_size)

/-- `Header::Decode`: the header and the size of the event. -/
def decode (coder : Coder) : Decoder (Header × UInt32) := do
  let header_byte ← readHeaderByte
  needData 2
  let channel_id ← readChannelId header_byte
  if kMaxNumChannels ≤ channel_id then failWith .tooManyChannels
  else do
    -- The fields and an extended timestamp have to be there, whether there is one or not.
    needData ((HeaderType.ofCode (header_byte >>> 6)).length + 4)
    if HeaderType.ofCode (header_byte >>> 6) ≠ .headerNew ∧
        (coder.last_read_event_header_ channel_id).channel_id_ = kInvalidChannelId then
      failWith .corruptedData
    else
      readFields (HeaderType.ofCode (header_byte >>> 6)) channel_id
        (coder.last_read_event_header_ channel_id) (coder.last_read_event_size_ channel_id)

/-! ## Writing -/

section

variable (h last : Header)

/-- How much the header is similar to the last written one. -/
def headerType (event_size last_event_size : UInt32) (force_continue : Bool) : HeaderType :=
  if force_continue then .headerContinue
  else if h.is_timestamp_relative_ ∧ h.stream_id_ = last.stream_id_ then
    if event_size = last_event_size ∧ h.event_type_ = last.event_type_ then
      if h.timestamp_ms_ = last.timestamp_ms_ then .headerContinue else .headerTimerChange
    else .headerSameSource
  else .headerNew

def ts32 (header_type : HeaderType) : UInt32 :=
  if header_type ≠ .headerNew ∧ !h.is_timestamp_relative_ then
    if last.timestamp_ms_ < h.timestamp_ms_ then h.timestamp_ms_ - last.timestamp_ms_ else 0
  else h.timestamp_ms_

/-- `is_extended_ts`: a continued header decides by the last one. -/
def isExtendedTs (header_type : HeaderType) : Bool :=
  if header_type = .headerContinue then decide (0xffffff ≤ last.timestamp_ms_)
  else decide (0xffffff ≤ h.ts32 last header_type)

/-- The header byte, and the rest of a large channel id. -/
def writeChannelId (header_type : HeaderType) : Bytes :=
  if h.channel_id_ ≤ 0x3f then
    NumStreamer.writeByte ((header_type.code <<< 6) + h.channel_id_.toUInt8)
  else if h.channel_id_ ≤ 0x40 + 0xff then
    NumStreamer.writeByte (header_type.code <<< 6) ++ NumStreamer.writeByte (h.channel_id_ - 0x40).toUInt8
  else
    NumStreamer.writeByte (header_type.code <<< 6) ++
      (NumStreamer.writeByte (h.channel_id_ - 0x40).toUInt8 ++
        NumStreamer.writeByte ((h.channel_id_ - 0x40) >>> 8).toUInt8)

end

/-- The low 24 bits of a timestamp, all ones when it is extended. -/
def ts24 (ts : UInt32) : UInt32 := if 0xffffff ≤ ts then 0xffffff else ts

/-- The extended timestamp. -/
def writeExtended (extended : Bool) (ts : UInt32) : Bytes :=
  if extended then NumStreamer.writeUInt32 ts .bigEndian else []

/-- The switch of `Encode` over the header type. -/
def writeFields (h : Header) (header_type : HeaderType) (ts event_size : UInt32) (extended : Bool) : Bytes :=
  match header_type with
  | .headerNew =>
    NumStreamer.writeUInt24 (ts24 ts).toNat .bigEndian ++
      (NumStreamer.writeUInt24 event_size.toNat .bigEndian ++
        (NumStreamer.writeByte h.event_type_.toByte ++
          (NumStreamer.writeInt32 h.stream_id_.toInt32 .lilEndian ++ writeExtended extended ts)))
  | .headerSameSource =>
    NumStreamer.writeUInt24 (ts24 ts).toNat .bigEndian ++
      (NumStreamer.writeUInt24 event_size.toNat .bigEndian ++
        (NumStreamer.writeByte h.event_type_.toByte ++ writeExtended extended ts))
  | .headerTimerChange =>
    NumStreamer.writeUInt24 (ts24 ts).toNat .bigEndian ++ writeExtended extended ts
  | .headerContinue => writeExtended extended ts

/-- `Header::Encode`: what is written, unless a `CHECK` fails. -/
def encode (coder : Coder) (h : Header) (event_size : UInt32) (force_continue : Bool) : Option Bytes :=
  if kMaxNumChannels ≤ h.channel_id_ then none
  else
    let last := coder.last_write_event_header_ h.channel_id_
    let header_type :=
      h.headerType last event_size (coder.last_write_event_size_ h.channel_id_) force_continue
    if header_type ≠ .headerNew ∧ !h.is_timestamp_relative_ ∧ last.channel_id_ = kInvalidChannelId then none
    else some (h.writeChannelId header_type ++
      h.writeFields header_type (h.ts32 last header_type) event_size (h.isExtendedTs last header_type))

/-! ## A written header is read -/

/-- The byte of a header on one of the channels that have a single byte. -/
def headerByte (header_type : HeaderType) (channel_id : UInt32) : UInt8 :=
  (header_type.code <<< 6) + channel_id.toUInt8

/-- The channels on which events are sent. -/
def IsChannel (channel_id : UInt32) : Prop := 2 ≤ channel_id ∧ channel_id < kMaxNumChannels

instance (channel_id : UInt32) : Decidable (IsChannel channel_id) := inferInstanceAs (Decidable (_ ∧ _))

variable {channel_id : UInt32}

theorem headerByte_spec (header_type : HeaderType) (h : IsChannel channel_id) : headerByte header_type channel_id ≠ 0 ∧
      HeaderType.ofCode (headerByte header_type channel_id >>> 6) = header_type ∧
      headerByte header_type channel_id &&& 0x3f ≠ 0 ∧
      headerByte header_type channel_id &&& 0x3f ≠ 1 ∧
      (headerByte header_type channel_id &&& 0x3f).toUInt32 = channel_id := by
  -- Two bits and five bits: all the cases are there to be looked at.
  have hall : ∀ n : Fin 32, 2 ≤ n.val → headerByte header_type (UInt32.ofNat n) ≠ 0 ∧
      HeaderType.ofCode (headerByte header_type (UInt32.ofNat n) >>> 6) = header_type ∧
      headerByte header_type (UInt32.ofNat n) &&& 0x3f ≠ 0 ∧
      headerByte header_type (UInt32.ofNat n) &&& 0x3f ≠ 1 ∧
      (headerByte header_type (UInt32.ofNat n) &&& 0x3f).toUInt32 = UInt32.ofNat n := by
    cases header_type <;> decide +kernel
  have hspec := hall ⟨channel_id.toNat, UInt32.lt_iff_toNat_lt.1 h.2⟩ (UInt32.le_iff_toNat_le.1 h.1)
  rwa [UInt32.ofNat_toNat] at hspec

theorem writeChannelId_eq {h : Header} (hch : IsChannel h.channel_id_) (header_type : HeaderType) :
    h.writeChannelId header_type = [headerByte header_type h.channel_id_] := by
  have hle : h.channel_id_ ≤ 0x3f := by
    rw [UInt32.le_iff_toNat_le]
    exact Nat.le_trans (Nat.le_of_lt (UInt32.lt_iff_toNat_lt.1 hch.2)) (by decide)
  rw [writeChannelId, if_pos hle]
  rfl

theorem readHeaderByte_cons {b : UInt8} (hb : b ≠ 0) (s : Bytes) : readHeaderByte (b :: s) = (.ok b, s) :=
  if_neg hb

theorem readChannelId_headerByte (header_type : HeaderType) (h : IsChannel channel_id) (s : Bytes) :
    readChannelId (headerByte header_type channel_id) s = (.ok channel_id, s) := by
  obtain ⟨-, -, hne, hne', hval⟩ := headerByte_spec header_type h
  rw [readChannelId, if_neg hne, if_neg hne', hval]
  rfl

theorem readEventType_gets (t : EventType) : Reader.Gets readEventType (NumStreamer.writeByte t.toByte) t := by
  have hmatch : Gets (match EventType.ofByte t.toByte with
      | some t => pure t
      | none => failWith .corruptedData : Decoder EventType) [] t := by
    rw [EventType.ofByte_toByte]
    exact Gets.pure t
  exact (readByte_gets t.toByte).bind hmatch

theorem ts24_lt (ts : UInt32) : (ts24 ts).toNat < 2 ^ 24 := by
  rw [ts24]
  split
  · decide
  · rename_i hlt
    exact Nat.lt_trans (UInt32.lt_iff_toNat_lt.1 (UInt32.not_le.1 hlt)) (by decide)

theorem le_ts24_iff (ts : UInt32) : (0xffffff : UInt32) ≤ ts24 ts ↔ 0xffffff ≤ ts := by
  rw [ts24]
  split
  · rename_i hle
    exact ⟨fun _ => hle, fun _ => UInt32.le_refl _⟩
  · rfl

/-- A timestamp is read back from its low bits and its extended form. -/
theorem readExtended_gets (ts : UInt32) :
    Reader.Gets (readExtended (ts24 ts)) (writeExtended (decide (0xffffff ≤ ts)) ts) ts := by
  rw [readExtended, writeExtended]
  by_cases hle : (0xffffff : UInt32) ≤ ts
  · rw [if_pos ((le_ts24_iff ts).2 hle), if_pos (decide_eq_true hle)]
    exact readUInt32_gets ts .bigEndian
  · have hts : ts24 ts = ts := if_neg hle
    rw [if_neg (fun h => hle ((le_ts24_iff ts).1 h)), if_neg (by rw [decide_eq_false hle]; decide), hts]
    exact Gets.pure ts

/-- On a continued header the extended form stands for the whole timestamp. -/
theorem readExtended_continue_gets (last ts : UInt32) :
    Reader.Gets (readExtended last) (writeExtended (decide (0xffffff ≤ last)) ts)
      (if 0xffffff ≤ last then ts else last) := by
  rw [readExtended, writeExtended]
  by_cases hle : (0xffffff : UInt32) ≤ last
  · rw [if_pos hle, if_pos hle, if_pos (decide_eq_true hle)]
    exact readUInt32_gets ts .bigEndian
  · rw [if_neg hle, if_neg hle, if_neg (by rw [decide_eq_false hle]; decide)]
    exact Gets.pure last

/-- What is read of a header that was written with the timestamp `ts` and the size `event_size`, when the
last header and size on the channel are those given. -/
def readBack (h : Header) (header_type : HeaderType) (ts event_size : UInt32) (last_header : Header)
    (last_event_size : UInt32) : Header × UInt32 :=
  match header_type with
  | .headerNew => (⟨h.channel_id_, h.stream_id_, h.event_type_, ts, false⟩, event_size)
  | .headerSameSource => (⟨h.channel_id_, last_header.stream_id_, h.event_type_, ts, true⟩, event_size)
  | .headerTimerChange =>
    (⟨h.channel_id_, last_header.stream_id_, last_header.event_type_, ts, true⟩, last_event_size)
  | .headerContinue =>
    (⟨h.channel_id_, last_header.stream_id_, last_header.event_type_,
      if 0xffffff ≤ last_header.timestamp_ms_ then ts else last_header.timestamp_ms_, true⟩, last_event_size)

/-- The decision on the extended timestamp that the reader makes, too. -/
def extendedFor (header_type : HeaderType) (ts last_timestamp_ms : UInt32) : Bool :=
  decide (0xffffff ≤ if header_type = .headerContinue then last_timestamp_ms else ts)

theorem readFields_gets (h last_header : Header) (header_type : HeaderType) (ts last_event_size : UInt32)
    {event_size : UInt32} (hsize : event_size.toNat < 2 ^ 24) :
    Reader.Gets (readFields header_type h.channel_id_ last_header last_event_size)
      (h.writeFields header_type ts event_size (extendedFor header_type ts last_header.timestamp_ms_))
      (h.readBack header_type ts event_size last_header last_event_size) := by
  have hts : Gets (readUInt24 .bigEndian : Decoder Nat) _ (ts24 ts).toNat :=
    readUInt24_gets .bigEndian (ts24_lt ts)
  have hsz : Gets (readUInt24 .bigEndian : Decoder Nat) _ event_size.toNat :=
    readUInt24_gets .bigEndian hsize
  have hty := readEventType_gets h.event_type_
  have hext := readExtended_gets ts
  rw [← UInt32.ofNat_toNat (x := ts24 ts)] at hext
  rw [readFields.eq_def, writeFields.eq_def, readBack.eq_def]
  cases header_type with
  | headerNew =>
    have hst : Gets (readInt32 .lilEndian : Decoder Int32) _ h.stream_id_.toInt32 :=
      readInt32_gets h.stream_id_.toInt32 .lilEndian
    have hlast := hext.bind_pure fun t =>
      ((⟨h.channel_id_, h.stream_id_, h.event_type_, t, false⟩ : Header),
        UInt32.ofNat event_size.toNat)
    rw [UInt32.ofNat_toNat (x := event_size)] at hlast
    refine hts.bind (hsz.bind (hty.bind (hst.bind ?_)))
    rw [UInt32.ofNat_toNat (x := event_size)]
    exact hlast
  | headerSameSource =>
    have hlast := hext.bind_pure fun t =>
      ((⟨h.channel_id_, last_header.stream_id_, h.event_type_, t, true⟩ : Header),
        UInt32.ofNat event_size.toNat)
    rw [UInt32.ofNat_toNat (x := event_size)] at hlast
    refine hts.bind (hsz.bind (hty.bind ?_))
    rw [UInt32.ofNat_toNat (x := event_size)]
    exact hlast
  | headerTimerChange =>
    refine hts.bind ?_
    exact hext.bind_pure fun t =>
      ((⟨h.channel_id_, last_header.stream_id_, last_header.event_type_, t, true⟩ : Header),
        last_event_size)
  | headerContinue =>
    exact (readExtended_continue_gets last_header.timestamp_ms_ ts).bind_pure fun t =>
      ((⟨h.channel_id_, last_header.stream_id_, last_header.event_type_, t, true⟩ : Header),
        last_event_size)

theorem decode_nil (coder : Coder) : (decode coder []).1 = .error (.status .noData) := rfl

/-- Behind the header byte, the fields are read once as many bytes are there as the longest form has. -/
theorem decode_cons {coder : Coder} {header_type : HeaderType} (hch : IsChannel channel_id)
    (hknown : header_type ≠ .headerNew →
      (coder.last_read_event_header_ channel_id).channel_id_ ≠ kInvalidChannelId) (b : Bytes) :
    decode coder (headerByte header_type channel_id :: b) =
      if b.length < header_type.length + 4 then (.error (.status .noData), b)
      else readFields header_type channel_id (coder.last_read_event_header_ channel_id)
        (coder.last_read_event_size_ channel_id) b := by
  obtain ⟨hne, hcode, -, -, -⟩ := headerByte_spec header_type hch
  rw [decode, bind_ok (readHeaderByte_cons hne b), hcode]
  by_cases hshort : b.length < 2
  · have hlt : b.length < header_type.length + 4 := by omega
    rw [needData, bind_error (need_of_lt _ hshort), if_pos hlt]
  · have hchannel : ¬ kMaxNumChannels ≤ channel_id := UInt32.not_le.2 hch.2
    have hvalid : ¬ (header_type ≠ .headerNew ∧
        (coder.last_read_event_header_ channel_id).channel_id_ = kInvalidChannelId) :=
      fun hbad => hknown hbad.1 hbad.2
    rw [needData, bind_ok (need_of_le _ (Nat.le_of_not_lt hshort)),
      bind_ok (readChannelId_headerByte header_type hch b), if_neg hchannel, if_neg hvalid, needData]
    by_cases hlt : b.length < header_type.length + 4
    · rw [bind_error (need_of_lt _ hlt), if_pos hlt]
    · rw [bind_ok (need_of_le _ (Nat.le_of_not_lt hlt)), if_neg hlt]

theorem writeExtended_length (extended : Bool) (ts : UInt32) :
    (writeExtended extended ts).length = if extended then 4 else 0 := by
  rw [writeExtended]
  split
  · exact writeNumber_length 4 _ _
  · rfl

/-- The fields have the length of their type, and four bytes more with an extended timestamp. -/
theorem writeFields_length (h : Header) (header_type : HeaderType) (ts event_size : UInt32)
    (extended : Bool) : (h.writeFields header_type ts event_size extended).length =
      header_type.length + if extended then 4 else 0 := by
  have hnum : ∀ (n : Nat) (order : ByteOrder) (v : Nat), (writeNumber n order v).length = n :=
    writeNumber_length
  have hext := writeExtended_length extended ts
  cases header_type with
  | headerNew =>
    rw [writeFields, List.length_append, List.length_append, List.length_append, List.length_append,
      writeUInt24, writeUInt24, writeInt32, hnum, hnum, hnum, hext,
      ← Nat.add_assoc, ← Nat.add_assoc, ← Nat.add_assoc]
    rfl
  | headerSameSource =>
    rw [writeFields, List.length_append, List.length_append, List.length_append, writeUInt24,
      writeUInt24, hnum, hnum, hext, ← Nat.add_assoc, ← Nat.add_assoc]
    rfl
  | headerTimerChange =>
    rw [writeFields, List.length_append, writeUInt24, hnum, hext]
    rfl
  | headerContinue =>
    rw [writeFields, hext]
    exact (Nat.zero_add _).symm

end Header

end Whispercast.Rtmp
