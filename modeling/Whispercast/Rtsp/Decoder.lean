import Whispercast.Library.Session
import Whispercast.Http.HeaderRead
import Whispercast.Rtsp.Message

/-!
# The RTSP decoder

Model of `rtsp_decoder.cc`. A call of `Decode` takes what it can from the stream and leaves the rest to the next call; the
message that is being read, the phase of reading it and the length of its body are the state in between.
-/

namespace Whispercast.Rtsp

open Io Library
open Http (ascii cStr readLine)

/-! ## Lines -/

/-- `ParseString`: what is in front of the separator, and what is behind it. -/
def parseString (sep : UInt8) (s : Bytes) : Option (Bytes × Bytes) :=
  if sep ∈ s then some (s.takeWhile (· ≠ sep), (s.dropWhile (· ≠ sep)).drop 1) else none

/-- `ParseInteger`, into a `uint32`. -/
def parseInteger (s : Bytes) : Option (Nat × Bytes) :=
  let digits := s.takeWhile (Numeral.isDigit 10)
  if digits = [] then none
  else some (Numeral.value 10 digits % 2 ^ 32, s.dropWhile (Numeral.isDigit 10))

def parseExpected (expected s : Bytes) : Option Bytes :=
  if expected.isPrefixOf s then some (s.drop expected.length) else none

def parseBlanks (s : Bytes) : Bytes := s.dropWhile (· = 32)

/-- `RTSP/`, and a version. What the version is matters to the log only. -/
def parseVersion (s : Bytes) : Option Bytes := do
  let s ← parseExpected (ascii "RTSP/") s
  let (_, s) ← parseInteger s
  let s ← parseExpected (ascii ".") s
  let (_, s) ← parseInteger s
  pure s

/-- The URL of a request line; `some none` is the `*`. -/
def parseUrl (pf : Platform) (text : Bytes) : Option (Option Bytes) :=
  if text.head? = some 42 then some none
  else if (ascii "://") <:+: text then (pf.rtspUrl text).map some
  else (pf.rtspUrl (ascii "rtsp://127.0.0.1/" ++ text)).map some

def parseRequestLine (pf : Platform) (line : Bytes) : Option (RequestMethod × Option Bytes) := do
  let (method, s) ← parseString 32 (cStr line)
  let (url, s) ← parseString 32 s
  let s ← parseVersion s
  if s ≠ [] then none
  else
    let met ← RequestMethod.dec method
    let url ← parseUrl pf url
    pure (met, url)

/-- `ParseResponseLine`; the description is not used. -/
def parseResponseLine (line : Bytes) : Option StatusCode := do
  let s ← parseVersion (cStr line)
  let (status, _) ← parseInteger (parseBlanks s)
  StatusCode.dec status

/-- Key and value of a header line. A value that is missing becomes the NUL at the end of the line. -/
def splitLine (line : Bytes) : Option (Bytes × Bytes) :=
  let s := line.dropWhile (· = 32)
  let key := s.takeWhile fun c => c ≠ 58 && c ≠ 0
  if (s.drop key.length).head? ≠ some 58 || key = [] then none
  else
    let value := (s.drop (key.length + 1)).dropWhile (· = 32)
    some (key.rdropWhile (· = 32), if value = [] then [0] else value.rdropWhile (· = 32))

/-! ## The decoder -/

inductive ParserState where
  | idle | header | body
  deriving DecidableEq

structure Decoder where
  msg_ : Option Message
  content_length_ : Nat
  state_ : ParserState

namespace Decoder

/-- The decoder after its construction. -/
def new : Decoder := ⟨none, 0, .idle⟩

/-- What ends a call without a message, apart from `DECODE_NO_DATA`. -/
inductive Failure where
  /-- `DECODE_ERROR`. -/
  | error
  /-- A `CHECK` fails. -/
  | check

/-- How a part of `Decode` ends. -/
inductive Ending where
  | success | noData
  | failure (e : Failure)

/-- Add the field of a header line to the header. -/
def decodeField (pf : Platform) (fields : FieldMap) (line : Bytes) : Option FieldMap := do
  let (key, value) ← splitLine line
  let field ← HeaderField.decode pf key value
  if (fields.getField field.name).isSome then none else fields.addField field

/-- `DecodeHeader`: the lines up to the empty one. Every turn takes a line, so the length of the stream bounds the
turns. -/
def decodeHeaderLoop (pf : Platform) : Nat → FieldMap → Bytes → Ending × FieldMap × Bytes
  | 0, fields, io => (.noData, fields, io)
  | n + 1, fields, io =>
    match readLine io with
    | (none, _) => (.noData, fields, io)
    | (some line, io') =>
      if line = [] then (.success, fields, io')
      else match decodeField pf fields line with
        | none => (.failure .error, fields, io')
        | some fields' => decodeHeaderLoop pf n fields' io'

def decodeHeader (pf : Platform) (fields : FieldMap) (io : Bytes) : Ending × FieldMap × Bytes :=
  decodeHeaderLoop pf (io.length + 1) fields io

/-- The body part of `DecodeHeaderAndBody`; `AppendStream` takes an `int32`, and all for a negative one. -/
def decodeBody (contentLength : Nat) (data io : Bytes) : Ending × Bytes × Bytes :=
  if data.length ≥ contentLength then (.failure .check, data, io)
  else
    let missing := contentLength - data.length
    let n := if missing < 2 ^ 31 then min missing io.length else io.length
    let data' := data ++ io.take n
    if data'.length > contentLength then (.failure .check, data', io.drop n)
    else if data'.length = contentLength then (.success, data', io.drop n)
    else (.noData, data', io.drop n)

/-- What `DecodeHeaderAndBody` changes. -/
structure Reading where
  fields : FieldMap
  data : Bytes
  content_length_ : Nat
  state_ : ParserState

/-- `DecodeHeaderAndBody` in the state `PARSING_BODY`. -/
def bodyPhase (r : Reading) (io : Bytes) : Ending × Reading × Bytes :=
  match decodeBody r.content_length_ r.data io with
  | (.success, data, io') => (.success, { r with data := data, state_ := .idle }, io')
  | (ending, data, io') => (ending, { r with data := data }, io')

/-- What follows the header: it must have a `CSeq`, and the body begins when there is one. -/
def headerEnd (r : Reading) (io : Bytes) : Ending × Reading × Bytes :=
  if (r.fields.getField (FieldType.numeric .cSeq).enc).isNone then (.failure .error, r, io)
  else
    let length := (r.fields.contentLength.map fun value => (value % 2 ^ 32).toNat).getD r.content_length_
    if length = 0 then (.success, { r with content_length_ := length, state_ := .idle }, io)
    else bodyPhase { r with content_length_ := length, state_ := .body } io

/-- `DecodeHeaderAndBody`; it is fatal to come here in the state `PARSING_IDLE`. -/
def decodeHeaderAndBody (pf : Platform) (r : Reading) (io : Bytes) : Ending × Reading × Bytes :=
  match r.state_ with
  | .idle => (.failure .check, r, io)
  | .header =>
    match decodeHeader pf r.fields io with
    | (.success, fields, io') => headerEnd { r with fields := fields } io'
    | (ending, fields, io') => (ending, { r with fields := fields }, io')
  | .body => bodyPhase r io

/-- The end of `Decode` for a request or a response: the message is handed over when it is complete. -/
def finish (message : FieldMap → Bytes → Message) :
    Ending × Reading × Bytes → Outcome Decoder UInt8 Message Failure
  | (.success, r, io) => .out (message r.fields r.data) ⟨none, r.content_length_, r.state_⟩ io
  | (.noData, r, io) => .more ⟨some (message r.fields r.data), r.content_length_, r.state_⟩ io
  | (.failure e, r, io) => .fail e ⟨some (message r.fields r.data), r.content_length_, r.state_⟩ io

/-- `DecodeRequest` and `DecodeResponse`, which differ in the first line: what it says is `key`. -/
def decodeHeaded {κ : Type} (pf : Platform) (parseLine : Bytes → Option κ) (message : κ → FieldMap → Bytes → Message)
    (d : Decoder) (key : κ) (fields : FieldMap) (data io : Bytes) : Outcome Decoder UInt8 Message Failure :=
  if d.state_ = .idle then
    match readLine io with
    | (none, _) => .more { d with msg_ := some (message key fields data) } io
    | (some line, io') =>
      match parseLine line with
      | none => .fail .error { d with msg_ := some (message key fields data) } io'
      | some key' =>
        finish (message key') (decodeHeaderAndBody pf ⟨fields, data, d.content_length_, .header⟩ io')
  else finish (message key) (decodeHeaderAndBody pf ⟨fields, data, d.content_length_, d.state_⟩ io)

def decodeRequest (pf : Platform) (d : Decoder) (header_ : RequestHeader) (data_ io : Bytes) :
    Outcome Decoder UInt8 Message Failure :=
  decodeHeaded pf (parseRequestLine pf) (fun key fields data => .request ⟨key.1, key.2, fields⟩ data) d
    (header_.method_, header_.url_) header_.fields_ data_ io

def decodeResponse (pf : Platform) (d : Decoder) (header_ : ResponseHeader) (data_ io : Bytes) :
    Outcome Decoder UInt8 Message Failure :=
  decodeHeaded pf parseResponseLine (fun key fields data => .response ⟨key, fields⟩ data) d
    header_.status_ header_.fields_ data_ io

/-- `DecodeInterleavedFrame`. When the data is not there, the header is gone all the same: the next call takes the
bytes behind it for a header. -/
def decodeInterleavedFrame (d : Decoder) (channel_ : UInt8) (data_ : Bytes) :
    Bytes → Outcome Decoder UInt8 Message Failure
  | _ :: channel :: hi :: lo :: io =>
    let size := NumStreamer.numberOf .bigEndian [hi, lo]
    if io.length < size then .more { d with msg_ := some (.interleavedFrame channel data_) } io
    else .out (.interleavedFrame channel (data_ ++ io.take size)) { d with msg_ := none } (io.drop size)
  | io => .more { d with msg_ := some (.interleavedFrame channel_ data_) } io

/-- The `switch` of `Decode`. -/
def decodeMessage (pf : Platform) (d : Decoder) (message : Message) (io : Bytes) :
    Outcome Decoder UInt8 Message Failure :=
  match message with
  | .request header_ data_ => decodeRequest pf d header_ data_ io
  | .response header_ data_ => decodeResponse pf d header_ data_ io
  | .interleavedFrame channel_ data_ => decodeInterleavedFrame d channel_ data_ io

/-- The message that is begun, by the first four bytes. -/
def newMessage (io : Bytes) : Message :=
  if io.head? = some 36 then .interleavedFrame 0 []
  else if io.take 4 = ascii "RTSP" then .response ⟨.ok, .empty⟩ []
  else .request ⟨.describe, none, .empty⟩ []

def decode (pf : Platform) (d : Decoder) (io : Bytes) : Outcome Decoder UInt8 Message Failure :=
  match d.msg_ with
  | none =>
    if io.length < 4 then .more d io
    else decodeMessage pf ⟨none, 0, .idle⟩ (newMessage io) io
  | some message => decodeMessage pf d message io

end Decoder

end Whispercast.Rtsp
