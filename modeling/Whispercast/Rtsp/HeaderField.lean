import Whispercast.Library.Calendar
import Whispercast.Library.Lines
import Whispercast.Rtsp.Consts

/-!
# RTSP header fields

Model of `rtsp_header_field.cc`: the classes of header fields, what they write and what they read. What a field uses
of the machine it runs on (the URL parser, the clock and the time zone) is a parameter, `Platform`.
-/

namespace Whispercast.Rtsp

open Io Library
open Http (ascii cStr intToString toInt32 toUint32)

/-- What the decoder calls of the machine. -/
structure Platform where
  /-- The `spec` of `URL(s)`, when it is valid and its scheme is `rtsp`. -/
  rtspUrl : Bytes → Option Bytes
  /-- `Date::Now`. -/
  now : Int
  /-- `mktime`: when a local clock shows a time, which is given as if it were UTC; -1 is an error. -/
  mktime : Int → Int
  /-- `tm_gmtoff` of the local time. -/
  gmtoff : Int → Int

/-! ## Strings -/

/-- `strutil::SplitString` with a separator of one character: the parts that are not empty. -/
def splitString (sep : UInt8) (s : Bytes) : List Bytes :=
  ((Lines.split sep s).1 ++ [(Lines.split sep s).2]).filter fun part => part ≠ []

/-- `strutil::SplitFirst` on a `const char*`. -/
def splitFirst (sep : UInt8) (s : Bytes) : Bytes × Bytes :=
  ((cStr s).takeWhile (· ≠ sep), ((cStr s).dropWhile (· ≠ sep)).drop 1)

/-- The number of a character in `s[i] - '0'`; a `char` has a sign. -/
def charDigit (c : UInt8) : Int := (c.toNat : Int).bmod 256 - 48

/-- `HeaderField::ParseInt`: what is no digit counts as one, too. -/
def parseInt (s : Bytes) : Int := toInt32 ((cStr s).foldl (fun a c => a * 10 + charDigit c) 0)

/-- `"%02d"` of a number that is not negative. -/
def twoDigits (n : Int) : Bytes := if n < 10 then 48 :: intToString n else intToString n

/-! ## Numbers -/

/-- `TNumericHeaderField::Encode`. -/
def encodeNumeric (value : Int) : Bytes := intToString value

/-! ## Dates -/

/-- `sz_month`. -/
def monthNames : List Bytes :=
  [ascii "Jan", ascii "Feb", ascii "Mar", ascii "Apr", ascii "May", ascii "Jun", ascii "Jul", ascii "Aug",
    ascii "Sept", ascii "Oct", ascii "Nov", ascii "Dec"]

/-- The seconds of a time in milliseconds; the division is that of C. -/
def secondsOf (time : Int) : Int := time.tdiv 1000

/-- `TDateHeaderField::Encode`; the `CHECK`s on the month hold (`Calendar.civil_bounds`). -/
def encodeDate (time : Int) : Bytes :=
  let date := Calendar.civil (secondsOf time / 86400)
  let second := secondsOf time % 86400
  intToString date.day ++ 32 :: (monthNames.getD date.month.toNat [] ++ 32 :: (intToString date.year ++ 32 ::
    (twoDigits (second / 3600) ++ 58 :: (twoDigits (second / 60 % 60) ++ 58 :: (twoDigits (second % 60) ++
      ascii " GMT")))))

/-- `Date::Set` without milliseconds: the new time. -/
def setDate (pf : Platform) (year month day hour minute second : Int) (isGmt : Bool) : Option Int :=
  if year < 1900 ∨ (month > 11 ∨ month < 0) ∨ (day > 31 ∨ day < 1) ∨ (hour > 23 ∨ hour < 0) ∨
      (minute > 59 ∨ minute < 0) ∨ (second > 59 ∨ second < 0) then none
  else
    let tt := pf.mktime (Calendar.days ⟨year, month, day⟩ * 86400 + hour * 3600 + minute * 60 + second)
    if tt = -1 then none else some ((if isGmt then tt + pf.gmtoff tt else tt) * 1000)

def atoi (s : Bytes) : Int := toInt32 (Numeral.strtol 10 s).1

local instance bytes_lawfulBEq : LawfulBEq Bytes := inferInstance

/-- `TDateHeaderField::Decode`. The field was made with the present time, and keeps it when `Set` fails. -/
def decodeDate (pf : Platform) (text : Bytes) : Option Int :=
  match splitString 32 ((cStr text).dropWhile fun c => !Numeral.isDigit 10 c) with
  | [day, month, year, time, zone] =>
    if month ∈ monthNames then
      if time.length = 8 then
        some ((setDate pf (atoi year) (monthNames.idxOf month) (atoi day) (parseInt (time.take 2))
          (parseInt ((time.drop 3).take 2)) (parseInt ((time.drop 6).take 2)) (zone = ascii "GMT")).getD pf.now)
      else none
    else none
  | _ => none

/-! ## Transport -/

inductive TransmissionType where
  | unicast | multicast
  deriving DecidableEq

/-- `TransportHeaderField`; an `OptionalAttribute` is an `Option`. -/
structure TransportHeaderField where
  transport_ : Bytes := []
  profile_ : Bytes := []
  lower_transport_ : Option Bytes := none
  transmission_type_ : TransmissionType := .multicast
  destination_ : Option Bytes := none
  source_ : Option Bytes := none
  layers_ : Option Int := none
  mode_ : Option Bytes := none
  append_ : Bool := false
  interleaved_ : Option (Int × Int) := none
  ttl_ : Option Int := none
  port_ : Option (Int × Int) := none
  client_port_ : Option (Int × Int) := none
  server_port_ : Option (Int × Int) := none
  ssrc_ : Option Bytes := none
  deriving DecidableEq

namespace TransportHeaderField

def parseRange (s : Bytes) : Int × Int :=
  if 45 ∈ s then (parseInt (s.takeWhile (· ≠ 45)), parseInt ((s.dropWhile (· ≠ 45)).drop 1)) else (0, 0)

def unquote (s : Bytes) : Bytes :=
  if s.head? ≠ some 34 then s
  else if s.getLast? ≠ some 34 then s.drop 1
  else (s.drop 1).take (s.length - 2)

def strRange (r : Int × Int) : Bytes := intToString r.1 ++ 45 :: intToString r.2

/-- A parameter that is written when it is set. -/
def param {α : Type} (name : Bytes) (text : α → Bytes) (value : Option α) : List Bytes :=
  (value.map fun v => name ++ 61 :: text v).toList

/-- The name of the transmission type. -/
def transmissionName : TransmissionType → Bytes
  | .multicast => ascii "multicast"
  | .unicast => ascii "unicast"

/-- The text in quotation marks. -/
def quoted (s : Bytes) : Bytes := 34 :: (s ++ [34])

/-- The parameters that `Encode` writes, each behind a semicolon. -/
def params (t : TransportHeaderField) : List Bytes :=
  transmissionName t.transmission_type_ ::
    (param (ascii "destination") id t.destination_ ++ (param (ascii "source") id t.source_ ++
    (param (ascii "layers") intToString t.layers_ ++ (param (ascii "mode") quoted t.mode_ ++
    ((if t.append_ then [ascii "append"] else []) ++ (param (ascii "interleaved") strRange t.interleaved_ ++
    (param (ascii "ttl") intToString t.ttl_ ++ (param (ascii "port") strRange t.port_ ++
    (param (ascii "client_port") strRange t.client_port_ ++ (param (ascii "server_port") strRange t.server_port_ ++
    param (ascii "ssrc") id t.ssrc_))))))))))

/-- What `Encode` writes in front of the parameters. -/
def spec (t : TransportHeaderField) : Bytes :=
  t.transport_ ++ 47 :: (t.profile_ ++ (t.lower_transport_.map fun l => 47 :: l).getD [])

def encode (t : TransportHeaderField) : Bytes := t.spec ++ t.params.flatMap fun p => 59 :: p

/-- The parameters without a value. -/
def setFlag (t : TransportHeaderField) (name : Bytes) : TransportHeaderField :=
  if name = ascii "unicast" then { t with transmission_type_ := .unicast }
  else if name = ascii "multicast" then { t with transmission_type_ := .multicast }
  else if name = ascii "append" then { t with append_ := true }
  else t

/-- The parameters with a value. -/
def setParam (t : TransportHeaderField) (name value : Bytes) : TransportHeaderField :=
  if name = ascii "destination" then { t with destination_ := some value }
  else if name = ascii "source" then { t with source_ := some value }
  else if name = ascii "layers" then { t with layers_ := some (parseInt value) }
  else if name = ascii "mode" then { t with mode_ := some (unquote value) }
  else if name = ascii "interleaved" then { t with interleaved_ := some (parseRange value) }
  else if name = ascii "ttl" then { t with ttl_ := some (parseInt value) }
  else if name = ascii "port" then { t with port_ := some (parseRange value) }
  else if name = ascii "client_port" then { t with client_port_ := some (parseRange value) }
  else if name = ascii "server_port" then { t with server_port_ := some (parseRange value) }
  else if name = ascii "ssrc" then { t with ssrc_ := some value }
  else t

/-- The loop of `Decode` over the parameters; an unknown one is ignored. -/
def decodeParam (t : TransportHeaderField) (text : Bytes) : TransportHeaderField :=
  let p := splitFirst 61 text
  if p.2 = [] then t.setFlag p.1 else t.setParam p.1 p.2

/-- `Decode`, into a field that was just made. -/
def decode (text : Bytes) : Option TransportHeaderField :=
  match splitString 59 text with
  | [] => none
  | spec :: params =>
    match splitString 47 spec with
    | [transport, profile] => some (params.foldl decodeParam { transport_ := transport, profile_ := profile })
    | [transport, profile, lower] =>
      some (params.foldl decodeParam
        { transport_ := transport, profile_ := profile, lower_transport_ := some lower })
    | _ => none

end TransportHeaderField

/-! ## Session -/

/-- `SessionHeaderField`; the timeout is a `uint32`. -/
structure SessionHeaderField where
  id_ : Bytes
  timeout_ : Nat
  deriving DecidableEq

namespace SessionHeaderField

/-- `Encode`; the timeout is printed as an `int`. -/
def encode (s : SessionHeaderField) : Bytes :=
  if s.timeout_ ≠ 0 then s.id_ ++ (ascii ";timeout=" ++ intToString (toInt32 s.timeout_)) else s.id_

/-- The loop of `Decode` over the parts, with what was found so far. -/
def decodeParts : List Bytes → Option Bytes → Option Nat → Option (Option Bytes × Option Nat)
  | [], id, timeout => some (id, timeout)
  | part :: parts, id, timeout =>
    if (ascii "timeout=").isPrefixOf part then
      if timeout.isSome then none
      else decodeParts parts id (some (toUint32 (Numeral.strtol 10 (part.drop 8)).1).toNat)
    else if id.isSome then none
    else decodeParts parts (some part) timeout

/-- `Decode`, into a field that was just made. -/
def decode (text : Bytes) : Option SessionHeaderField :=
  match decodeParts (splitString 59 text) none none with
  | some (some id, timeout) => some ⟨id, timeout.getD 0⟩
  | _ => none

end SessionHeaderField

/-! ## Fields -/

/-- `HeaderField` with its subclasses. -/
inductive HeaderField where
  | numeric (type : NumericType) (value_ : Int)
  | date (type : DateType) (time_ : Int)
  | string (type : StringType) (value_ : Bytes)
  | session (field : SessionHeaderField)
  | transport (field : TransportHeaderField)
  | custom (name_ value_ : Bytes)
  deriving DecidableEq

namespace HeaderField

def name : HeaderField → Bytes
  | .numeric type _ => (FieldType.numeric type).enc
  | .date type _ => (FieldType.date type).enc
  | .string type _ => (FieldType.string type).enc
  | .session _ => FieldType.session.enc
  | .transport _ => FieldType.transport.enc
  | .custom name_ _ => name_

def strEncode : HeaderField → Bytes
  | .numeric _ value_ => encodeNumeric value_
  | .date _ time_ => encodeDate time_
  | .string _ value_ => value_
  | .session field => field.encode
  | .transport field => field.encode
  | .custom _ value_ => value_

/-- A new field of the type that the name has, after `Decode`; `none` when `Decode` fails. -/
def decode (pf : Platform) (key value : Bytes) : Option HeaderField :=
  match FieldType.dec key with
  | .numeric type => some (.numeric type (parseInt value))
  | .date type => (decodeDate pf value).map (.date type)
  | .string type => some (.string type value)
  | .session => (SessionHeaderField.decode value).map .session
  | .transport => (TransportHeaderField.decode value).map .transport
  | .custom => some (.custom key value)

end HeaderField

end Whispercast.Rtsp
