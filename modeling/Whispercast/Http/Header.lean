import Whispercast.Library.AssocList
import Whispercast.Library.Lines
import Whispercast.Http.Consts

/-!
# HTTP headers

`http::Header` with the code that fills, writes and parses it. A stream is the list of its unread bytes.
Parsing reads line after line, keeps the field it is in the middle of in two strings, and remembers how far
it is in `bytesParsed`, which is an `int`. A `CHECK` that fails aborts the process, which is `none`.
-/

namespace Whispercast.Http

open Io Library

/-- `ReadLine`: the line without the CR and LF at its end, and the stream behind it. -/
def readLine (io : Bytes) : Option Bytes × Bytes :=
  ((lineOf io).map MemoryStream.strTrimCRLF, io.drop ((lineOf io).getD []).length)

/-- `Header::ParseError`, from harmless to severe. -/
inductive ParseError where
  | init | ok | noData | badFieldSpec | noField | noStatusReason | noRequestVersion | invalidStatusCode
  | noStatusCode | noRequestUri
  deriving DecidableEq

namespace ParseError

/-- The value of the enumerator. -/
def toNat : ParseError → Nat
  | .init => 0
  | .ok => 1
  | .noData => 2
  | .badFieldSpec => 3
  | .noField => 4
  | .noStatusReason => 5
  | .noRequestVersion => 6
  | .invalidStatusCode => 7
  | .noStatusCode => 8
  | .noRequestUri => 9

/-- `max(error, worst)`. -/
def max (error worst : ParseError) : ParseError := if error.toNat < worst.toNat then worst else error

end ParseError

inductive FirstLineType where
  | unknownLine | requestLine | statusLine | errorLine
  deriving DecidableEq

structure Header where
  isStrict : Bool
  bytesParsed : Int
  parseError : ParseError
  lastParseError : ParseError
  crtParsingFieldName : Bytes
  crtParsingFieldContent : Bytes
  httpVersion : HttpVersion
  method : HttpMethod
  statusCode : HttpReturnCode
  uri : Bytes
  reason : Bytes
  firstLineType : FirstLineType
  fields : List (Bytes × Bytes)
  verbatim : Bytes

namespace Header

/-- A header after `Clear()`. -/
def cleared (isStrict : Bool) : Header where
  isStrict := isStrict
  bytesParsed := 0
  parseError := .init
  lastParseError := .init
  crtParsingFieldName := []
  crtParsingFieldContent := []
  httpVersion := .unknown
  method := .unknown
  statusCode := .unknown
  uri := []
  reason := []
  firstLineType := .unknownLine
  fields := []
  verbatim := []

def clear (h : Header) : Header := cleared h.isStrict

def setParseError (h : Header) (error : ParseError) : Header :=
  { h with lastParseError := error, parseError := error.max h.parseError }

/-! ## Fields -/

/-- The capitals and hyphens of a normal name; `shouldUpcase` at the beginning of a word. -/
def capitalize : Bool → Bytes → Bytes
  | _, [] => []
  | shouldUpcase, c :: s =>
    if isAlpha c then (if shouldUpcase then toUpper c else toLower c) :: capitalize false s
    else (if isWhiteSpace c then 45 else c) :: capitalize true s

/-- `NormalizeFieldName`. What is behind a NUL stays as it is. -/
def normalizeFieldName (name : Bytes) : Bytes :=
  let s := (name.rdropWhile isLwfChar).dropWhile isLwfChar
  capitalize true (cStr s) ++ s.dropWhile (· ≠ 0)

def isValidFieldName : Bytes → Bool
  | [] => false
  | c :: s => isTokenChar c && s.all fun c => isTokenChar c || isWhiteSpace c

def isValidFieldContent (content : Bytes) : Bool := content.all fun c => !isCtlChar c || isLwfChar c

def findField (h : Header) (name : Bytes) : Option Bytes := h.fields.lookup name

/-- `AddField` on the map of fields; `none` when the field is refused. -/
def addFieldTo (fields : List (Bytes × Bytes)) (name content : Bytes) (replace asIs : Bool) :
    Option (List (Bytes × Bytes)) :=
  if !isValidFieldName name || !isValidFieldContent content then none
  else
    let normalizedName := if asIs then normalizeFieldName name else name
    match fields.lookup normalizedName with
    | none => some (AssocList.setSorted normalizedName content fields)
    | some old =>
      if replace || old.isEmpty then some (AssocList.setSorted normalizedName content fields)
      else some (AssocList.setSorted normalizedName (old ++ ascii ", " ++ content) fields)

def addField (h : Header) (name content : Bytes) (replace asIs : Bool) : Header :=
  { h with fields := (addFieldTo h.fields name content replace asIs).getD h.fields }

/-- `ClearField(const string&)`, which takes the name as it is given. -/
def clearField (h : Header) (name : Bytes) : Header :=
  { h with fields := h.fields.filter fun e => e.1 ≠ name }

def copyHeaderFields (h src : Header) (replace : Bool) : Header :=
  src.fields.foldl (fun h e => h.addField e.1 e.2 replace false) h

def isChunkedTransfer (h : Header) : Bool :=
  strIStartsWith (strTrim ((h.findField kHeaderTransferEncoding).getD [])) (ascii "chunked")

def setChunkedTransfer (h : Header) (isChunked : Bool) : Header :=
  if isChunked then h.addField kHeaderTransferEncoding (ascii "chunked") true false
  else h.clearField kHeaderTransferEncoding

def isGzipContentEncoding (h : Header) : Bool :=
  strIStartsWith (strTrim ((h.findField kHeaderContentEncoding).getD [])) (ascii "gzip")

def isDeflateContentEncoding (h : Header) : Bool :=
  strIStartsWith (strTrim ((h.findField kHeaderContentEncoding).getD [])) (ascii "deflate")

def kMaxInt64 : Int := 2 ^ 63 - 1

def defaultBodyLen (h : Header) : Int :=
  match h.firstLineType with
  | .requestLine => if h.method = .put ∨ h.method = .post then kMaxInt64 else 0
  | .statusLine => kMaxInt64
  | _ => 0

/-! ## Writing -/

def composeFirstLine (h : Header) : Bytes :=
  match h.firstLineType with
  | .requestLine =>
    getHttpMethodName h.method ++ ascii " " ++ h.uri ++ ascii " " ++ getHttpVersionName h.httpVersion ++ crlf
  | .statusLine =>
    getHttpVersionName h.httpVersion ++ (ascii " " ++ intToString h.statusCode.toInt ++ ascii " ") ++
      h.reason ++ crlf
  | .unknownLine => ascii "--- 0 UNKNOWN" ++ crlf
  | .errorLine => ascii "--- 3 UNKNOWN" ++ crlf

/-- A field as it is written. -/
def fieldLine (e : Bytes × Bytes) : Bytes := e.1 ++ ascii ": " ++ e.2 ++ crlf

/-- `AppendToStream`: what it writes. -/
def toBytes (h : Header) : Bytes :=
  h.composeFirstLine ++ h.fields.flatMap fieldLine ++ h.verbatim ++ crlf

/-! ## Parsing -/

def parseStatusCode (h : Header) (statusCodeStr : Bytes) : Header :=
  let (n, errno) := Numeral.strtol 10 statusCodeStr
  if errno then { h.setParseError .invalidStatusCode with statusCode := .unknown }
  else { h with statusCode := .ofInt (toInt32 n) }

/-- `bytes_parsed_ += size`, in an `int`. -/
def addBytesParsed (h : Header) (size : Nat) : Header :=
  { h with bytesParsed := toInt32 (h.bytesParsed + size) }

/-- `ReadFirstLine` on the line it has read. A blank is the byte 32. -/
def parseFirstLine (h : Header) (expected : FirstLineType) (line : Bytes) : Header :=
  let first := line.takeWhile (· ≠ 32)
  if 32 ∉ line then
    let h := { h with firstLineType := .errorLine }
    if expected = .requestLine then { h.setParseError .noRequestUri with method := getHttpMethod line }
    else { h.setParseError .noStatusCode with httpVersion := getHttpVersion line }
  else
    let h :=
      if expected = .requestLine then { h with method := getHttpMethod first }
      else { h with httpVersion := getHttpVersion first }
    let line := (line.dropWhile (· ≠ 32)).dropWhile (· = 32)
    if 32 ∉ line then
      let h := { h with firstLineType := .errorLine }
      if expected = .requestLine then { h.setParseError .noRequestVersion with uri := line }
      else
        -- The reason may be missing up to version 1.0.
        let h :=
          if h.httpVersion.toNat ≤ HttpVersion.v1_0.toNat then { h with firstLineType := expected }
          else h.setParseError .noStatusReason
        h.parseStatusCode line
    else
      let second := line.takeWhile (· ≠ 32)
      let line := (line.dropWhile (· ≠ 32)).dropWhile (· = 32)
      let h := if expected = .requestLine then { h with uri := second } else h.parseStatusCode second
      let h :=
        if expected = .requestLine then { h with httpVersion := getHttpVersion line }
        else { h with reason := line }
      { h with firstLineType := expected }

def readFirstLine (h : Header) (io : Bytes) (expected : FirstLineType) : Bool × Header × Bytes :=
  match readLine io with
  | (none, io) => (false, h.setParseError .noData, io)
  | (some line, io) => (true, (h.addBytesParsed line.length).parseFirstLine expected line, io)

/-- `AddCrtParsingData`: the answer, and the header. -/
def addCrtParsingData (h : Header) : Bool × Header :=
  if h.crtParsingFieldName = [] then (true, { h with crtParsingFieldContent := [] })
  else
    let ret := isValidFieldName h.crtParsingFieldName && isValidFieldContent h.crtParsingFieldContent
    let h := if ret then h else h.setParseError .badFieldSpec
    let h :=
      if !h.isStrict || ret then
        let normalizedName := normalizeFieldName h.crtParsingFieldName
        let content :=
          match h.fields.lookup normalizedName with
          | none => h.crtParsingFieldContent
          | some old => old ++ ascii ", " ++ h.crtParsingFieldContent
        { h with fields := AssocList.setSorted normalizedName content h.fields }
      else h
    (ret, { h with crtParsingFieldName := [], crtParsingFieldContent := [] })

/-- `ReadHeaderFields` on a line that is not empty. A colon is the byte 58. -/
def readFieldLine (h : Header) (line : Bytes) : Header :=
  if (line.head?.map isLwfChar).getD false then
    if h.crtParsingFieldName = [] then h.setParseError .noField
    else { h with crtParsingFieldContent := h.crtParsingFieldContent ++ ascii " " ++ line.dropWhile isLwfChar }
  else
    let h := h.addCrtParsingData.2
    if 58 ∉ line then h.setParseError .noField
    else
      { h with
        crtParsingFieldName := line.takeWhile (· ≠ 58)
        crtParsingFieldContent := ((line.dropWhile (· ≠ 58)).drop 1).dropWhile isLwfChar }

/-- `ReadHeaderFields` on the empty line at the end. -/
def readLastLine (h : Header) : Header :=
  let (ret, h) := h.addCrtParsingData
  if ret then h.setParseError .ok else h

/-- The loop of `ReadHeaderFields`; every turn reads a line. -/
def readHeaderFieldsLoop : Nat → Header → Bytes → Bool × Header × Bytes
  | 0, h, io => (false, h.setParseError .noData, io)
  | n + 1, h, io =>
    match readLine io with
    | (none, io) => (false, h.setParseError .noData, io)
    | (some line, io) =>
      let h := h.addBytesParsed line.length
      if line = [] then (true, h.readLastLine, io) else readHeaderFieldsLoop n (h.readFieldLine line) io

def readHeaderFields (h : Header) (io : Bytes) : Bool × Header × Bytes :=
  readHeaderFieldsLoop (io.length + 1) h io

def parseHeader (h : Header) (io : Bytes) (expected : FirstLineType) : Option (Bool × Header × Bytes) := do
  guard (h.lastParseError ≠ .ok)
  if h.bytesParsed = 0 then
    guard (h.parseError = .init ∨ h.parseError = .noData)
    match h.readFirstLine io expected with
    | (false, h, io) => some (false, h, io)
    | (true, h, io) => some (h.readHeaderFields io)
  else
    guard (h.parseError ≠ .init)
    some (h.readHeaderFields io)

def parseHttpRequest (h : Header) (io : Bytes) : Option (Bool × Header × Bytes) := h.parseHeader io .requestLine

def parseHttpReply (h : Header) (io : Bytes) : Option (Bool × Header × Bytes) := h.parseHeader io .statusLine

end Header

end Whispercast.Http
