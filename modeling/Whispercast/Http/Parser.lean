import Whispercast.Http.Header

/-!
# The request parser

`http::RequestParser` and the `http::Request` that it fills. Every call is given the unread bytes of the
connection and answers a set of `ReadState` bits. The decompressors are parameters: whatever a decoder does
with the data that it is given, it is called as in the source.

A call works on one message: the header and the body data of the client, or those of the server (`Work`).
-/

namespace Whispercast.Http

open Io Library

/-! ## Requests -/

/-- `http::Request`, as far as no compression of the output is concerned. -/
structure Request where
  clientHeader : Header
  clientData : Bytes
  serverHeader : Header
  serverData : Bytes
  inChunkEncoding : Bool

namespace Request

/-- A new request. -/
def new (strictHeaders : Bool) : Request where
  clientHeader := .cleared strictHeaders
  clientData := []
  serverHeader := .cleared strictHeaders
  serverData := []
  inChunkEncoding := false

def noServerBodyTransmitted (req : Request) : Bool :=
  let code := req.serverHeader.statusCode
  req.clientHeader.method = .head || (100 ≤ code && code < 200) || code = .noContent || code = .notModified

end Request

/-! ## Decompressors -/

/-- A zlib return value: `Z_OK`, `Z_STREAM_END` or anything else. -/
inductive ZErr where
  | ok | streamEnd | error
  deriving DecidableEq

/-- `ZlibGzipDecodeWrapper` with the states `γ` and `ZlibInflateWrapper` with the states `δ`. Given its state
and the data, a decoder answers its next state, the output, the data that is left, and the return value. -/
structure Zlib (γ δ : Type) where
  newGzip : γ
  decode : γ → Bytes → γ × Bytes × Bytes × ZErr
  newInflate : δ
  inflateSize : δ → Bytes → δ × Bytes × Bytes × ZErr

def kMinGzipDataSize : Nat := 18

/-! ## States -/

inductive ParseState where
  | initialized
  | headerReading
  | endOfHeader
  | endOfHeaderFinal
  | bodyReading
  | bodyEnd
  | chunkHeadReading
  | chunkReading
  | endOfChunk
  | lastChunkRead
  | endOfTrailHeader
  | errorHeaderBad
  | errorHeaderBadContentLen
  | errorHeaderTooLong
  | errorHeaderLine
  | errorContentTooLong
  | errorTransferEncodingUnknown
  | errorContentEncodingUnknown
  | errorContentGzipTooLong
  | errorContentGzipError
  | errorContentGzipUnfinished
  | errorChunkHeaderTooLong
  | errorChunkTooLong
  | errorChunkTooMany
  | errorChunkTrailHeader
  | errorChunkBadChunkLength
  | errorChunkBadChunkTermination
  | errorChunkBiggerThenDeclared
  | errorChunkUnfinishedGzipContent
  | errorChunkContinuedFinishedGzipContent
  | errorChunkContentGzipTooLong
  | errorChunkContentGzipError
  | errorChunkTrailerTooLong
  deriving DecidableEq

namespace ParseState

/-- The value of the enumerator. -/
def toNat : ParseState → Nat
  | .initialized => 0
  | .headerReading => 1
  | .endOfHeader => 2
  | .endOfHeaderFinal => 100
  | .bodyReading => 10
  | .bodyEnd => 110
  | .chunkHeadReading => 21
  | .chunkReading => 22
  | .endOfChunk => 23
  | .lastChunkRead => 24
  | .endOfTrailHeader => 120
  | .errorHeaderBad => 200
  | .errorHeaderBadContentLen => 201
  | .errorHeaderTooLong => 202
  | .errorHeaderLine => 203
  | .errorContentTooLong => 210
  | .errorTransferEncodingUnknown => 211
  | .errorContentEncodingUnknown => 212
  | .errorContentGzipTooLong => 213
  | .errorContentGzipError => 214
  | .errorContentGzipUnfinished => 215
  | .errorChunkHeaderTooLong => 220
  | .errorChunkTooLong => 221
  | .errorChunkTooMany => 222
  | .errorChunkTrailHeader => 223
  | .errorChunkBadChunkLength => 224
  | .errorChunkBadChunkTermination => 225
  | .errorChunkBiggerThenDeclared => 226
  | .errorChunkUnfinishedGzipContent => 227
  | .errorChunkContinuedFinishedGzipContent => 228
  | .errorChunkContentGzipTooLong => 229
  | .errorChunkContentGzipError => 230
  | .errorChunkTrailerTooLong => 231

/-- `InFinalState`: from `FIRST_FINAL_STATE` on. -/
def isFinal (s : ParseState) : Bool := 100 ≤ s.toNat

/-- `InErrorState`: from `FIRST_ERROR_STATE` on. -/
def isError (s : ParseState) : Bool := 200 ≤ s.toNat

end ParseState

/-- The bits of a `ReadState`. -/
abbrev ReadState := UInt32

namespace ReadState

def headerRead : ReadState := 1
def bodyReading : ReadState := 2
def chunkedBodyReading : ReadState := 4
def chunkedTrailerReading : ReadState := 8
def bodyFinished : ReadState := 16
def chunksFinished : ReadState := 32
def requestFinished : ReadState := 64
def continue_ : ReadState := 128

/-- `read_state & REQUEST_FINISHED`. -/
def isFinished (r : ReadState) : Bool := r &&& requestFinished ≠ 0

/-- `read_state & CONTINUE`. -/
def isContinue (r : ReadState) : Bool := r &&& continue_ ≠ 0

end ReadState

inductive NextChunkExpectation where
  | none | empty | nonEmpty
  deriving DecidableEq

/-- The limits of a parser, and what it accepts. -/
structure Limits where
  maxHeaderSize : Int
  maxBodySize : Int
  maxChunkSize : Int
  maxNumChunks : Int
  acceptWrongMethod : Bool
  acceptWrongVersion : Bool
  acceptNoContentLength : Bool
  worstAcceptedHeaderError : ParseError

/-- The limits of a parser that is given none. -/
def Limits.default : Limits where
  maxHeaderSize := 16384
  maxBodySize := 4 * 2 ^ 20
  maxChunkSize := 2 ^ 20
  maxNumChunks := -1
  acceptWrongMethod := false
  acceptWrongVersion := false
  acceptNoContentLength := false
  worstAcceptedHeaderError := .noStatusReason

/-- The parsing state of a `RequestParser`. -/
structure RequestParser (γ δ : Type) where
  parseState : ParseState
  bodySizeToRead : Int
  chunkSizeToRead : Int
  numChunksRead : Int
  nextChunkExpectation : NextChunkExpectation
  partialData : Bytes
  trailHeader : Header
  inflateZwrapper : Option δ
  gzipZwrapper : Option γ

/-- A message in the works: the parser, the unread bytes, and the header and the data of the message. -/
structure Work (γ δ : Type) where
  parser : RequestParser γ δ
  io : Bytes
  header : Header
  out : Bytes

variable {γ δ : Type}

/-- `RequestParser::Clear`. -/
def RequestParser.cleared : RequestParser γ δ where
  parseState := .initialized
  bodySizeToRead := 0
  chunkSizeToRead := 0
  numChunksRead := 0
  nextChunkExpectation := .none
  partialData := []
  trailHeader := .cleared true
  inflateZwrapper := none
  gzipZwrapper := none

def RequestParser.setParseState (s : RequestParser γ δ) (state : ParseState) : RequestParser γ δ :=
  { s with parseState := state }

namespace Work

def setParseState (w : Work γ δ) (state : ParseState) : Work γ δ :=
  { w with parser := w.parser.setParseState state }

open ReadState

/-! ## Bodies with a length -/

/-- How the loop over gzip data ends: with a `return`, or with `is_deflated` set or not. -/
inductive LoopEnd (γ δ : Type) where
  | returned (r : ReadState) (w : Work γ δ)
  | left (isDeflated : Bool) (w : Work γ δ)

/-- The gzip loop of `ParseBodyInternal`. A turn that goes on has consumed something. -/
def gunzipBody (z : Zlib γ δ) (maybeTryDeflate : Bool) : Nat → γ → Work γ δ → LoopEnd γ δ
  | 0, _, w => .left false w
  | n + 1, g, w =>
    let data := w.parser.partialData
    match z.decode g data with
    | (g, tmp, rest, .streamEnd) =>
      let w := { w with
        parser := { w.parser with gzipZwrapper := some g, partialData := rest }, out := w.out ++ tmp }
      if w.parser.bodySizeToRead = 0 ∧ rest = [] then
        .returned (headerRead ||| bodyFinished ||| requestFinished) (w.setParseState .bodyEnd)
      else if rest.length < data.length ∧ rest ≠ [] then gunzipBody z maybeTryDeflate n g w
      else .left false w
    | (g, _, rest, .error) =>
      if !maybeTryDeflate then
        -- The state is not set on this way out.
        .returned (headerRead ||| bodyReading ||| requestFinished)
          { w with parser := { w.parser with gzipZwrapper := some g, partialData := rest } }
      else .left true { w with parser := { w.parser with gzipZwrapper := some g } }
    | (g, tmp, rest, .ok) =>
      let w := { w with
        parser := { w.parser with gzipZwrapper := some g, partialData := rest }, out := w.out ++ tmp }
      if w.parser.bodySizeToRead = 0 then
        .returned (headerRead ||| bodyFinished ||| requestFinished)
          (w.setParseState .errorContentGzipUnfinished)
      else if rest.length < data.length ∧ rest ≠ [] then gunzipBody z maybeTryDeflate n g w
      else .left false w

/-- The deflate branch of `ParseBodyInternal`. -/
def inflateBody (z : Zlib γ δ) (w : Work γ δ) : ReadState × Work γ δ :=
  match z.inflateSize (w.parser.inflateZwrapper.getD z.newInflate) w.parser.partialData with
  | (i, tmp, rest, zerr) =>
    let w := { w with
      parser := { w.parser with inflateZwrapper := some i, partialData := rest }, out := w.out ++ tmp }
    match zerr with
    | .streamEnd =>
      if 0 < w.parser.bodySizeToRead then
        (headerRead ||| bodyReading ||| requestFinished, w.setParseState .errorContentGzipTooLong)
      else (headerRead ||| bodyFinished ||| requestFinished, w.setParseState .bodyEnd)
    | .error => (headerRead ||| bodyReading ||| requestFinished, w.setParseState .errorContentGzipError)
    | .ok => (headerRead ||| bodyReading, w)

/-- `ParseBodyInternal` takes what there is of the body out of the stream. -/
def takeBody (w : Work γ δ) : Work γ δ :=
  let toRead := (min w.parser.bodySizeToRead w.io.length).toNat
  { w with
    parser := { w.parser with
      partialData := w.parser.partialData ++ w.io.take toRead
      bodySizeToRead := w.parser.bodySizeToRead - toRead }
    io := w.io.drop toRead }

def parseBodyInternal (z : Zlib γ δ) (p : Limits) (w : Work γ δ) : Option (ReadState × Work γ δ) := do
  guard (w.parser.parseState = .bodyReading)
  if 0 ≤ p.maxBodySize ∧ p.maxBodySize < w.parser.bodySizeToRead then
    return (headerRead ||| requestFinished, w.setParseState .errorContentTooLong)
  let w := w.takeBody
  -- Data that was declared gzip but turned out as deflate stays with the inflater.
  let convert := w.parser.inflateZwrapper.isSome && w.header.isGzipContentEncoding
  let isGzipped := w.header.isGzipContentEncoding && !convert
  let isDeflated := w.header.isDeflateContentEncoding || convert
  if isGzipped then
    guard (!isDeflated)
    match gunzipBody z w.parser.gzipZwrapper.isNone (w.parser.partialData.length + 1)
        (w.parser.gzipZwrapper.getD z.newGzip) w with
    | .returned r w => some (r, w)
    | .left true w => some (inflateBody z w)
    | .left false w => some (headerRead ||| bodyReading, w)
  else if isDeflated then some (inflateBody z w)
  else
    let w := { w with parser := { w.parser with partialData := [] }, out := w.out ++ w.parser.partialData }
    if w.parser.bodySizeToRead = 0 then
      some (headerRead ||| bodyFinished ||| requestFinished, w.setParseState .bodyEnd)
    else some (headerRead ||| bodyReading, w)

/-! ## Chunked bodies -/

/-- The gzip loop of `ParseChunksInternal`. -/
def gunzipChunk (z : Zlib γ δ) (maybeTryDeflate : Bool) : Nat → γ → Work γ δ → LoopEnd γ δ
  | 0, _, w => .left false w
  | n + 1, g, w =>
    let data := w.parser.partialData
    match z.decode g data with
    | (g, tmp, rest, .streamEnd) =>
      let w := { w with
        parser := { w.parser with gzipZwrapper := some g, partialData := rest }, out := w.out ++ tmp }
      if rest.length < data.length ∧ rest ≠ [] then gunzipChunk z maybeTryDeflate n g w
      else .left false w
    | (g, _, rest, .error) =>
      if !maybeTryDeflate then
        .returned (headerRead ||| chunkedBodyReading ||| requestFinished)
          ({ w with parser := { w.parser with gzipZwrapper := some g, partialData := rest } }.setParseState
            .errorChunkContentGzipError)
      else .left true { w with parser := { w.parser with gzipZwrapper := some g } }
    | (g, tmp, rest, .ok) =>
      let w := { w with
        parser := { w.parser with
          gzipZwrapper := some g
          partialData := rest
          nextChunkExpectation :=
            if w.parser.chunkSizeToRead = 0 then .nonEmpty else w.parser.nextChunkExpectation }
        out := w.out ++ tmp }
      if rest.length < data.length ∧ rest ≠ [] then gunzipChunk z maybeTryDeflate n g w
      else .left false w

/-- A turn of the loop in `ParseChunksInternal`: the call returns, or the loop goes on. -/
inductive Turn (γ δ : Type) where
  | returned (r : ReadState) (w : Work γ δ)
  | next (w : Work γ δ)

/-- The deflate branch of `ParseChunksInternal`. -/
def inflateChunk (z : Zlib γ δ) (w : Work γ δ) : Turn γ δ :=
  match z.inflateSize (w.parser.inflateZwrapper.getD z.newInflate) w.parser.partialData with
  | (i, tmp, rest, zerr) =>
    let w := { w with
      parser := { w.parser with inflateZwrapper := some i, partialData := rest }, out := w.out ++ tmp }
    match zerr with
    | .streamEnd =>
      if 0 < w.parser.chunkSizeToRead then
        .returned (headerRead ||| chunkedBodyReading ||| requestFinished)
          (w.setParseState .errorChunkContentGzipTooLong)
      else .next { w with parser := { w.parser with nextChunkExpectation := .empty } }
    | .error =>
      .returned (headerRead ||| chunkedBodyReading ||| requestFinished)
        (w.setParseState .errorChunkContentGzipError)
    | .ok =>
      if w.parser.chunkSizeToRead = 0 then
        .next { w with parser := { w.parser with nextChunkExpectation := .nonEmpty } }
      else .next w

/-- `STATE_CHUNK_HEAD_READING`. -/
def chunkHead (p : Limits) (w : Work γ δ) : Turn γ δ :=
  let failed := fun state => Turn.returned (headerRead ||| chunkedBodyReading ||| requestFinished)
    (w.setParseState state)
  match readLine w.io with
  | (none, io) =>
    if toUint32 p.maxHeaderSize < io.length then failed .errorChunkHeaderTooLong
    else .returned (headerRead ||| chunkedBodyReading) w
  | (some line, io) =>
    let w := { w with io := io }
    let failed := fun state => Turn.returned (headerRead ||| chunkedBodyReading ||| requestFinished)
      (w.setParseState state)
    let (n, errno) := Numeral.strtol 16 line
    let chunkLength := toInt32 n
    if errno ∨ chunkLength < 0 then failed .errorChunkBadChunkLength
    else if chunkLength = 0 then
      if w.parser.nextChunkExpectation = .nonEmpty then failed .errorChunkUnfinishedGzipContent
      else .next ({ w with parser := { w.parser with nextChunkExpectation := .none } }.setParseState .lastChunkRead)
    else if w.parser.nextChunkExpectation = .empty then failed .errorChunkContinuedFinishedGzipContent
    else if p.maxChunkSize < chunkLength then failed .errorChunkTooLong
    else
      let w := { w with parser := { w.parser with
        nextChunkExpectation := .none, numChunksRead := w.parser.numChunksRead + 1 } }
      if 0 ≤ p.maxNumChunks ∧ p.maxNumChunks < w.parser.numChunksRead then
        .returned (headerRead ||| chunkedBodyReading ||| requestFinished) (w.setParseState .errorChunkTooMany)
      else .next ({ w with parser := { w.parser with chunkSizeToRead := chunkLength } }.setParseState .chunkReading)

/-- `STATE_END_OF_CHUNK`. -/
def chunkEnd (w : Work γ δ) : Turn γ δ :=
  match readLine w.io with
  | (none, _) => .returned (headerRead ||| chunkedBodyReading) w
  | (some line, io) =>
    let w := { w with io := io }
    if line ≠ [] then
      .returned (headerRead ||| chunkedBodyReading ||| requestFinished)
        (w.setParseState .errorChunkBiggerThenDeclared)
    else .next (w.setParseState .chunkHeadReading)

/-- `STATE_CHUNK_READING` takes what there is of the chunk out of the stream. -/
def takeChunk (w : Work γ δ) : Work γ δ :=
  let toRead := (min w.parser.chunkSizeToRead w.io.length).toNat
  let left := w.parser.chunkSizeToRead - toRead
  { w with
    parser := { w.parser with
      partialData := w.parser.partialData ++ w.io.take toRead
      chunkSizeToRead := left
      parseState := if left = 0 then .endOfChunk else w.parser.parseState }
    io := w.io.drop toRead }

/-- `STATE_CHUNK_READING`. -/
def chunkContent (z : Zlib γ δ) (w : Work γ δ) : Option (Turn γ δ) := do
  if w.io = [] then return .returned (headerRead ||| chunkedBodyReading) w
  let w := w.takeChunk
  let convert := w.header.isGzipContentEncoding && w.parser.inflateZwrapper.isSome
  let isGzipped := w.header.isGzipContentEncoding && !convert
  let isDeflated := w.header.isDeflateContentEncoding || convert
  if isGzipped then
    guard (!isDeflated)
    if w.parser.partialData.length < kMinGzipDataSize then
      if kMinGzipDataSize < w.io.length then return .next w
      return .returned (headerRead ||| bodyReading) w
    match gunzipChunk z w.parser.gzipZwrapper.isNone (w.parser.partialData.length + 1)
        (w.parser.gzipZwrapper.getD z.newGzip) w with
    | .returned r w => some (.returned r w)
    | .left true w => some (inflateChunk z w)
    | .left false w => some (.next w)
  else if isDeflated then some (inflateChunk z w)
  else
    some (.next { w with parser := { w.parser with partialData := [] }, out := w.out ++ w.parser.partialData })

def parseTrailHeader (p : Limits) (w : Work γ δ) : Option (ReadState × Work γ δ) := do
  guard (w.parser.parseState = .lastChunkRead)
  match w.parser.trailHeader.readHeaderFields w.io with
  | (false, trail, io) =>
    let w := { w with parser := { w.parser with trailHeader := trail }, io := io }
    if toSize p.maxHeaderSize < toSize (toSize trail.bytesParsed + io.length) then
      some (headerRead ||| chunkedTrailerReading ||| requestFinished, w.setParseState .errorChunkTrailerTooLong)
    else some (headerRead ||| chunkedTrailerReading, w)
  | (true, trail, io) =>
    let w := { w with parser := { w.parser with trailHeader := trail }, io := io }
    if p.worstAcceptedHeaderError.toNat < trail.parseError.toNat then
      some (headerRead ||| chunkedTrailerReading ||| requestFinished, w.setParseState .errorChunkTrailHeader)
    else
      some (headerRead ||| chunksFinished ||| requestFinished,
        { w with header := w.header.copyHeaderFields trail false }.setParseState .endOfTrailHeader)

/-- A turn of the loop in `ParseChunksInternal`; in a state that is none of these the code logs a fatal error. -/
def chunkTurn (z : Zlib γ δ) (p : Limits) (w : Work γ δ) : Option (Turn γ δ) :=
  match w.parser.parseState with
  | .chunkHeadReading => some (chunkHead p w)
  | .endOfChunk => some (chunkEnd w)
  | .chunkReading => chunkContent z w
  | .lastChunkRead => (parseTrailHeader p w).map fun (r, w) => .returned r w
  | _ => none

/-- The loop of `ParseChunksInternal`. A turn that goes on has consumed something. -/
def parseChunksLoop (z : Zlib γ δ) (p : Limits) : Nat → Work γ δ → Option (ReadState × Work γ δ)
  | 0, _ => none
  | n + 1, w =>
    match chunkTurn z p w with
    | none => none
    | some (.returned r w) => some (r, w)
    | some (.next w) => parseChunksLoop z p n w

def parseChunksInternal (z : Zlib γ δ) (p : Limits) (w : Work γ δ) : Option (ReadState × Work γ δ) :=
  parseChunksLoop z p (w.io.length + 2) w

/-! ## Payloads -/

def isKnownContentEncoding (header : Header) : Bool :=
  match header.findField kHeaderContentEncoding with
  | none => true
  | some s =>
    let s := strTrim s
    s.isEmpty || strIStartsWith s (ascii "gzip") || strIStartsWith s (ascii "deflate") ||
      strIStartsWith s (ascii "identity")

def isKnownTransferEncoding (header : Header) : Bool :=
  match header.findField kHeaderTransferEncoding with
  | none => true
  | some s =>
    let s := strTrim s
    s.isEmpty || strIStartsWith s (ascii "chunked") || strIStartsWith s (ascii "identity")

/-- `ParsePayloadInternal` in `STATE_END_OF_HEADER`: it returns, or the transmission mode is known. -/
def beginPayload (p : Limits) (w : Work γ δ) : Turn γ δ :=
  if !isKnownContentEncoding w.header then
    .returned (headerRead ||| requestFinished) (w.setParseState .errorContentEncodingUnknown)
  else if !isKnownTransferEncoding w.header then
    .returned (headerRead ||| requestFinished) (w.setParseState .errorTransferEncodingUnknown)
  else if w.header.isChunkedTransfer then .next (w.setParseState .chunkHeadReading)
  else
    match w.header.findField kHeaderContentLength with
    | none =>
      let size := w.header.defaultBodyLen
      let w := { w with parser := { w.parser with bodySizeToRead := size } }
      if !p.acceptNoContentLength ∧ 0 < size then
        .returned (headerRead ||| requestFinished) (w.setParseState .endOfHeaderFinal)
      else
        let size := if 0 ≤ p.maxBodySize ∧ p.maxBodySize < size then p.maxBodySize else size
        .next ({ w with parser := { w.parser with bodySizeToRead := size } }.setParseState .bodyReading)
    | some contentLengthStr =>
      let (n, errno) := Numeral.strtol 10 contentLengthStr
      let contentLength := toInt32 n
      if errno ∨ contentLength < 0 then
        .returned (headerRead ||| requestFinished) (w.setParseState .errorHeaderBadContentLen)
      else
        .next ({ w with parser := { w.parser with bodySizeToRead := contentLength } }.setParseState .bodyReading)

/-- `ParsePayloadInternal` once the transmission mode is known. -/
def parsePayload (z : Zlib γ δ) (p : Limits) (w : Work γ δ) : Option (ReadState × Work γ δ) := do
  if w.parser.parseState = .bodyReading then parseBodyInternal z p w
  else
    guard (ParseState.chunkHeadReading.toNat ≤ w.parser.parseState.toNat)
    parseChunksInternal z p w

def parsePayloadInternal (z : Zlib γ δ) (p : Limits) (w : Work γ δ) : Option (ReadState × Work γ δ) := do
  guard (ParseState.endOfHeader.toNat ≤ w.parser.parseState.toNat)
  if w.parser.parseState = .endOfHeader then
    match beginPayload p w with
    | .returned r w => some (r, w)
    | .next w => parsePayload z p w
  else parsePayload z p w

end Work

/-! ## Messages -/

/-- A parser with the stream it reads and the request it fills. -/
structure Connection (γ δ : Type) where
  parser : RequestParser γ δ
  io : Bytes
  request : Request

namespace Connection

open ReadState

def setParseState (c : Connection γ δ) (state : ParseState) : Connection γ δ :=
  { c with parser := c.parser.setParseState state }

/-- `ParseClientRequest` in `STATE_INITIALIZED`. -/
def startClient (c : Connection γ δ) : Connection γ δ :=
  { c with request := { c.request with
    clientData := [], clientHeader := c.request.clientHeader.clear } }.setParseState .headerReading

/-- `ParseServerReply` in `STATE_INITIALIZED`. -/
def startServer (c : Connection γ δ) : Connection γ δ :=
  { c with request := { c.request with
    serverData := [], serverHeader := c.request.serverHeader.clear } }.setParseState .headerReading

/-- `ParseClientRequest` in `STATE_HEADER_READING`. -/
def readClientHeader (p : Limits) (c : Connection γ δ) : Option (ReadState × Connection γ δ) :=
  match c.request.clientHeader.parseHttpRequest c.io with
  | none => none
  | some (false, header, io) =>
    let c := { c with io := io, request := { c.request with clientHeader := header } }
    if toSize p.maxHeaderSize < toSize (io.length + toSize header.bytesParsed) then
      some (requestFinished, c.setParseState .errorHeaderTooLong)
    else
      -- The code sets the type of the other header here.
      some (0, { c with request := { c.request with
        serverHeader := { c.request.serverHeader with firstLineType := .requestLine } } })
  | some (true, header, io) =>
    let c := { c with io := io, request := { c.request with clientHeader := header } }
    if toSize p.maxHeaderSize < toSize header.bytesParsed then
      some (requestFinished, c.setParseState .errorHeaderTooLong)
    else if (header.httpVersion = .unknown ∧ !p.acceptWrongVersion) ∨
        (header.method = .unknown ∧ !p.acceptWrongMethod) then
      some (headerRead ||| requestFinished, c.setParseState .errorHeaderLine)
    else if p.worstAcceptedHeaderError.toNat < header.parseError.toNat then
      some (headerRead ||| requestFinished, c.setParseState .errorHeaderBad)
    else some (headerRead ||| continue_, c.setParseState .endOfHeader)

/-- `ParseServerReply` in `STATE_HEADER_READING`. -/
def readServerHeader (p : Limits) (c : Connection γ δ) : Option (ReadState × Connection γ δ) :=
  match c.request.serverHeader.parseHttpReply c.io with
  | none => none
  | some (false, header, io) =>
    if toSize p.maxHeaderSize < toSize (io.length + toSize header.bytesParsed) then
      some (requestFinished,
        { c with io := io, request := { c.request with serverHeader := header } }.setParseState .errorHeaderTooLong)
    else
      some (0, { c with
        io := io, request := { c.request with serverHeader := { header with firstLineType := .statusLine } } })
  | some (true, header, io) =>
    let c := { c with io := io, request := { c.request with serverHeader := header } }
    if toSize p.maxHeaderSize < toSize header.bytesParsed then
      some (requestFinished, c.setParseState .errorHeaderTooLong)
    else if p.worstAcceptedHeaderError.toNat < header.parseError.toNat then
      some (headerRead ||| requestFinished, c.setParseState .errorHeaderBad)
    else if c.request.noServerBodyTransmitted then
      some (headerRead ||| requestFinished, c.setParseState .endOfHeaderFinal)
    else some (headerRead ||| continue_, c.setParseState .endOfHeader)

def parseClientRequest (z : Zlib γ δ) (p : Limits) (c : Connection γ δ) : Option (ReadState × Connection γ δ) :=
  match c.parser.parseState with
  | .initialized => readClientHeader p c.startClient
  | .headerReading => readClientHeader p c
  | state => do
      guard (!state.isFinal)
      let (r, w) ← Work.parsePayloadInternal z p ⟨c.parser, c.io, c.request.clientHeader, c.request.clientData⟩
      some (r, ⟨w.parser, w.io, { c.request with clientHeader := w.header, clientData := w.out }⟩)

def parseServerReply (z : Zlib γ δ) (p : Limits) (c : Connection γ δ) : Option (ReadState × Connection γ δ) :=
  match c.parser.parseState with
  | .initialized => readServerHeader p c.startServer
  | .headerReading => readServerHeader p c
  | state => do
      guard (!state.isFinal)
      let (r, w) ← Work.parsePayloadInternal z p ⟨c.parser, c.io, c.request.serverHeader, c.request.serverData⟩
      some (r, ⟨w.parser, w.io, { c.request with serverHeader := w.header, serverData := w.out }⟩)

end Connection

end Whispercast.Http
