import Whispercast.Http.Parser

/-!
# Writing replies

`AppendServerReply` and `AppendServerChunk` of an `http::Request` that does not compress. A body is sent with its
length in the header, or in chunks: the calls that append chunks take the data that is there, cut it to the maximal
size of a chunk, and end the body when there is none.
-/

namespace Whispercast.Http

open Io Library

namespace Request

/-! ## Chunks -/

def kMaxInt32 : Int := 2 ^ 31 - 1

/-- `BufferAppendChunk`: what it appends, and the data that is left. -/
def bufferAppendChunk (data : Bytes) (addDecorations : Bool) (maxSize : Nat) : Bytes × Bytes :=
  let size := min maxSize data.length
  let firstLine := ascii "0" ++ Numeral.numeral 16 size ++ crlf
  ((if addDecorations then firstLine else []) ++ data.take size ++ (if addDecorations then crlf else []),
    data.drop size)

/-- `while ( !src_data->IsEmpty() ) BufferAppendChunk(..)`. A turn that takes no data is repeated for ever. -/
def appendChunks (addDecorations : Bool) (maxSize : Nat) : Nat → Bytes → Option Bytes
  | 0, _ => none
  | n + 1, data =>
    if data = [] then some []
    else
      let (out, rest) := bufferAppendChunk data addDecorations maxSize
      (appendChunks addDecorations maxSize n rest).map (out ++ ·)

/-- `AppendChunkHelper` for the data of the server: the request and what is appended. -/
def appendChunkHelper (req : Request) (addDecorations : Bool) (maxChunkSize : Int) : Option (Request × Bytes) :=
  if req.serverData = [] then
    some ({ req with inChunkEncoding := false }, if addDecorations then ascii "0\r\n\r\n" else [])
  else
    -- The size goes through an argument of type `uint32`.
    let maxSize := (toUint32 (if maxChunkSize ≤ 0 then kMaxInt32 else maxChunkSize)).toNat
    (appendChunks addDecorations maxSize (req.serverData.length + 1) req.serverData).map fun out =>
      ({ req with serverData := [] }, out)

def appendServerChunk (req : Request) (doChunks : Bool) (maxChunkSize : Int) : Option (Request × Bytes) := do
  guard (!req.noServerBodyTransmitted)
  req.appendChunkHelper (doChunks && HttpVersion.v1_1.toNat ≤ req.clientHeader.httpVersion.toNat) maxChunkSize

/-! ## Replies -/

/-- `AppendServerReply` on the version and the encoding of the header. -/
def prepareReply (req : Request) : Request :=
  let h := req.serverHeader
  let h := if h.httpVersion = .unknown then { h with httpVersion := .v1_1 } else h
  let h := if req.clientHeader.httpVersion.toNat < h.httpVersion.toNat then { h with httpVersion := .v1_0 } else h
  { req with serverHeader := h.clearField kHeaderContentEncoding }

/-- `AppendServerReply` without compression: the request and what is appended. -/
def appendServerReply (req : Request) (streaming doChunks : Bool) (maxChunkSize : Int) :
    Option (Request × Bytes) := do
  guard (!req.inChunkEncoding)
  guard (req.serverHeader.firstLineType = .statusLine)
  let req := req.prepareReply
  if streaming then
    let chunked := doChunks && HttpVersion.v1_1.toNat ≤ req.clientHeader.httpVersion.toNat
    let req := { req with serverHeader := req.serverHeader.setChunkedTransfer chunked }
    let header := req.serverHeader.toBytes
    if req.noServerBodyTransmitted then some (req, header)
    else
      let req := { req with inChunkEncoding := true }
      -- A call takes all the data, so the loop has one turn at most.
      if req.serverData = [] then some (req, header)
      else
        let (req, out) ← req.appendServerChunk doChunks maxChunkSize
        some (req, header ++ out)
  else
    let h := req.serverHeader.setChunkedTransfer false
    let code := h.statusCode
    let h :=
      if (100 ≤ code && code < 200) || code = .noContent || code = .notModified then h
      else h.addField kHeaderContentLength (intToString req.serverData.length) true false
    some ({ req with serverHeader := h, serverData := [] }, h.toBytes ++ req.serverData)

/-! ## Ways to send a body -/

/-- How a body is sent: with its length, or in chunks, by calls of `AppendServerChunk` with the data that is given
and a last one with none, or by no such call. -/
inductive Production where
  | sized
  | chunked (calls : Option (List Bytes))

/-- Calls of `AppendServerChunk` with new data, and the last one. -/
def appendAll (maxChunkSize : Int) : List Bytes → Request → Option Bytes
  | [], req => (req.appendServerChunk true maxChunkSize).map Prod.snd
  | data :: calls, req => do
      let (req, out) ← ({ req with serverData := req.serverData ++ data }).appendServerChunk true maxChunkSize
      let rest ← appendAll maxChunkSize calls req
      some (out ++ rest)

/-- The output of a reply. -/
def produce (req : Request) (maxChunkSize : Int) : Production → Option Bytes
  | .sized => (req.appendServerReply false false maxChunkSize).map Prod.snd
  | .chunked none => (req.appendServerReply true true maxChunkSize).map Prod.snd
  | .chunked (some calls) => do
      let (req, out) ← req.appendServerReply true true maxChunkSize
      let rest ← appendAll maxChunkSize calls req
      some (out ++ rest)

end Request

end Whispercast.Http
