import Whispercast.Rtmp.Event
import Whispercast.Flv.Tag
import Whispercast.Http.Consts

/-!
# Publishing streams

Model of `rtmp::PublishStream` (`rtmp/rtmp_publish_stream.cc`), of the references and threads of `rtmp::Stream`
(`rtmp/rtmp_stream.cc`) and of what `rtmp::ServerConnection` does with a stream. The media and the network selector
are two threads that run closures in order, or one. An importer is a parameter: it answers a start later, may stop
the publisher and takes tags.

`CloseConnection` only lets the connection flush its data: the close handler runs in a later step. The replies to the
client are left out.
-/

namespace Whispercast.Rtmp

open Io Library Amf Flv
open Http (ascii)

def kMethodPublish : Bytes := ascii "publish"
def kMethodUnpublish : Bytes := ascii "unpublish"
def kOnMetaData : Bytes := ascii "onMetaData"
def kMediaUrlParam_UserName : Bytes := ascii "wuname"
def kMediaUrlParam_UserPass : Bytes := ascii "wword"
def kMediaUrlParam_UserToken : Bytes := ascii "wtoken"
def kMediaUrlParam_PublishCommand : Bytes := ascii "wpublish"

/-! ## Tags of an event -/

/-- A new `FlvTag` with the given body. -/
def newTag (timestamp_ms : Int) (body : Body) : FlvTag := ⟨Attributes.none, timestamp_ms, 0, body, none⟩

/-- `EventVideoData::DecodeTag` and `EventAudioData::DecodeTag`. -/
def decodeDataTag (type : FlvFrameType) (data : Bytes) (timestamp_ms : Int) : Option FlvTag :=
  if data = [] then none
  else
    match Body.decode type data data.length with
    | ((.ok, body), _) => some (newTag timestamp_ms body).learnAttributes
    | _ => none

/-- The loop of `MediaDataEvent::DecodeTags`. -/
def decodeTagsLoop (timestamp_ms : Int) : Nat → Bytes → List FlvTag
  | 0, _ => []
  | n + 1, data =>
    if data.length ≤ 11 then []
    else
      let size := NumStreamer.numberOf .bigEndian ((data.drop 1).take 3)
      let timestamp := NumStreamer.numberOf .bigEndian ((data.drop 7).take 1 ++ (data.drop 4).take 3)
      let stream_id := NumStreamer.numberOf .bigEndian ((data.drop 8).take 3)
      match FlvFrameType.ofByte (data.headD 0) with
      | none => []
      | some type =>
        match Body.decode type (data.drop 11) size with
        | ((.ok, body), rest) =>
          -- The timestamp is an int32.
          { newTag (timestamp_ms + Int.bmod timestamp (2 ^ 32)) body with stream_id_ := stream_id } ::
            decodeTagsLoop timestamp_ms n (rest.drop 4)
        | _ => []

def extractFlvTags (event : Event) (timestamp_ms : Int) : List FlvTag :=
  match event.body with
  | .notify name [.string _, .stringMap data] =>
    if name = ascii "@setDataFrame" then
      [(newTag timestamp_ms (.metadata ⟨kOnMetaData, ⟨0, data⟩⟩)).learnAttributes]
    else []
  | .bulkData .videoData data => (decodeDataTag .video data timestamp_ms).toList
  | .bulkData .audioData data => (decodeDataTag .audio data timestamp_ms).toList
  | .bulkData .mediaData data => decodeTagsLoop timestamp_ms (data.length + 1) data
  | _ => []

/-! ## Requests of the client -/

/-- `URL`, as far as it is used: the path and the query parameters. -/
structure StreamUrl where
  path : Bytes
  queryParameters : Option (List (Bytes × Bytes))

/-- What is around a stream: whether one selector is both the media and the network selector, the parser of the URL
of a stream, and the address of the client. -/
structure Surroundings where
  one_thread : Bool
  url : Bytes → StreamUrl
  remote_address : Bytes

/-- `streaming::AuthorizerRequest`, for the action `kActionPublish`. -/
structure AuthorizerRequest where
  user_ : Bytes := []
  passwd_ : Bytes := []
  token_ : Bytes := []
  net_address_ : Bytes
  resource_ : Bytes

/-- The method of an event that is an invocation. -/
def invokedMethod : EventBody → Option Bytes
  | .invoke call => some call.method_name_
  | .flexMessage _ (.string method :: .number _ :: _) => some method
  | _ => none

/-- The path and the command of a `publish`, where its arguments are good. -/
def publishArguments : EventBody → Option (Bytes × Bytes)
  | .invoke call =>
    match call.arguments_ with
    | .string path :: .string command :: _ => some (path, command)
    | _ => none
  | .flexMessage _ (_ :: .number _ :: _ :: .string path :: .string command :: _) => some (path, command)
  | _ => none

/-- Whether the arguments of an `unpublish` are good. -/
def unpublishArguments : EventBody → Bool
  | .invoke call =>
    match call.arguments_ with
    | .string _ :: _ => true
    | _ => false
  | .flexMessage _ (_ :: _ :: _ :: .string _ :: _) => true
  | _ => false

/-- The stream name of a path: what is behind its second slash, without `mp3:` and `mp4:`. -/
def streamName (path : Bytes) : Option Bytes :=
  match (path.drop 1).idxOf? 0x2F with
  | none => none
  | some n =>
    let name := path.drop (n + 2)
    some (if name.take 4 = ascii "mp3:" ∨ name.take 4 = ascii "mp4:" then name.drop 4 else name)

/-- A query parameter of the URL of a `publish`, put into the request and the command. -/
def storeParameter (auth : AuthorizerRequest × Bytes) (comp : Bytes × Bytes) : AuthorizerRequest × Bytes :=
  if comp.1 = kMediaUrlParam_UserName then ({ auth.1 with user_ := comp.2 }, auth.2)
  else if comp.1 = kMediaUrlParam_UserPass then ({ auth.1 with passwd_ := comp.2 }, auth.2)
  else if comp.1 = kMediaUrlParam_UserToken then ({ auth.1 with token_ := comp.2 }, auth.2)
  else if comp.1 = kMediaUrlParam_PublishCommand then (auth.1, comp.2)
  else auth

/-- What `InvokePublish` makes of an event: the request for the authorizer and the publish command. -/
def publishRequest (env : Surroundings) (body : EventBody) : Option (AuthorizerRequest × Bytes) := do
  let (path, command) ← publishArguments body
  let url := env.url path
  let name ← streamName url.path
  pure ((url.queryParameters.getD []).foldl storeParameter
    ({ net_address_ := env.remote_address, resource_ := name }, command))

/-! ## The stream and its importer -/

/-- `streaming::Tag`, as a publisher sends it. A `MediaInfoTag` is what `ExtractMediaInfoFromFlv` makes of the first
metadata, audio and video tag. -/
inductive Tag where
  | flv (tag : FlvTag)
  | mediaInfo (metadata : FlvTag) (audio video : Option FlvTag)
  | eos (forced : Bool)

/-- The type `TYPE_EOS`. -/
def Tag.IsEos : Tag → Prop
  | .eos _ => True
  | _ => False

instance : DecidablePred Tag.IsEos := fun tag => by cases tag <;> unfold Tag.IsEos <;> infer_instance

/-- A closure for the media selector. It holds a reference to the stream. -/
inductive MediaClosure where
  | startPublishing (auth_req : AuthorizerRequest)
  | sendTag (tag : Tag) (timestamp_ms : Int)

/-- A closure for the network selector. -/
inductive NetClosure where
  | startCompleted (success : Bool)
  | internalStop (send_eos forced : Bool)
  | deleteStream
  deriving DecidableEq

/-- What passes between the stream and an importer, in order. -/
inductive Call (ι : Type) where
  | start (importer : ι) (auth_req : AuthorizerRequest) (command : Bytes)
  | startCompleted (importer : ι) (success : Bool)
  | processTag (importer : ι) (tag : Tag) (timestamp_ms : Int)
  | stop (importer : ι)

/-- `PublishStream`, with the closures that wait in the selectors and what the importers know. -/
structure PublishStream (ι : Type) where
  importer_ : Option ι := none
  pending_start_ : Bool := false
  publish_command_ : Bytes := []
  has_audio_ : Bool := false
  has_video_ : Bool := false
  first_audio_ : Option FlvTag := none
  first_video_ : Option FlvTag := none
  first_metadata_ : Option FlvTag := none
  media_info_extracted_ : Bool := false
  /-- The connection has put the stream into its map. -/
  ref_count_ : Nat := 1
  /-- `connection_->is_closed()`; the stream is not in the map any more. -/
  closed : Bool := false
  deleted : Bool := false
  media_queue : List MediaClosure := []
  net_queue : List NetClosure := []
  /-- Importers that have not answered a start. -/
  owed : List ι := []
  /-- Importers that have stopped the publisher before they answered its start. -/
  dropped : List ι := []
  /-- Importers that the stream publishes on. -/
  attached : List ι := []
  /-- Record: the calls between the stream and the importers. -/
  calls : List (Call ι) := []
  /-- Record: a successful start has been completed on the open connection. -/
  opened : Bool := false
  /-- Record: the publishing has been asked to end. -/
  ended : Bool := true
  /-- Record: the tags of the media events that came while the stream was publishing. -/
  fed : List FlvTag := []

namespace PublishStream

variable {ι : Type} [DecidableEq ι] (env : Surroundings)

def incRef (s : PublishStream ι) : PublishStream ι := { s with ref_count_ := s.ref_count_ + 1 }

/-- `DecRef`. With the last reference, `DeleteInSelectLoop` is called. -/
def decRef (s : PublishStream ι) : Option (PublishStream ι) :=
  if s.ref_count_ = 0 then none
  else if s.ref_count_ = 1 then some { s with ref_count_ := 0, net_queue := s.net_queue ++ [.deleteStream] }
  else some { s with ref_count_ := s.ref_count_ - 1 }

/-- `RunInSelectLoop` of the media selector. -/
def runInMedia (c : MediaClosure) (s : PublishStream ι) : PublishStream ι :=
  { s with media_queue := s.media_queue ++ [c] }

/-- `RunInSelectLoop` of the network selector. -/
def runInNet (c : NetClosure) (s : PublishStream ι) : PublishStream ι := { s with net_queue := s.net_queue ++ [c] }

/-- `SendTag` in the media thread. At an EOS the importer lets the publisher go. -/
def sendTagHere (tag : Tag) (timestamp_ms : Int) (s : PublishStream ι) : PublishStream ι :=
  match s.importer_ with
  | none => s
  | some i =>
    let s := { s with calls := s.calls ++ [.processTag i tag timestamp_ms] }
    if tag.IsEos then { s with importer_ := none, attached := s.attached.erase i } else s

/-- `SendTag`, called in the network thread. -/
def sendTag (tag : Tag) (timestamp_ms : Int) (s : PublishStream ι) : PublishStream ι :=
  if env.one_thread then sendTagHere tag timestamp_ms s
  else runInMedia (.sendTag tag timestamp_ms) s.incRef

/-- `InternalStop` in the network thread. -/
def internalStopHere (send_eos forced : Bool) (s : PublishStream ι) : PublishStream ι :=
  if send_eos then sendTag env (.eos forced) 0 s else s

/-- `InternalStop`, called in the network thread. -/
def internalStop (send_eos forced : Bool) (s : PublishStream ι) : PublishStream ι :=
  internalStopHere env send_eos forced { s with ended := true }

/-- `InternalStop`, called in the media thread. -/
def internalStopInMedia (send_eos forced : Bool) (s : PublishStream ι) : PublishStream ι :=
  if env.one_thread then internalStop env send_eos forced s
  else runInNet (.internalStop send_eos forced) { s.incRef with ended := true }

/-- `StartPublishing` in the media thread. `importer` is the answer of `GetImporter`; the importer is started and owes
an answer. -/
def startPublishingHere (auth_req : AuthorizerRequest) (importer : Option ι) (s : PublishStream ι) :
    PublishStream ι :=
  match importer with
  | none => internalStopInMedia env false false s
  | some i =>
    { s.incRef with
      importer_ := some i, pending_start_ := true, owed := s.owed ++ [i], fed := [],
      calls := s.calls ++ [.start i auth_req s.publish_command_] }

/-- `StartPublishing`, called in the network thread. -/
def startPublishing (auth_req : AuthorizerRequest) (importer : Option ι) (s : PublishStream ι) : PublishStream ι :=
  if env.one_thread then startPublishingHere env auth_req importer s
  else runInMedia (.startPublishing auth_req) s.incRef

/-- `StartCompleted` in the network thread. -/
def startCompletedHere (success : Bool) (s : PublishStream ι) : Option (PublishStream ι) :=
  let s := { s with pending_start_ := false }
  if s.closed then decRef (internalStop env true false s)
  else if success = false then decRef (internalStop env false false s)
  else decRef { s with opened := true }

/-- `StartCompleted`, called in the media thread. -/
def startCompleted (success : Bool) (s : PublishStream ι) : Option (PublishStream ι) :=
  if env.one_thread then startCompletedHere env success s else some (runInNet (.startCompleted success) s)

def stop (s : PublishStream ι) : PublishStream ι := internalStopInMedia env false true { s with importer_ := none }

/-- `NotifyConnectionClosed` and `Close`. -/
def close (s : PublishStream ι) : PublishStream ι := internalStop env true true s

/-! ## Events of the client -/

/-- `InvokePublish`. Its result says whether the connection goes on. -/
def invokePublish (event : Event) (importer : Option ι) (s : PublishStream ι) : Bool × PublishStream ι :=
  if s.importer_.isSome then (false, s)
  else
    let s := { s with publish_command_ := ((publishArguments event.body).map Prod.snd).getD s.publish_command_ }
    match publishRequest env event.body with
    | none => (false, s)
    | some (auth, command) =>
      (true, startPublishing env auth importer { s with publish_command_ := command, opened := false, ended := false })

def invokeUnpublish (event : Event) (s : PublishStream ι) : Bool × PublishStream ι :=
  if s.importer_.isNone then (false, s)
  else if unpublishArguments event.body = false then (false, s)
  else (true, internalStop env true false s)

/-- The first audio, video and metadata tag are kept. -/
def noteFirst (flv_tag : FlvTag) (s : PublishStream ι) : PublishStream ι :=
  match flv_tag.body_ with
  | .audio _ => { s with first_audio_ := s.first_audio_.or (some flv_tag) }
  | .video _ => { s with first_video_ := s.first_video_.or (some flv_tag) }
  | .metadata m =>
    if s.first_metadata_.isSome then s
    else { s with
      has_audio_ := (m.values_.data_.lookup (ascii "audiocodecid")).isSome
      has_video_ := (m.values_.data_.lookup (ascii "videocodecid")).isSome
      first_metadata_ := some flv_tag }

/-- The media info, when the tags that it is extracted from are there. -/
def extractMediaInfo (s : PublishStream ι) : Option Tag × PublishStream ι :=
  match s.first_metadata_ with
  | none => (none, s)
  | some metadata =>
    if (s.has_audio_ = false ∨ s.first_audio_.isSome) ∧ (s.has_video_ = false ∨ s.first_video_.isSome) then
      (some (.mediaInfo metadata s.first_audio_ s.first_video_), { s with media_info_extracted_ := true })
    else (none, s)

/-- The media info is learned from the first tags, once. -/
def learnMediaInfo (flv_tag : FlvTag) (s : PublishStream ι) : Option Tag × PublishStream ι :=
  if s.media_info_extracted_ then (none, s) else extractMediaInfo (noteFirst flv_tag s)

/-- Metadata that is not sent to the importer. -/
def Eaten (flv_tag : FlvTag) : Prop :=
  match flv_tag.body_ with
  | .metadata m => m.name_ = kOnMetaData
  | _ => False

instance : DecidablePred Eaten := fun flv_tag => by unfold Eaten; split <;> infer_instance

/-- One turn of the loop of `ProcessEvent`. -/
def processFlvTag (flv_tag : FlvTag) (s : PublishStream ι) : PublishStream ι :=
  let (info, s) := learnMediaInfo flv_tag s
  let s := match info with
    | some tag => sendTag env tag flv_tag.timestamp_ms_ s
    | none => s
  if Eaten flv_tag then s else sendTag env (.flv flv_tag) flv_tag.timestamp_ms_ s

/-- The tags of a media event, recorded. -/
def record (tags : List FlvTag) (s : PublishStream ι) : PublishStream ι :=
  if s.opened ∧ s.ended = false then { s with fed := s.fed ++ tags } else s

def processEvent (event : Event) (timestamp_ms : Int) (importer : Option ι) (s : PublishStream ι) :
    Bool × PublishStream ι :=
  if invokedMethod event.body = some kMethodPublish then invokePublish env event importer s
  else if invokedMethod event.body = some kMethodUnpublish then invokeUnpublish env event s
  else
    let tags := extractFlvTags event timestamp_ms
    if s.importer_.isNone ∨ s.pending_start_ then (true, record tags s)
    else (true, tags.foldl (fun s flv_tag => record [flv_tag] (processFlvTag env flv_tag s)) s)

/-! ## The machine -/

/-- `ServerConnection::ConnectionCloseHandler`, for this stream. -/
def connectionCloseHandler (s : PublishStream ι) : Option (PublishStream ι) :=
  decRef (close env { s with closed := true })

/-- What happens next. `importer` is the answer of `GetImporter`, where it is called. -/
inductive Input (ι : Type) where
  /-- An event of the client for this stream. -/
  | event (event : Event) (timestamp_ms : Int) (importer : Option ι)
  | deleteStream
  | connectionClosed
  /-- The network selector runs its next closure. -/
  | runNet
  /-- The media selector runs its next closure. -/
  | runMedia (importer : Option ι)
  /-- An importer answers a start. -/
  | importerCompletes (importer : ι) (success : Bool)
  /-- An importer stops the publisher. -/
  | importerStops (importer : ι)

/-- The first closure of the network selector is run. -/
def runNetClosure (c : NetClosure) (s : PublishStream ι) : Option (PublishStream ι) :=
  match c with
  | .startCompleted success => startCompletedHere env success s
  | .internalStop send_eos forced => decRef (internalStopHere env send_eos forced s)
  | .deleteStream =>
    -- `~PublishStream` and `~Stream` check these.
    if s.importer_.isNone ∧ s.ref_count_ = 0 then some { s with deleted := true } else none

/-- The first closure of the media selector is run. -/
def runMediaClosure (c : MediaClosure) (importer : Option ι) (s : PublishStream ι) : Option (PublishStream ι) :=
  match c with
  | .startPublishing auth_req => decRef (startPublishingHere env auth_req importer s)
  | .sendTag tag timestamp_ms => decRef (sendTagHere tag timestamp_ms s)

/-- One step. It is `none` where a `CHECK` fails or the deleted stream is used. What cannot happen changes nothing. -/
def step (s : PublishStream ι) : Input ι → Option (PublishStream ι)
  | .event event timestamp_ms importer =>
    if s.closed then some s
    else
      match processEvent env event timestamp_ms importer s with
      | (true, s) => some s
      -- The read handler fails, and the connection is closed.
      | (false, s) => connectionCloseHandler env s
  | .deleteStream => if s.closed then some s else some (close env s)
  | .connectionClosed => if s.closed then some s else connectionCloseHandler env s
  | .runNet =>
    match s.net_queue with
    | [] => some s
    | c :: rest => if s.deleted then none else runNetClosure env c { s with net_queue := rest }
  | .runMedia importer =>
    match s.media_queue with
    | [] => some s
    | c :: rest => if s.deleted then none else runMediaClosure env c importer { s with media_queue := rest }
  | .importerCompletes i success =>
    if i ∈ s.owed then
      if s.deleted then none
      else startCompleted env success { s with
        owed := s.owed.erase i, attached := if success then s.attached ++ [i] else s.attached,
        calls := s.calls ++ [.startCompleted i success] }
    else if i ∈ s.dropped then
      if s.deleted then none
      else startCompleted env success { s with
        dropped := s.dropped.erase i, calls := s.calls ++ [.startCompleted i success] }
    else some s
  | .importerStops i =>
    if i ∈ s.owed then
      if s.deleted then none
      else some (stop env { s with
        owed := s.owed.erase i, dropped := s.dropped ++ [i], calls := s.calls ++ [.stop i] })
    else if i ∈ s.attached then
      if s.deleted then none
      else some (stop env { s with attached := s.attached.erase i, calls := s.calls ++ [.stop i] })
    else some s

end PublishStream

end Whispercast.Rtmp
