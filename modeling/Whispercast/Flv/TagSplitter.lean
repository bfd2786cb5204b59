import Whispercast.Flv.Serializer
import Whispercast.Http.Consts

/-!
# The FLV tag splitter

Model of `FlvTagSplitter::GetNextTagInternal` (`flv/flv_tag_splitter.cc`). Until the media info of the stream is
extracted, which takes the first metadata and the first tag of each kind that the header announces, the tags are held
back in `tags_to_send_next_`. The extraction of the media info and of the cue points from metadata is a parameter.
-/

namespace Whispercast.Flv

open Library Io Amf
open Http (ascii)

def kOnMetaData : Bytes := ascii "onMetaData"
def kFlvHeaderMark : UInt32 := 0x464c5600
def kFlvHeaderMask : UInt32 := 0xFFFFFF00

namespace FlvHeader

def has_audio (h : FlvHeader) : Bool := h.audio_video_flags_ &&& 0x04 != 0

def has_video (h : FlvHeader) : Bool := h.audio_video_flags_ &&& 0x01 != 0

end FlvHeader

namespace FlvTag

/-- An audio or video tag. -/
def isMedia (t : FlvTag) : Bool := t.body_.type != .metadata

/-- A metadata tag with the name of the metadata of the stream. -/
def isOnMetaData (t : FlvTag) : Bool :=
  match t.body_ with
  | .metadata m => m.name_ == kOnMetaData
  | _ => false

end FlvTag

/-- What the splitter uses of the media utilities: `util::ExtractMediaInfoFromFlv`, on the media info so far, and
`RetrieveCuePoints`. -/
structure MediaUtil (Info Cue : Type) where
  extractMediaInfoFromFlv : FlvTag → Option FlvTag → Option FlvTag → Info → Bool × Info
  retrieveCuePoints : FlvTag → Option Cue

/-- A tag that the splitter returns. -/
inductive SplitTag (Info Cue : Type) where
  | flv (t : FlvTag)
  | header (h : FlvHeader)
  | mediaInfo (info : Info)
  | cuePoints (cues : Cue)

/-- What a call returns: the status, and with `READ_OK` a tag and its timestamp. -/
structure Answer (Info Cue : Type) where
  status : TagReadStatus
  tag : Option (SplitTag Info Cue × Int) := none

structure FlvTagSplitter (Info Cue : Type) where
  generic_tags_ : Bool
  media_info_ : Info
  media_info_extracted_ : Bool := false
  tags_to_send_next_ : List (SplitTag Info Cue × Int) := []
  has_audio_ : Bool := false
  has_video_ : Bool := false
  first_audio_ : Option FlvTag := none
  first_video_ : Option FlvTag := none
  first_metadata_ : Option FlvTag := none

namespace FlvTagSplitter

def kMediaInfoMaxWait : Nat := 50

variable {Info Cue : Type} (util : MediaUtil Info Cue) (flags : Flags)

/-- `tags_to_send_next_.push_back` of a tag of the stream. -/
def hold (s : FlvTagSplitter Info Cue) (tag : FlvTag) : FlvTagSplitter Info Cue :=
  { s with tags_to_send_next_ := s.tags_to_send_next_ ++ [(.flv tag, tag.timestamp_ms_)] }

/-- The cue points of a metadata tag are sent later. -/
def holdCuePoints (s : FlvTagSplitter Info Cue) (tag : FlvTag) : FlvTagSplitter Info Cue :=
  if tag.isOnMetaData then
    match util.retrieveCuePoints tag with
    | some cues => { s with tags_to_send_next_ := s.tags_to_send_next_ ++ [(.cuePoints cues, tag.timestamp_ms_)] }
    | none => s
  else s

/-- The first tag of its type is kept. -/
def learnFirst (s : FlvTagSplitter Info Cue) (tag : FlvTag) : FlvTagSplitter Info Cue :=
  match tag.body_.type with
  | .audio => { s with first_audio_ := s.first_audio_ <|> some tag }
  | .video => { s with first_video_ := s.first_video_ <|> some tag }
  | .metadata => { s with first_metadata_ := s.first_metadata_ <|> some tag }

/-- The first metadata, when all that the extraction of the media info needs has come. -/
def ready (s : FlvTagSplitter Info Cue) : Option FlvTag :=
  if (!s.has_audio_ || s.first_audio_.isSome) && (!s.has_video_ || s.first_video_.isSome) then s.first_metadata_ else none

/-- The wait for the media info is given up when too many tags are held back. -/
def giveUp (s : FlvTagSplitter Info Cue) : FlvTagSplitter Info Cue :=
  if kMediaInfoMaxWait < s.tags_to_send_next_.length then { s with media_info_extracted_ := true } else s

/-- What happens to a tag behind the extraction: the metadata of the stream is masked, and others are held back or
returned. -/
def pass (s : FlvTagSplitter Info Cue) (tag : FlvTag) : Answer Info Cue × FlvTagSplitter Info Cue :=
  if s.generic_tags_ && tag.isOnMetaData then (⟨.skip, none⟩, s)
  else if !s.media_info_extracted_ then (⟨.skip, none⟩, s.hold tag)
  else (⟨.ok, some (.flv tag, tag.timestamp_ms_)⟩, s)

/-- The extraction, with all it needs; `masked` says that the tag is the first metadata. -/
def extract (s : FlvTagSplitter Info Cue) (tag : FlvTag) (masked : Bool) (metadata : FlvTag) :
    Answer Info Cue × FlvTagSplitter Info Cue :=
  match util.extractMediaInfoFromFlv metadata s.first_audio_ s.first_video_ s.media_info_ with
  | (false, info) => (⟨.corrupted, none⟩, { s with media_info_ := info })
  | (true, info) =>
    let s := { s with media_info_ := info, media_info_extracted_ := true }
    (⟨.ok, some (.mediaInfo info, 0)⟩, if !s.generic_tags_ || !masked then s.hold tag else s)

/-- Update the media info with a tag, while it is not extracted. -/
def gather (s : FlvTagSplitter Info Cue) (tag : FlvTag) : Answer Info Cue × FlvTagSplitter Info Cue :=
  let s' := s.learnFirst tag
  match s'.ready with
  | some metadata => s'.extract util tag (s.first_metadata_.isNone && tag.body_.type == .metadata) metadata
  | none => s'.giveUp.pass tag

/-- A tag that is read with generic tags. -/
def takeTag (s : FlvTagSplitter Info Cue) (tag : FlvTag) : Answer Info Cue × FlvTagSplitter Info Cue :=
  let s := s.holdCuePoints util tag
  -- No metadata before the first media tag.
  let s :=
    if !s.media_info_extracted_ && s.first_metadata_.isNone && tag.isMedia then { s with media_info_extracted_ := true }
    else s
  if !s.media_info_extracted_ then s.gather util tag else s.pass tag

/-- `PeekInt32` with the mask of a header. -/
def marked (ms : Bytes) : Bool :=
  UInt32.ofNat (NumStreamer.numberOf .bigEndian (ms.take 4)) &&& kFlvHeaderMask == kFlvHeaderMark

/-- The header at the head of the stream. -/
def nextHeader (s : FlvTagSplitter Info Cue) (ms : Bytes) :
    Option (Answer Info Cue × FlvTagSplitter Info Cue × Bytes) :=
  match decodeHeader flags ms with
  | (.ok header, rest) =>
    let s := { s with has_audio_ := header.has_audio, has_video_ := header.has_video }
    some (if !s.generic_tags_ then ⟨.ok, some (.header header, 0)⟩ else ⟨.skip, none⟩, s, rest)
  | (.error (.status err), rest) => some (⟨err, none⟩, s, rest)
  | (.error _, _) => none

/-- The tag at the head of the stream. -/
def nextTag (s : FlvTagSplitter Info Cue) (ms : Bytes) (is_eos : Bool) :
    Option (Answer Info Cue × FlvTagSplitter Info Cue × Bytes) :=
  match decodeTag flags ms with
  | (.ok (.ok tag _), rest) =>
    if !s.generic_tags_ then some (⟨.ok, some (.flv tag, tag.timestamp_ms_)⟩, s, rest)
    else some ((s.takeTag util tag).1, (s.takeTag util tag).2, rest)
  | (.ok .skip, rest) => some (⟨.skip, none⟩, s, rest)
  | (.error (.status result), rest) =>
    some (if result = .noData ∧ is_eos then ⟨.eof, none⟩ else ⟨result, none⟩, s, rest)
  | (.error _, _) => none

/-- `FlvTagSplitter::GetNextTagInternal`: what is returned, the splitter and the stream behind it. It is `none` where a
`CHECK` fails. -/
def getNextTagInternal (s : FlvTagSplitter Info Cue) (ms : Bytes) (is_eos : Bool) :
    Option (Answer Info Cue × FlvTagSplitter Info Cue × Bytes) :=
  match s.tags_to_send_next_, s.media_info_extracted_ with
  | first :: others, true => some (⟨.ok, some first⟩, { s with tags_to_send_next_ := others }, ms)
  | _, _ =>
    if ms.length < 4 then some (⟨if is_eos then .eof else .noData, none⟩, s, ms)
    else if marked ms then s.nextHeader flags ms
    else s.nextTag util flags ms is_eos

end FlvTagSplitter

end Whispercast.Flv
