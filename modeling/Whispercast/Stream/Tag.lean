import Whispercast.Flv.Tag

/-!
# Media tags

Model of `base/tag.h`: what every element of the library passes on. A class of tags is known by its type, and has a
body of its own; `static_cast` after a test of the type is a match on the type. The attributes are those of the FLV
model. Left out: the flavour mask, sizes and names for printing.
-/

namespace Whispercast.Stream

open Flv (Attributes)

/-- `Tag::Type`. -/
inductive TagType where
  | mediaInfo
  | flv
  | flvHeader
  | mp3
  | aac
  | internal
  | f4v
  | mts
  | raw
  | eos
  | featureFound
  | cuePoint
  | sourceStarted
  | sourceEnded
  | composed
  | osd
  | seekPerformed
  | bootstrapBegin
  | bootstrapEnd
  deriving DecidableEq

/-- `Tag`, with the body of the class of each type. -/
structure Tag (Body : TagType → Type) where
  type_ : TagType
  attributes_ : Attributes
  body_ : Body type_

namespace Tag

variable {Body : TagType → Type} (tag : Tag Body)

def can_resync : Bool := tag.attributes_.canResync

def is_video_tag : Bool := tag.attributes_.video

def is_audio_tag : Bool := tag.attributes_.audio

/-- An audio or video tag. -/
def isMedia : Bool := tag.is_audio_tag || tag.is_video_tag

/-- A video tag at which a decoder can start. -/
def isKeyframe : Bool := tag.is_video_tag && tag.can_resync

end Tag

end Whispercast.Stream
