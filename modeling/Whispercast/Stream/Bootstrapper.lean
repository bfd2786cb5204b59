import Whispercast.Stream.Tag
import Whispercast.Flv.TagSplitter

/-!
# The bootstrapper

Model of `Bootstrapper` (`base/bootstrapper.cc`). It keeps the headers of a stream and, with `keep_media_`, the media
from the last video keyframe on, for the clients that join later. It is compared with the tags since the last
`SOURCE_ENDED`: what should be kept is the last keyframe among them with every audio and video tag behind it.
`GetBootstrapTags` is left out.
-/

namespace Whispercast.Stream

open List
open Flv (Attributes kOnMetaData)

/-! ## Tags -/

/-- The tag that `DecodeAuxiliaryMoovTag` makes of the moov in a video body. -/
structure MoovTag where
  attributes_ : Attributes
  timestamp_ms_ : Int
  body_ : Flv.Video

/-- What an `FlvTag` adds to a tag. -/
structure FlvContent where
  timestamp_ms_ : Int
  stream_id_ : Nat
  body_ : Flv.Body
  /-- `avc_moov_` of a video body. -/
  avc_moov_ : Option MoovTag

/-- What a `SourceChangedTag` adds to a tag. -/
structure SourceChanged where
  source_element_name_ : Io.Bytes
  path_ : Io.Bytes
  is_final_ : Bool

/-- The bodies of tags, as far as the bootstrapper looks at them. -/
def BodyOf : TagType → Type
  | .flv => FlvContent
  | .sourceStarted => SourceChanged
  | .sourceEnded => SourceChanged
  | _ => Unit

/-- A tag of a stream. -/
abbrev MediaTag := Tag BodyOf

/-- The moov tag as a tag of its own. -/
def MoovTag.toTag (moov : MoovTag) : MediaTag :=
  ⟨.flv, moov.attributes_, ⟨moov.timestamp_ms_, 0, .video moov.body_, none⟩⟩

/-! ## Bootstrapper -/

structure Bootstrapper where
  keep_media_ : Bool
  source_started_tags_ : List MediaTag := []
  avc_sequence_header_ : Option MediaTag := none
  aac_header_tag_ : Option MediaTag := none
  metadata_ : Option MediaTag := none
  media_info_ : Option MediaTag := none
  cue_points_ : Option MediaTag := none
  moov_tag_ : Option MoovTag := none
  media_bootstrap_ : List MediaTag := []

/-- `video_body()` is an AVC sequence header. -/
def isAvcSequenceHeader (v : Flv.Video) : Bool :=
  v.flags_.codec_ == Flv.flvFlagVideoCodecAvc && v.flags_.avc_packet_type_ == Flv.avcSequenceHeader

/-- `audio_body()` is an AAC header. -/
def isAacHeader (a : Flv.Audio) : Bool := a.flags_.format_ == Flv.flvFlagSoundFormatAac && a.flags_.is_aac_header_

namespace Bootstrapper

def clearMediaBootstrap (b : Bootstrapper) : Bootstrapper := { b with media_bootstrap_ := [] }

/-- A source has ended: its names are only compared for the log. -/
def endSource (b : Bootstrapper) : Bootstrapper where
  keep_media_ := b.keep_media_
  source_started_tags_ := b.source_started_tags_.dropLast

/-- An FLV tag that is stored aside. -/
def storeFlv (b : Bootstrapper) (tag : MediaTag) (content : FlvContent) : Option Bootstrapper :=
  match content.body_ with
  | .video v =>
    if isAvcSequenceHeader v then some { b with avc_sequence_header_ := some tag }
    else content.avc_moov_.map fun moov => { b with moov_tag_ := some moov }
  | .metadata m => if m.name_ = kOnMetaData then some { b with metadata_ := some tag } else none
  | .audio a => if isAacHeader a then some { b with aac_header_tag_ := some tag } else none

/-- The media from the last keyframe to the present. -/
def keepMedia (b : Bootstrapper) (tag : MediaTag) : Bootstrapper :=
  if b.keep_media_ then
    let b := if tag.isKeyframe then b.clearMediaBootstrap else b
    if b.media_bootstrap_ = [] ∧ tag.isKeyframe = false then b
    else { b with media_bootstrap_ := b.media_bootstrap_ ++ [tag] }
  else b

def processTag (b : Bootstrapper) (tag : MediaTag) : Bootstrapper :=
  match tag with
  | ⟨.sourceEnded, _, _⟩ => b.endSource
  | ⟨.mediaInfo, _, _⟩ => { b with media_info_ := some tag }
  | ⟨.sourceStarted, _, _⟩ => { b with source_started_tags_ := b.source_started_tags_ ++ [tag] }
  | ⟨.flv, _, content⟩ => (b.storeFlv tag content).getD (b.keepMedia tag)
  | ⟨.cuePoint, _, _⟩ => { b with cue_points_ := some tag }
  | _ => b.keepMedia tag

/-- A sequence of tags. -/
def processTags (b : Bootstrapper) (tags : List MediaTag) : Bootstrapper := tags.foldl processTag b

/-- `Bootstrapper::PlayAtBegin`: the tags that are sent, with their timestamps. -/
def playAtBegin (b : Bootstrapper) (timestamp_ms : Int) : List (MediaTag × Int) :=
  let timestamp_ms := if timestamp_ms < 0 then 0 else timestamp_ms
  let headers :=
    [b.media_info_, b.metadata_, b.cue_points_, b.avc_sequence_header_, b.aac_header_tag_,
      b.moov_tag_.map MoovTag.toTag].reduceOption
  (⟨.bootstrapBegin, Attributes.none, ()⟩, 0) ::
    ((b.source_started_tags_ ++ headers ++ b.media_bootstrap_ ++
      [(⟨.bootstrapEnd, Attributes.none, ()⟩ : MediaTag)]).map fun tag => (tag, timestamp_ms))

/-- The `SourceEndedTag` for a `SourceStartedTag`. -/
def endTag : MediaTag → MediaTag
  | ⟨.sourceStarted, attributes, content⟩ => ⟨.sourceEnded, attributes, content⟩
  | tag => tag

/-- `Bootstrapper::PlayAtEnd`; every source that is kept has the flavour of its distributor. -/
def playAtEnd (b : Bootstrapper) (timestamp_ms : Int) : List (MediaTag × Int) :=
  let timestamp_ms := if timestamp_ms < 0 then 0 else timestamp_ms
  b.source_started_tags_.reverse.map fun tag => (endTag tag, timestamp_ms)

/-- `Bootstrapper::ClearBootstrap`: the media stay. -/
def clearBootstrap (b : Bootstrapper) : Bootstrapper where
  keep_media_ := b.keep_media_
  media_bootstrap_ := b.media_bootstrap_

end Bootstrapper

/-! ## What should be kept -/

/-- `SOURCE_ENDED`. -/
def isEnded (tag : MediaTag) : Bool := tag.type_ == .sourceEnded

/-- A tag that is itself stored as a header: media info, metadata, cue points, AVC or AAC header, source started. -/
def isHeader : MediaTag → Bool
  | ⟨.mediaInfo, _, _⟩ => true
  | ⟨.sourceStarted, _, _⟩ => true
  | ⟨.cuePoint, _, _⟩ => true
  | ⟨.flv, _, content⟩ =>
    match content.body_ with
    | .video v => isAvcSequenceHeader v
    | .metadata m => m.name_ == kOnMetaData
    | .audio a => isAacHeader a
  | _ => false

/-- A video tag that is no header, but from which the moov was taken. -/
def carriesMoov : MediaTag → Bool
  | ⟨.flv, _, content⟩ =>
    match content.body_ with
    | .video v => !isAvcSequenceHeader v && content.avc_moov_.isSome
    | _ => false
  | _ => false

/-- A video keyframe that is no header. -/
def isKey (tag : MediaTag) : Bool := tag.isKeyframe && !isHeader tag

/-- An audio or video tag that is no header. -/
def isPlayed (tag : MediaTag) : Bool := tag.isMedia && !isHeader tag

/-- The tags since the last `SOURCE_ENDED`. -/
def sinceEnded (history : List MediaTag) : List MediaTag :=
  (history.reverse.takeWhile fun tag => !isEnded tag).reverse

/-- The media behind a history is empty, when no keyframe came since the last `SOURCE_ENDED`, or the last keyframe with
every audio and video tag behind it. -/
def CompleteGroup (media history : List MediaTag) : Prop :=
  (media = [] ∧ ∀ tag ∈ sinceEnded history, isKey tag = false) ∨
    ∃ before key after, sinceEnded history = before ++ key :: after ∧ isKey key = true ∧
      (∀ tag ∈ after, isKey tag = false) ∧ media = key :: after.filter isPlayed

/-- A new bootstrapper that keeps media has a complete group after each tag of a sequence. -/
def KeepsGroups (tags : List MediaTag) : Prop :=
  ∀ seen, seen <+: tags → CompleteGroup (Bootstrapper.processTags { keep_media_ := true } seen).media_bootstrap_ seen

/-- A keyframe came since the last `SOURCE_ENDED`. -/
def Opened (history : List MediaTag) : Prop := ∃ tag ∈ sinceEnded history, isKey tag = true

/-- What a tag behind a history has to be like.

* A keyframe carries no moov.
* Behind a keyframe, an audio or video tag carries no moov.
* Behind a keyframe, only headers, moov carriers, audio and video tags come. -/
structure Fitting (history : List MediaTag) (tag : MediaTag) : Prop where
  key : isKey tag = true → carriesMoov tag = false
  media : Opened history → isPlayed tag = true → carriesMoov tag = false
  other : Opened history → isHeader tag = true ∨ tag.isMedia = true ∨ carriesMoov tag = true

/-- Every tag up to the next `SOURCE_ENDED` is fitting. -/
def AllFitting (tags : List MediaTag) : Prop :=
  ∀ seen tag, seen ++ [tag] <+: tags → isEnded tag = false → Fitting seen tag

/-! ## The group of a history -/

/-- A tag more. -/
def groupStep (group : List MediaTag) (tag : MediaTag) : List MediaTag :=
  if isKey tag then [tag] else if group ≠ [] ∧ isPlayed tag then group ++ [tag] else group

/-- The complete group of a history. -/
def groupOf (history : List MediaTag) : List MediaTag := (sinceEnded history).foldl groupStep []

theorem sinceEnded_append (history : List MediaTag) (tag : MediaTag) :
    sinceEnded (history ++ [tag]) = if isEnded tag then [] else sinceEnded history ++ [tag] := by
  rw [sinceEnded, reverse_append, reverse_singleton, singleton_append, takeWhile_cons]
  cases isEnded tag with
  | true => rfl
  | false => simp [sinceEnded]

theorem groupOf_append (history : List MediaTag) (tag : MediaTag) :
    groupOf (history ++ [tag]) = if isEnded tag then [] else groupStep (groupOf history) tag := by
  rw [groupOf, sinceEnded_append]
  cases isEnded tag with
  | true => rfl
  | false => simp [groupOf]

/-- Without a keyframe there is no group. -/
theorem foldl_groupStep_nil {tags : List MediaTag} (h : ∀ tag ∈ tags, isKey tag = false) :
    tags.foldl groupStep [] = [] := by
  induction tags with
  | nil => rfl
  | cons tag tags ih =>
    have hkey : isKey tag = false := h tag mem_cons_self
    have hstep : groupStep [] tag = [] := by simp [groupStep, hkey]
    rw [foldl_cons, hstep]
    exact ih fun t ht => h t (mem_cons_of_mem _ ht)

/-- Behind a keyframe, the audio and video tags are added. -/
theorem foldl_groupStep_cons {tags : List MediaTag} (h : ∀ tag ∈ tags, isKey tag = false) {group : List MediaTag}
    (hgroup : group ≠ []) : tags.foldl groupStep group = group ++ tags.filter isPlayed := by
  induction tags generalizing group with
  | nil => simp
  | cons tag tags ih =>
    have hkey : isKey tag = false := h tag mem_cons_self
    have hrest : ∀ t ∈ tags, isKey t = false := fun t ht => h t (mem_cons_of_mem _ ht)
    rw [foldl_cons]
    cases hplayed : isPlayed tag with
    | true =>
      have hstep : groupStep group tag = group ++ [tag] := by simp [groupStep, hkey, hplayed, hgroup]
      rw [hstep, ih hrest (by simp), filter_cons_of_pos hplayed, append_assoc, singleton_append]
    | false =>
      have hstep : groupStep group tag = group := by simp [groupStep, hkey, hplayed]
      rw [hstep, ih hrest hgroup, filter_cons_of_neg (by simp [hplayed])]

variable (tags : List MediaTag)

/-- Tags without a keyframe, or split at the last one. -/
theorem splitAtKey : (∀ tag ∈ tags, isKey tag = false) ∨
      ∃ before key after, tags = before ++ key :: after ∧ isKey key = true ∧ ∀ tag ∈ after, isKey tag = false := by
  induction tags using reverseRecOn with
  | nil => exact .inl fun tag htag => absurd htag not_mem_nil
  | append_singleton tags tag ih =>
    cases hkey : isKey tag with
    | true => exact .inr ⟨tags, tag, [], rfl, hkey, fun t ht => absurd ht not_mem_nil⟩
    | false =>
      have hlast : ∀ (l : List MediaTag), (∀ t ∈ l, isKey t = false) → ∀ t ∈ l ++ [tag], isKey t = false := by
        intro l hl t ht
        rcases mem_append.1 ht with hmem | hmem
        · exact hl t hmem
        · rw [mem_singleton.1 hmem]
          exact hkey
      rcases ih with hnone | ⟨before, key, after, rfl, hk, hafter⟩
      · exact .inl (hlast tags hnone)
      · exact .inr ⟨before, key, after ++ [tag], by simp, hk, hlast after hafter⟩

theorem foldl_groupStep_key (before : List MediaTag) {key : MediaTag} {after : List MediaTag} (hkey : isKey key = true)
    (hafter : ∀ tag ∈ after, isKey tag = false) :
    (before ++ key :: after).foldl groupStep [] = key :: after.filter isPlayed := by
  have hstep : ∀ group, groupStep group key = [key] := by
    intro group
    simp [groupStep, hkey]
  rw [foldl_append, foldl_cons, hstep, foldl_groupStep_cons hafter (cons_ne_nil _ _),
    singleton_append]

/-- There is one complete group. -/
theorem completeGroup_iff (media history : List MediaTag) : CompleteGroup media history ↔ media = groupOf history := by
  constructor
  · rintro (⟨rfl, hnone⟩ | ⟨before, key, after, hsince, hkey, hafter, rfl⟩)
    · exact (foldl_groupStep_nil hnone).symm
    · rw [groupOf, hsince, foldl_groupStep_key before hkey hafter]
  · rintro rfl
    rcases splitAtKey (sinceEnded history) with hnone | ⟨before, key, after, hsince, hkey, hafter⟩
    · exact .inl ⟨foldl_groupStep_nil hnone, hnone⟩
    · refine .inr ⟨before, key, after, hsince, hkey, hafter, ?_⟩
      rw [groupOf, hsince, foldl_groupStep_key before hkey hafter]

theorem groupOf_ne_nil (history : List MediaTag) : groupOf history ≠ [] ↔ Opened history := by
  rcases splitAtKey (sinceEnded history) with hnone | ⟨before, key, _, hsince, hkey, hafter⟩
  · refine iff_of_false (fun hne => hne (foldl_groupStep_nil hnone)) ?_
    rintro ⟨tag, htag, hkey⟩
    rw [hnone tag htag] at hkey
    exact Bool.false_ne_true hkey
  · refine iff_of_true ?_ ⟨key, by simp [hsince], hkey⟩
    rw [groupOf, hsince, foldl_groupStep_key before hkey hafter]
    exact cons_ne_nil _ _

/-! ## One tag -/

namespace Bootstrapper

@[simp] theorem keepMedia_keep_media (b : Bootstrapper) (tag : MediaTag) :
    (b.keepMedia tag).keep_media_ = b.keep_media_ := by
  simp only [keepMedia, clearMediaBootstrap]
  split_ifs <;> rfl

variable {b : Bootstrapper}

/-- What is stored aside leaves the media as they are. -/
theorem storeFlv_media {b' : Bootstrapper} {tag : MediaTag} {content : FlvContent}
    (h : b.storeFlv tag content = some b') :
    b'.media_bootstrap_ = b.media_bootstrap_ ∧ b'.keep_media_ = b.keep_media_ := by
  simp only [storeFlv] at h
  split at h
  · split_ifs at h
    · cases h
      exact ⟨rfl, rfl⟩
    · obtain ⟨-, -, rfl⟩ := Option.map_eq_some_iff.1 h
      exact ⟨rfl, rfl⟩
  · split_ifs at h
    cases h
    exact ⟨rfl, rfl⟩
  · split_ifs at h
    cases h
    exact ⟨rfl, rfl⟩

/-- An FLV tag is stored aside when it is a header or carries a moov. -/
theorem storeFlv_isSome (b : Bootstrapper) (attributes : Attributes) (content : FlvContent) :
    (b.storeFlv ⟨.flv, attributes, content⟩ content).isSome =
      (isHeader ⟨.flv, attributes, content⟩ || carriesMoov ⟨.flv, attributes, content⟩) := by
  simp only [storeFlv, isHeader, carriesMoov]
  cases content.body_ with
  | video v =>
    cases hheader : isAvcSequenceHeader v with
    | true => simp [hheader]
    | false => simp [hheader]
  | metadata m =>
    by_cases hname : m.name_ = kOnMetaData
    · simp [hname]
    · simp [hname]
  | audio a =>
    cases hheader : isAacHeader a with
    | true => simp [hheader]
    | false => simp [hheader]

theorem keepMedia_media (h : b.keep_media_ = true) (tag : MediaTag) : (b.keepMedia tag).media_bootstrap_ =
      if tag.isKeyframe then [tag] else if b.media_bootstrap_ = [] then [] else b.media_bootstrap_ ++ [tag] := by
  simp only [keepMedia, if_pos h, clearMediaBootstrap]
  cases tag.isKeyframe with
  | true => simp
  | false =>
    by_cases hnil : b.media_bootstrap_ = []
    · simp [hnil]
    · simp [hnil]

theorem processTag_keep_media (b : Bootstrapper) (tag : MediaTag) :
    (b.processTag tag).keep_media_ = b.keep_media_ := by
  rcases tag with ⟨type, attributes, content⟩
  cases type with
  | flv =>
    cases hstore : b.storeFlv ⟨.flv, attributes, content⟩ content with
    | none => simp [processTag, hstore]
    | some b' => simp [processTag, hstore, (storeFlv_media hstore).2]
  | _ => simp [processTag, endSource]

/-- The media behind a tag. -/
theorem processTag_media (h : b.keep_media_ = true) (tag : MediaTag) : (b.processTag tag).media_bootstrap_ =
      if isEnded tag then []
      else if isHeader tag || carriesMoov tag then b.media_bootstrap_
      else if tag.isKeyframe then [tag]
      else if b.media_bootstrap_ = [] then [] else b.media_bootstrap_ ++ [tag] := by
  rcases tag with ⟨type, attributes, content⟩
  have hkeep := keepMedia_media h ⟨type, attributes, content⟩
  cases type with
  | flv =>
    have hsome := storeFlv_isSome b attributes content
    have hended : isEnded ⟨.flv, attributes, content⟩ = false := rfl
    rw [hended, if_neg Bool.false_ne_true, ← hsome]
    cases hstore : b.storeFlv ⟨.flv, attributes, content⟩ content with
    | none =>
      simp only [processTag, hstore, Option.getD_none, Option.isSome_none]
      exact hkeep
    | some b' =>
      simp only [processTag, hstore, Option.getD_some, Option.isSome_some, if_true]
      exact (storeFlv_media hstore).1
  | sourceEnded => rfl
  | mediaInfo => rfl
  | sourceStarted => rfl
  | cuePoint => rfl
  | _ => exact hkeep

/-- The media hold no header and no tag from which a moov was taken. -/
def Clean (b : Bootstrapper) : Prop := ∀ tag ∈ b.media_bootstrap_, carriesMoov tag = false

theorem Clean.processTag (h : b.keep_media_ = true) (hclean : b.Clean) (tag : MediaTag) :
    (b.processTag tag).Clean := by
  intro t ht
  rw [processTag_media h] at ht
  split_ifs at ht with hended hstored hkey hnil
  · exact absurd ht not_mem_nil
  · exact hclean t ht
  · rw [mem_singleton.1 ht]
    simp only [Bool.or_eq_true, not_or, Bool.not_eq_true] at hstored
    exact hstored.2
  · exact absurd ht not_mem_nil
  · simp only [Bool.or_eq_true, not_or, Bool.not_eq_true] at hstored
    rcases mem_append.1 ht with hmem | hmem
    · exact hclean t hmem
    · rw [mem_singleton.1 hmem]
      exact hstored.2

theorem fitting_iff {history media : List MediaTag} (h : media = groupOf history) (tag : MediaTag) :
    Fitting history tag ↔
      (isKey tag = true → carriesMoov tag = false) ∧
        (media ≠ [] → (isPlayed tag = true → carriesMoov tag = false) ∧
          (isHeader tag = true ∨ tag.isMedia = true ∨ carriesMoov tag = true)) := by
  rw [h, groupOf_ne_nil]
  constructor
  · rintro ⟨hkey, hmedia, hother⟩
    exact ⟨hkey, fun hopened => ⟨hmedia hopened, hother hopened⟩⟩
  · rintro ⟨hkey, hopened⟩
    exact ⟨hkey, fun h => (hopened h).1, fun h => (hopened h).2⟩

/-- With the group of a history before a tag, there is the group of the history with the tag behind it exactly when
the tag is fitting. -/
theorem processTag_group (h : b.keep_media_ = true) (hclean : b.Clean) {history : List MediaTag}
    (hgroup : b.media_bootstrap_ = groupOf history) (tag : MediaTag) :
    (b.processTag tag).media_bootstrap_ = groupOf (history ++ [tag]) ↔
      (isEnded tag = false → Fitting history tag) := by
  rw [processTag_media h, groupOf_append, ← hgroup, fitting_iff hgroup, groupStep]
  have hmedia : tag.isKeyframe = true → tag.isMedia = true := by
    simp only [Tag.isKeyframe, Tag.isMedia, Bool.and_eq_true, Bool.or_eq_true]
    exact fun hkey => .inr hkey.1
  cases hended : isEnded tag with
  | true => simp
  | false =>
    cases hheader : isHeader tag with
    | true => simp [isKey, isPlayed, hheader]
    | false =>
      cases hmoov : carriesMoov tag with
      | true =>
        -- A tag with a moov is not kept: nothing else may be expected of it.
        have hne : b.media_bootstrap_ ≠ [tag] := by
          intro heq
          have hnot := hclean tag (by rw [heq]; exact mem_singleton_self tag)
          rw [hmoov] at hnot
          exact Bool.noConfusion hnot
        cases hkey : tag.isKeyframe with
        | true => simp [isKey, hheader, hkey, hne]
        | false => simp [isKey, isPlayed, hheader, hkey]
      | false =>
        cases hkey : tag.isKeyframe with
        | true => simp [isKey, hheader, hkey, hmedia hkey]
        | false =>
          by_cases hnil : b.media_bootstrap_ = []
          · simp [isKey, hkey, hnil]
          · simp [isKey, isPlayed, hheader, hkey, hnil]

theorem processTags_append (b : Bootstrapper) (tags : List MediaTag) (tag : MediaTag) :
    b.processTags (tags ++ [tag]) = (b.processTags tags).processTag tag := by
  rw [processTags, foldl_append]
  rfl

theorem processTags_kept (h : b.keep_media_ = true) (hclean : b.Clean) (tags : List MediaTag) :
    (b.processTags tags).keep_media_ = true ∧ (b.processTags tags).Clean := by
  induction tags using reverseRecOn with
  | nil => exact ⟨h, hclean⟩
  | append_singleton tags tag ih =>
    rw [processTags_append]
    exact ⟨(processTag_keep_media _ tag).trans ih.1, ih.2.processTag ih.1 tag⟩

end Bootstrapper

/-! ## Whole sequences -/

theorem keepsGroups_append (tag : MediaTag) : KeepsGroups (tags ++ [tag]) ↔ KeepsGroups tags ∧
        CompleteGroup (Bootstrapper.processTags { keep_media_ := true } (tags ++ [tag])).media_bootstrap_
          (tags ++ [tag]) := by
  simp only [KeepsGroups, prefix_concat_iff, or_imp, forall_and, forall_eq]
  exact And.comm

theorem allFitting_append (tag : MediaTag) :
    AllFitting (tags ++ [tag]) ↔ AllFitting tags ∧ (isEnded tag = false → Fitting tags tag) := by
  constructor
  · intro h
    refine ⟨fun seen t hseen => h seen t (hseen.trans (prefix_append tags [tag])), ?_⟩
    exact h tags tag (prefix_refl _)
  · rintro ⟨htags, htag⟩ seen t hseen
    rcases prefix_concat_iff.1 hseen with heq | hprefix
    · obtain ⟨rfl, hlast⟩ := append_inj' heq rfl
      cases hlast
      exact htag
    · exact htags seen t hprefix

/-- The media are a complete group after each tag of a sequence exactly when every tag of it is fitting: by induction on
the sequence, with its last tag as the next step. -/
theorem keepsGroups_iff (tags : List MediaTag) : KeepsGroups tags ↔ AllFitting tags := by
  induction tags using reverseRecOn with
  | nil =>
    refine iff_of_true ?_ ?_
    · intro seen hseen
      rw [prefix_nil.1 hseen]
      exact .inl ⟨rfl, fun tag htag => absurd htag not_mem_nil⟩
    · intro seen tag hseen
      exact absurd (prefix_nil.1 hseen) (by simp)
  | append_singleton tags tag ih =>
    rw [keepsGroups_append, allFitting_append, ← ih]
    refine and_congr_right fun hkeeps => ?_
    have hgroup := (completeGroup_iff _ _).1 (hkeeps tags (prefix_refl tags))
    obtain ⟨hkeep, hclean⟩ := Bootstrapper.processTags_kept (b := { keep_media_ := true }) rfl
      (fun t ht => absurd ht not_mem_nil) tags
    rw [completeGroup_iff, Bootstrapper.processTags_append]
    exact Bootstrapper.processTag_group hkeep hclean hgroup tag

/-- An FLV tag that has learned its attributes. The moov tag is made before the tag becomes droppable. -/
def ofFlv (t : Flv.FlvTag) : MediaTag :=
  ⟨.flv, t.attributes_,
    ⟨t.timestamp_ms_, t.stream_id_, t.body_,
      t.avc_moov_.map fun moov => ⟨{ t.attributes_ with droppable := false }, t.timestamp_ms_, moov⟩⟩⟩

/-- An AVC keyframe in which a moov is found. -/
def keyframeWithMoov : MediaTag :=
  let data : Io.Bytes := [0x17, 0x01, 0, 0, 0, 0, 0, 0, 4, 0x65, 0x88, 0x80, 0x40] ++ List.replicate 26 0
  ofFlv (Flv.FlvTag.learnAttributes ⟨Attributes.none, 40, 0, .video (Flv.Video.ofData data), none⟩)

/-- The keyframe is not kept. -/
theorem keyframeWithMoov_dropped : ¬ KeepsGroups [keyframeWithMoov] := by
  intro h
  have hgroup := (completeGroup_iff _ _).1 (h [keyframeWithMoov] (prefix_refl _))
  have hkept : (Bootstrapper.processTags { keep_media_ := true } [keyframeWithMoov]).media_bootstrap_.length = 0 := by
    decide +kernel
  have hexpected : (groupOf [keyframeWithMoov]).length = 1 := by decide +kernel
  rw [hgroup, hexpected] at hkept
  exact Nat.one_ne_zero hkept

end Whispercast.Stream
