import Whispercast.Flv.TagSplitter
import Whispercast.Library.Run

/-!
# The media of a stream behind the splitter

A stream is a sequence of headers and tags with an end that is no tag. It comes in pieces of any size, and a splitter
with generic tags reads it until it says that the stream is over.

The tags that are held back while the media info is gathered are lost when the stream ends before, and are passed by
the media tag that comes when too many of them are held back. In every run without such a call the audio and video tags
of the stream are returned, each once and in their order.
-/

namespace Whispercast.Flv

open Library Io Amf Answer List Option

variable {Info Cue : Type}

/-! ## Streams -/

/-- What a part of a stream holds. -/
inductive Content where
  | header (h : FlvHeader)
  | tag (t : FlvTag)

/-- The tag, if it is an audio or video tag. -/
def FlvTag.media (t : FlvTag) : List FlvTag := if t.isMedia then [t] else []

/-- The audio or video tag. -/
def Content.media : Content → List FlvTag
  | header _ => []
  | tag t => t.media

/-- Whatever follows, the decoder takes exactly these bytes, and of a part of them it takes nothing. -/
def Content.Reads (flags : Flags) (bytes : Bytes) : Content → Prop
  | header h =>
    FlvTagSplitter.marked bytes = true ∧ (∀ rest, decodeHeader flags (bytes ++ rest) = (.ok h, rest)) ∧
      ∀ p, p <+: bytes → p.length < bytes.length → decodeHeader flags p = (.error (.status .noData), p)
  | tag t =>
    FlvTagSplitter.marked bytes = false ∧
      (∀ rest, ∃ cb, decodeTag flags (bytes ++ rest) = (.ok (.ok t cb), rest)) ∧
        ∀ p, p <+: bytes → p.length < bytes.length → decodeTag flags p = (.error (.status .noData), p)

/-- A header or a tag of a stream. -/
structure Part (flags : Flags) where
  bytes : Bytes
  content : Content
  long : 4 ≤ bytes.length
  reads : content.Reads flags bytes

/-- The end of a stream: the size of the last tag, or the beginning of a tag that is cut off. -/
structure Tail (flags : Flags) where
  bytes : Bytes
  unmarked : 4 ≤ bytes.length → FlvTagSplitter.marked bytes = false
  nothing : ∀ p, p <+: bytes → decodeTag flags p = (.error (.status .noData), p)

/-- The bytes of a stream. -/
def streamBytes {flags : Flags} (parts : List (Part flags)) (tail : Tail flags) : Bytes :=
  parts.flatMap Part.bytes ++ tail.bytes

/-- The audio and video tags of a stream. -/
def streamMedia {flags : Flags} (parts : List (Part flags)) : List FlvTag := parts.flatMap fun p => p.content.media

/-! ## Readers of a stream -/

/-- The audio or video tag. -/
def SplitTag.media : SplitTag Info Cue → List FlvTag
  | flv t => t.media
  | _ => []

/-- The audio or video tag that a call returns. -/
def Answer.media (a : Answer Info Cue) : List FlvTag := a.tag.toList.flatMap fun t => t.1.media

/-- The audio and video tags that calls return. -/
def returnedMedia (answers : List (Answer Info Cue)) : List FlvTag := answers.flatMap Answer.media

/-- The audio and video tags that are held back. -/
def FlvTagSplitter.heldMedia (s : FlvTagSplitter Info Cue) : List FlvTag :=
  s.tags_to_send_next_.flatMap fun t => t.1.media

/-- A splitter with a stream, of which a part is not read and a part has not come yet. -/
structure Session (Info Cue : Type) where
  splitter : FlvTagSplitter Info Cue
  unread : Bytes
  future : Bytes
  answers : List (Answer Info Cue)

/-- A call: so many bytes have come since the last one, and the end is announced or not. -/
structure Call where
  arrived : Nat
  is_eos : Bool

namespace Session

variable (util : MediaUtil Info Cue) (flags : Flags)

/-- A new splitter with generic tags. -/
def start (info : Info) (bytes : Bytes) : Session Info Cue :=
  ⟨{ generic_tags_ := true, media_info_ := info }, [], bytes, []⟩

/-- What has come before a call. -/
def receive (s : Session Info Cue) (call : Call) : Session Info Cue :=
  { s with unread := s.unread ++ s.future.take call.arrived, future := s.future.drop call.arrived }

/-- The end is announced when nothing is to come. -/
def atEos (s : Session Info Cue) (call : Call) : Bool := call.is_eos && (s.receive call).future.isEmpty

/-- A call of `GetNextTagInternal`. -/
def step (s : Session Info Cue) (call : Call) : Option (Session Info Cue) :=
  (s.splitter.getNextTagInternal util flags (s.receive call).unread (s.atEos call)).map fun r =>
    ⟨r.2.1, r.2.2, (s.receive call).future, s.answers ++ [r.1]⟩

/-- The last call has returned `READ_EOF`. -/
def Ended (s : Session Info Cue) : Prop := s.answers.getLast? = some ⟨.eof, none⟩

end Session

namespace FlvTagSplitter

/-- A media tag comes that does not complete what the media info needs, and too many tags are held back. -/
def GivesUp (s : FlvTagSplitter Info Cue) (tag : FlvTag) : Prop :=
  tag.isMedia = true ∧ s.first_metadata_.isSome = true ∧ (s.learnFirst tag).ready = none ∧
    kMediaInfoMaxWait < s.tags_to_send_next_.length

end FlvTagSplitter

/-- Nothing but the end of a stream. -/
def NothingLeft (flags : Flags) (ms : Bytes) : Prop :=
  ms.length < 4 ∨ FlvTagSplitter.marked ms = false ∧ decodeTag flags ms = (.error (.status .noData), ms)

/-- While the media info is gathered, the stream does not end with media tags held back, and the wait is not given up
by a media tag with others held back. -/
def Careful (flags : Flags) (s : Session Info Cue) (call : Call) : Prop :=
  s.splitter.media_info_extracted_ = false →
    (s.atEos call = true → NothingLeft flags (s.receive call).unread → s.splitter.heldMedia = []) ∧
    ∀ tag cb rest, FlvTagSplitter.marked (s.receive call).unread = false →
      decodeTag flags (s.receive call).unread = (.ok (.ok tag cb), rest) → s.splitter.GivesUp tag →
        ∀ t ∈ s.splitter.heldMedia, t = tag

/-! ## One tag -/

namespace FlvTagSplitter

variable {util : MediaUtil Info Cue} {s : FlvTagSplitter Info Cue} {tag : FlvTag}

/-- The media info can be extracted with this metadata. -/
def Extracts (util : MediaUtil Info Cue) (metadata : FlvTag) : Prop :=
  ∀ audio video info, (util.extractMediaInfoFromFlv metadata audio video info).1 = true

/-- A splitter in a run: nothing is held back before there is metadata, and the media info can be extracted with it. -/
structure Sound (util : MediaUtil Info Cue) (s : FlvTagSplitter Info Cue) : Prop where
  generic : s.generic_tags_ = true
  empty : s.first_metadata_ = none → s.media_info_extracted_ = false → s.tags_to_send_next_ = []
  extracts : ∀ m, s.first_metadata_ = some m → Extracts util m

theorem media_of_isMedia (h : tag.isMedia = true) : tag.media = [tag] := if_pos h

theorem media_of_not (h : tag.isMedia = false) : tag.media = [] := by simp [FlvTag.media, h]

theorem isMedia_of_isOnMetaData (h : tag.isOnMetaData = true) : tag.isMedia = false := by
  unfold FlvTag.isOnMetaData at h
  cases hbody : tag.body_ with
  | metadata m => simp [FlvTag.isMedia, hbody, Body.type]
  | audio a => simp [hbody] at h
  | video v => simp [hbody] at h

theorem type_of_not_isMedia (h : tag.isMedia = false) : tag.body_.type = .metadata := by
  simpa [FlvTag.isMedia] using h

@[simp] theorem heldMedia_hold : (s.hold tag).heldMedia = s.heldMedia ++ tag.media := by
  simp [heldMedia, hold, SplitTag.media]

/-- Cue points are no media. -/
@[simp] theorem heldMedia_holdCuePoints (util : MediaUtil Info Cue) (s : FlvTagSplitter Info Cue) (tag : FlvTag) :
     (s.holdCuePoints util tag).heldMedia = s.heldMedia := by
  unfold holdCuePoints
  split
  · split
    · simp [heldMedia, SplitTag.media]
    · rfl
  · rfl

theorem holdCuePoints_media (h : tag.isMedia = true) : s.holdCuePoints util tag = s := by
  refine if_neg fun hmeta => ?_
  rw [isMedia_of_isOnMetaData hmeta] at h
  cases h

/-- Only what is held back differs when cue points are. -/
theorem holdCuePoints_eq (util : MediaUtil Info Cue) (s : FlvTagSplitter Info Cue) (tag : FlvTag) :
     ∃ queue, s.holdCuePoints util tag = { s with tags_to_send_next_ := queue } := by
  unfold holdCuePoints
  split
  · split
    · exact ⟨_, rfl⟩
    · exact ⟨_, rfl⟩
  · exact ⟨_, rfl⟩

/-- What a call returns and what is held back behind it are what was held back and the tag, in this order unless the
wait is given up. -/
structure Takes (util : MediaUtil Info Cue) (s : FlvTagSplitter Info Cue) (tag : FlvTag)
    (r : Answer Info Cue × FlvTagSplitter Info Cue) : Prop where
  sound : r.2.Sound util
  goesOn : r.1.status ≠ .eof
  extracted : s.media_info_extracted_ = true → r.2.media_info_extracted_ = true
  inOrder : ¬ (s.media_info_extracted_ = false ∧ s.GivesUp tag) →
    r.1.media ++ r.2.heldMedia = s.heldMedia ++ tag.media
  passed : s.media_info_extracted_ = false → s.GivesUp tag →
    r.2.media_info_extracted_ = true ∧ r.1.media ++ r.2.heldMedia = tag.media ++ s.heldMedia

theorem isOnMetaData_of_media (h : tag.isMedia = true) : tag.isOnMetaData = false := by
  rw [Bool.eq_false_iff]
  intro hmeta
  rw [isMedia_of_isOnMetaData hmeta] at h
  cases h

/-- A media tag is held back while the media info is gathered. -/
theorem pass_waiting (hmedia : tag.isMedia = true) (hwait : s.media_info_extracted_ = false) :
    s.pass tag = (⟨.skip, none⟩, s.hold tag) := by
  simp [pass, isOnMetaData_of_media hmedia, hwait]

/-- A media tag is returned when the media info is extracted. -/
theorem pass_extracted (hmedia : tag.isMedia = true) (hdone : s.media_info_extracted_ = true) :
    s.pass tag = (⟨.ok, some (.flv tag, tag.timestamp_ms_)⟩, s) := by
  simp [pass, isOnMetaData_of_media hmedia, hdone]

/-- Where a tag that is no media is passed on, nothing happens to the media. -/
theorem Takes.pass_metadata {s₀ : FlvTagSplitter Info Cue} (hs : s.Sound util) (hnot : tag.isMedia = false)
    (hheld : s.heldMedia = s₀.heldMedia) (hfirst : s.first_metadata_ = none → s.media_info_extracted_ = true)
    (hdone : s₀.media_info_extracted_ = true → s.media_info_extracted_ = true) : Takes util s₀ tag (s.pass tag) := by
  have hgives : ¬ s₀.GivesUp tag := fun h => by
    rw [h.1] at hnot
    cases hnot
  have hmedia := media_of_not hnot
  unfold pass
  split
  · exact ⟨hs, by simp, hdone, fun _ => by simp [media, hheld, hmedia], fun _ h => absurd h hgives⟩
  · split
    · next hwait =>
      refine ⟨⟨hs.generic, fun hnone hfalse => ?_, hs.extracts⟩, by simp, hdone, fun _ => ?_, fun _ h => absurd h hgives⟩
      · exact absurd (hfirst hnone) (by simpa using hwait)
      · simp [media, hheld, hmedia]
    · exact ⟨hs, by simp, hdone, fun _ => by simp [media, SplitTag.media, hheld, hmedia],
        fun _ h => absurd h hgives⟩

/-- The extraction succeeds; the tag is sent later, unless it is the first metadata. -/
theorem extract_eq (tag : FlvTag) {metadata : FlvTag} (hm : Extracts util metadata) (hgeneric : s.generic_tags_ = true)
    (masked : Bool) : ∃ info, s.extract util tag masked metadata =
      (⟨.ok, some (.mediaInfo info, 0)⟩,
        if masked then { s with media_info_ := info, media_info_extracted_ := true }
        else hold { s with media_info_ := info, media_info_extracted_ := true } tag) := by
  have hok := hm s.first_audio_ s.first_video_ s.media_info_
  refine ⟨(util.extractMediaInfoFromFlv metadata s.first_audio_ s.first_video_ s.media_info_).2, ?_⟩
  unfold extract
  split
  · next info heq =>
    rw [heq] at hok
    cases hok
  · next info heq =>
    rw [heq]
    cases masked with
    | true => simp [hgeneric]
    | false => simp

/-- Only the first tags differ behind `learnFirst`. -/
theorem learnFirst_held : (s.learnFirst tag).heldMedia = s.heldMedia := by
  unfold learnFirst
  split <;> rfl

theorem learnFirst_fields (s : FlvTagSplitter Info Cue) (tag : FlvTag) : (s.learnFirst tag).generic_tags_ = s.generic_tags_ ∧
    (s.learnFirst tag).media_info_extracted_ = s.media_info_extracted_ ∧
    (s.learnFirst tag).tags_to_send_next_ = s.tags_to_send_next_ := by
  unfold learnFirst
  split <;> exact ⟨rfl, rfl, rfl⟩

/-- A media tag is no metadata. -/
theorem learnFirst_media (h : tag.isMedia = true) : (s.learnFirst tag).first_metadata_ = s.first_metadata_ := by
  unfold learnFirst
  split
  · rfl
  · rfl
  · next htype => simp [FlvTag.isMedia, htype] at h

theorem learnFirst_metadata (h : tag.isMedia = false) :
    (s.learnFirst tag).first_metadata_ = (s.first_metadata_ <|> some tag) := by
  unfold learnFirst
  rw [type_of_not_isMedia h]

theorem ready_eq_some {m : FlvTag} (h : s.ready = some m) : s.first_metadata_ = some m := by
  unfold ready at h
  split at h
  · exact h
  · cases h

theorem giveUp_fields (s : FlvTagSplitter Info Cue) : s.giveUp.generic_tags_ = s.generic_tags_ ∧ s.giveUp.first_metadata_ = s.first_metadata_ ∧
    s.giveUp.heldMedia = s.heldMedia := by
  unfold giveUp
  split <;> exact ⟨rfl, rfl, rfl⟩

theorem gather_of_ready {metadata : FlvTag} (h : (s.learnFirst tag).ready = some metadata) : s.gather util tag =
    (s.learnFirst tag).extract util tag (s.first_metadata_.isNone && tag.body_.type == .metadata) metadata := by
  simp [gather, h]

theorem gather_of_not_ready (h : (s.learnFirst tag).ready = none) :
    s.gather util tag = (s.learnFirst tag).giveUp.pass tag := by
  simp [gather, h]

theorem Sound.learnFirst_media (hs : s.Sound util) (hmedia : tag.isMedia = true)
    (hsome : s.first_metadata_.isSome = true) : (s.learnFirst tag).Sound util := by
  refine ⟨(learnFirst_fields s tag).1.trans hs.generic, fun hnone => ?_, ?_⟩
  · rw [FlvTagSplitter.learnFirst_media hmedia] at hnone
    rw [hnone] at hsome
    cases hsome
  · rw [FlvTagSplitter.learnFirst_media hmedia]
    exact hs.extracts

/-- A media tag that comes while the media info is gathered. -/
theorem gather_media (hs : s.Sound util) (hmedia : tag.isMedia = true) (hwait : s.media_info_extracted_ = false)
    (hsome : s.first_metadata_.isSome = true) : Takes util s tag (s.gather util tag) := by
  obtain ⟨_, hextracted, hqueue⟩ := learnFirst_fields s tag
  have hs' := hs.learnFirst_media hmedia hsome
  have hnever : (s.learnFirst tag).first_metadata_ ≠ none := by
    intro hnone
    rw [learnFirst_media hmedia] at hnone
    rw [hnone] at hsome
    cases hsome
  have hneeds : ∀ s' : FlvTagSplitter Info Cue, s'.first_metadata_ = (s.learnFirst tag).first_metadata_ →
      s'.generic_tags_ = true → s'.Sound util := fun s' hfirst hg =>
    ⟨hg, fun hnone => absurd (hfirst.symm.trans hnone) hnever, by rw [hfirst]; exact hs'.extracts⟩
  cases hready : (s.learnFirst tag).ready with
  | some metadata =>
    -- The held tags and then this one are sent behind the media info.
    have hm := hs'.extracts metadata (ready_eq_some hready)
    obtain ⟨_, hextract⟩ := extract_eq tag hm hs'.generic
      (s.first_metadata_.isNone && tag.body_.type == .metadata)
    have hmask : (s.first_metadata_.isNone && tag.body_.type == .metadata) = false := by
      rw [isNone_eq_false_iff.2 hsome, Bool.false_and]
    rw [hmask, if_neg Bool.false_ne_true] at hextract
    rw [gather_of_ready hready, hmask, hextract]
    refine ⟨hneeds _ rfl hs'.generic, by simp, fun _ => rfl, fun _ => ?_, fun _ hgives => ?_⟩
    · rw [heldMedia_hold]
      exact congrArg (· ++ tag.media) learnFirst_held
    · exact absurd (hready.symm.trans hgives.2.2.1) (by simp)
  | none =>
    rw [gather_of_not_ready hready]
    unfold giveUp
    split
    · next hmany =>
      rw [pass_extracted hmedia rfl]
      have hgives : s.GivesUp tag := ⟨hmedia, hsome, hready, by rwa [hqueue] at hmany⟩
      refine ⟨hneeds _ rfl hs'.generic, by simp, fun _ => rfl, fun hnot => absurd ⟨hwait, hgives⟩ hnot, fun _ _ => ?_⟩
      refine ⟨rfl, ?_⟩
      simp only [media, SplitTag.media, toList_some, flatMap_cons, flatMap_nil, append_nil]
      exact congrArg (tag.media ++ ·) learnFirst_held
    · next hfew =>
      rw [pass_waiting hmedia (hextracted.trans hwait)]
      refine ⟨hneeds _ rfl hs'.generic, by simp, fun h => absurd h (by simp [hwait]), fun _ => ?_, fun _ hgives => ?_⟩
      · rw [heldMedia_hold, learnFirst_held]
        rfl
      · exact absurd hgives.2.2.2 (by rwa [hqueue] at hfew)

/-- A metadata tag that comes while the media info is gathered. -/
theorem gather_metadata {s₀ : FlvTagSplitter Info Cue} (hs : s₀.Sound util) (hnot : tag.isMedia = false)
    (hm : Extracts util tag) (hheld : s.heldMedia = s₀.heldMedia) (hgeneric : s.generic_tags_ = s₀.generic_tags_)
    (hfirst : s.first_metadata_ = s₀.first_metadata_) (hwait : s₀.media_info_extracted_ = false) :
    Takes util s₀ tag (s.gather util tag) := by
  have hgives : ¬ s₀.GivesUp tag := fun h => by
    rw [h.1] at hnot
    cases hnot
  have hmeta : ∀ m, (s.learnFirst tag).first_metadata_ = some m → Extracts util m := by
    intro m h
    rw [learnFirst_metadata hnot, hfirst] at h
    cases hold : s₀.first_metadata_ with
    | none =>
      rw [hold] at h
      cases h
      exact hm
    | some m' =>
      rw [hold] at h
      cases h
      exact hs.extracts _ hold
  have hsome : (s.learnFirst tag).first_metadata_ ≠ none := by
    rw [learnFirst_metadata hnot]
    cases s.first_metadata_ <;> simp
  have hsound : ∀ s' : FlvTagSplitter Info Cue, s'.first_metadata_ = (s.learnFirst tag).first_metadata_ →
      s'.generic_tags_ = s.generic_tags_ → s'.Sound util := fun s' h hg =>
    ⟨hg.trans (hgeneric.trans hs.generic), fun hnone => absurd (h.symm.trans hnone) hsome, by rwa [h]⟩
  cases hready : (s.learnFirst tag).ready with
  | some metadata =>
    obtain ⟨_, hextract⟩ := extract_eq tag (hmeta metadata (ready_eq_some hready))
      ((learnFirst_fields s tag).1.trans (hgeneric.trans hs.generic))
      (s.first_metadata_.isNone && tag.body_.type == .metadata)
    rw [gather_of_ready hready, hextract]
    refine ⟨?_, by simp, fun h => absurd h (by simp [hwait]), fun _ => ?_, fun _ h => absurd h hgives⟩
    · split
      · exact hsound _ rfl (learnFirst_fields s tag).1
      · exact hsound _ rfl (learnFirst_fields s tag).1
    · rw [media_of_not hnot, append_nil]
      split
      · exact learnFirst_held.trans hheld
      · rw [heldMedia_hold, media_of_not hnot, append_nil]
        exact learnFirst_held.trans hheld
  | none =>
    rw [gather_of_not_ready hready]
    obtain ⟨hg, hf, hh⟩ := giveUp_fields (s.learnFirst tag)
    exact Takes.pass_metadata (hsound _ hf (hg.trans (learnFirst_fields s tag).1)) hnot
      (hh.trans (learnFirst_held.trans hheld)) (fun hnone => absurd (hf.symm.trans hnone) hsome)
      (fun h => absurd h (by simp [hwait]))

/-- A media tag that comes before any metadata. -/
theorem takeTag_media_early (hmedia : tag.isMedia = true) (hwait : s.media_info_extracted_ = false)
    (hfirst : s.first_metadata_ = none) :
    s.takeTag util tag = pass { s with media_info_extracted_ := true } tag := by
  simp [takeTag, holdCuePoints_media hmedia, hwait, hfirst, hmedia]

theorem takeTag_media_waiting (hmedia : tag.isMedia = true) (hwait : s.media_info_extracted_ = false)
    (hfirst : s.first_metadata_.isSome = true) : s.takeTag util tag = s.gather util tag := by
  simp [takeTag, holdCuePoints_media hmedia, hwait, isNone_eq_false_iff.2 hfirst]

theorem takeTag_media_extracted (hmedia : tag.isMedia = true) (hdone : s.media_info_extracted_ = true) :
    s.takeTag util tag = s.pass tag := by
  simp [takeTag, holdCuePoints_media hmedia, hdone]

theorem takeTag_metadata (hnot : tag.isMedia = false) : s.takeTag util tag =
    if !(s.holdCuePoints util tag).media_info_extracted_ then (s.holdCuePoints util tag).gather util tag
    else (s.holdCuePoints util tag).pass tag := by
  simp [takeTag, hnot]

/-- A tag that is taken when nothing is to be sent before it. -/
theorem takeTag_takes (hs : s.Sound util) (hm : tag.isMedia = false → Extracts util tag)
    (hqueue : s.media_info_extracted_ = true → s.tags_to_send_next_ = []) : Takes util s tag (s.takeTag util tag) := by
  rcases Bool.eq_false_or_eq_true tag.isMedia with hmedia | hmedia
  · rcases Bool.eq_false_or_eq_true s.media_info_extracted_ with hdone | hwait
    · -- The tag is returned at once.
      have hheld : s.heldMedia = [] := by simp [heldMedia, hqueue hdone]
      rw [takeTag_media_extracted hmedia hdone, pass_extracted hmedia hdone]
      exact ⟨hs, by simp, fun _ => hdone, fun _ => by simp [media, SplitTag.media, hheld],
        fun h => absurd h (by simp [hdone])⟩
    · rcases eq_none_or_eq_some s.first_metadata_ with hfirst | ⟨m, hfirst⟩
      · have hheld : s.heldMedia = [] := by simp [heldMedia, hs.empty hfirst hwait]
        rw [takeTag_media_early hmedia hwait hfirst, pass_extracted hmedia rfl]
        refine ⟨⟨hs.generic, fun _ h => absurd h (by simp), hs.extracts⟩, by simp, fun _ => rfl, fun _ => ?_,
          fun _ hgives => ?_⟩
        · rw [hheld]
          simp [media, SplitTag.media, heldMedia, hs.empty hfirst hwait]
        · exact absurd hgives.2.1 (by simp [hfirst])
      · have hsome : s.first_metadata_.isSome = true := by simp [hfirst]
        rw [takeTag_media_waiting hmedia hwait hsome]
        exact gather_media hs hmedia hwait hsome
  · obtain ⟨_, hcues⟩ := holdCuePoints_eq util s tag
    have hheld := heldMedia_holdCuePoints util s tag
    rw [takeTag_metadata hmedia]
    rw [hcues] at hheld ⊢
    rcases Bool.eq_false_or_eq_true s.media_info_extracted_ with hdone | hwait
    · rw [if_neg (by simp [hdone])]
      exact Takes.pass_metadata ⟨hs.generic, fun _ h => absurd h (by simp [hdone]), hs.extracts⟩ hmedia hheld
        (fun _ => hdone) (fun _ => hdone)
    · rw [if_pos (by simp [hwait])]
      exact gather_metadata hs hmedia (hm hmedia) hheld rfl rfl hwait

theorem pass_length : (s.pass tag).2.tags_to_send_next_.length ≤ s.tags_to_send_next_.length + 1 := by
  unfold pass
  split
  · exact Nat.le_succ _
  · split
    · simp [hold]
    · exact Nat.le_succ _

theorem gather_length : (s.gather util tag).2.tags_to_send_next_.length ≤ s.tags_to_send_next_.length + 1 := by
  have hqueue := (learnFirst_fields s tag).2.2
  cases hready : (s.learnFirst tag).ready with
  | some metadata =>
    rw [gather_of_ready hready, extract]
    split
    · exact hqueue ▸ Nat.le_succ _
    · dsimp only
      split
      · simp [hold, hqueue]
      · exact hqueue ▸ Nat.le_succ _
  | none =>
    rw [gather_of_not_ready hready]
    refine Nat.le_trans pass_length (Nat.succ_le_succ ?_)
    unfold giveUp
    split <;> exact (congrArg length hqueue).le

/-- A tag and its cue points may be held back. -/
theorem takeTag_length : (s.takeTag util tag).2.tags_to_send_next_.length ≤ s.tags_to_send_next_.length + 2 := by
  have hcues : (s.holdCuePoints util tag).tags_to_send_next_.length ≤ s.tags_to_send_next_.length + 1 := by
    unfold holdCuePoints
    split
    · split
      · simp
      · exact Nat.le_succ _
    · exact Nat.le_succ _
  have hrest : ∀ s' : FlvTagSplitter Info Cue,
      s'.tags_to_send_next_ = (s.holdCuePoints util tag).tags_to_send_next_ →
        (if !s'.media_info_extracted_ then s'.gather util tag else s'.pass tag).2.tags_to_send_next_.length ≤
          s.tags_to_send_next_.length + 2 := by
    intro s' hqueue
    have hcues' := Nat.succ_le_succ (hqueue ▸ hcues)
    split
    · exact Nat.le_trans gather_length hcues'
    · exact Nat.le_trans pass_length hcues'
  refine hrest _ ?_
  split <;> rfl

/-! ## What is read -/

variable {flags : Flags} {ms : Bytes} {is_eos : Bool}

/-- Four bytes say whether a header follows. -/
theorem marked_of_initial {p b : Bytes} (hp : p <+: b) (hlong : 4 ≤ p.length) : marked p = marked b := by
  obtain ⟨-, rfl⟩ := hp
  rw [marked, marked, take_append_of_le_length hlong]

/-- Tags that are held back behind the media info are sent first. -/
theorem getNextTagInternal_pop {first : SplitTag Info Cue × Int} {others : List (SplitTag Info Cue × Int)}
    (hdone : s.media_info_extracted_ = true) (hqueue : s.tags_to_send_next_ = first :: others) :
    s.getNextTagInternal util flags ms is_eos =
      some (⟨.ok, some first⟩, { s with tags_to_send_next_ := others }, ms) := by
  simp [getNextTagInternal, hdone, hqueue]

section

variable (hqueue : s.media_info_extracted_ = true → s.tags_to_send_next_ = [])

include hqueue

/-- With nothing to be sent the stream is read. -/
theorem getNextTagInternal_read : s.getNextTagInternal util flags ms is_eos =
      if ms.length < 4 then some (⟨if is_eos then .eof else .noData, none⟩, s, ms)
      else if marked ms then s.nextHeader flags ms
      else s.nextTag util flags ms is_eos := by
  unfold getNextTagInternal
  split
  · next hcons hdone =>
    rw [hqueue hdone] at hcons
    cases hcons
  · rfl

theorem getNextTagInternal_nothing (h : NothingLeft flags ms) :
    s.getNextTagInternal util flags ms is_eos = some (⟨if is_eos then .eof else .noData, none⟩, s, ms) := by
  rw [getNextTagInternal_read hqueue]
  rcases h with hshort | ⟨hmarked, hdecode⟩
  · rw [if_pos hshort]
  · split
    · rfl
    · rw [hmarked, if_neg Bool.false_ne_true, nextTag, hdecode]
      cases is_eos <;> rfl

/-- A part of a header or of a tag waits for the rest. -/
theorem getNextTagInternal_part {p : Part flags} (hp : ms <+: p.bytes) (hlt : ms.length < p.bytes.length) :
    s.getNextTagInternal util flags ms false = some (⟨.noData, none⟩, s, ms) := by
  rw [getNextTagInternal_read hqueue]
  split
  · rfl
  · next hlong =>
    have hmarked := marked_of_initial hp (Nat.le_of_not_lt hlong)
    have hreads := p.reads
    cases hcontent : p.content with
    | header h =>
      rw [hcontent] at hreads
      obtain ⟨hmark, -, hpart⟩ := hreads
      rw [hmarked, hmark, if_pos rfl, nextHeader, hpart ms hp hlt]
    | tag t =>
      rw [hcontent] at hreads
      obtain ⟨hmark, -, hpart⟩ := hreads
      rw [hmarked, hmark, if_neg Bool.false_ne_true, nextTag, hpart ms hp hlt]
      rfl

theorem getNextTagInternal_header {p : Part flags} {h : FlvHeader} {rest : Bytes} (hgeneric : s.generic_tags_ = true)
    (hcontent : p.content = .header h) :
    s.getNextTagInternal util flags (p.bytes ++ rest) is_eos =
      some (⟨.skip, none⟩, { s with has_audio_ := h.has_audio, has_video_ := h.has_video }, rest) := by
  have hreads := p.reads
  rw [hcontent] at hreads
  obtain ⟨hmark, hwhole, -⟩ := hreads
  have hlong := p.long
  rw [getNextTagInternal_read hqueue, if_neg (by rw [length_append]; omega),
    ← marked_of_initial (prefix_append p.bytes rest) hlong, hmark, if_pos rfl, nextHeader, hwhole]
  simp [hgeneric]

theorem getNextTagInternal_tag {p : Part flags} {t : FlvTag} {rest : Bytes} (hgeneric : s.generic_tags_ = true)
    (hcontent : p.content = .tag t) :
    s.getNextTagInternal util flags (p.bytes ++ rest) is_eos =
      some ((s.takeTag util t).1, (s.takeTag util t).2, rest) := by
  have hreads := p.reads
  rw [hcontent] at hreads
  obtain ⟨hmark, hwhole, -⟩ := hreads
  obtain ⟨_, hdecode⟩ := hwhole rest
  have hlong := p.long
  rw [getNextTagInternal_read hqueue, if_neg (by rw [length_append]; omega),
    ← marked_of_initial (prefix_append p.bytes rest) hlong, hmark, if_neg Bool.false_ne_true, nextTag, hdecode]
  simp [hgeneric]

end

end FlvTagSplitter

/-! ## One call -/

namespace Session

open FlvTagSplitter

variable {util : MediaUtil Info Cue} {flags : Flags} {tail : Tail flags} {rest : List (Part flags)}
variable {order : List FlvTag} {s s' t : Session Info Cue} {call : Call}

/-- A session before the parts `rest` of its stream: what was returned, what is held back and what is to come are the
tags in `order`. -/
structure Keeps (util : MediaUtil Info Cue) (tail : Tail flags) (rest : List (Part flags)) (order : List FlvTag)
    (s : Session Info Cue) : Prop where
  sound : s.splitter.Sound util
  bytes : s.unread ++ s.future = streamBytes rest tail
  metadata : ∀ p ∈ rest, ∀ t, p.content = .tag t → t.isMedia = false → Extracts util t
  media : returnedMedia s.answers ++ (s.splitter.heldMedia ++ streamMedia rest) = order

/-- Nothing is held back, and nothing is left of the stream but its end. -/
def Over (rest : List (Part flags)) (s : Session Info Cue) : Prop := s.splitter.heldMedia = [] ∧ rest = []

/-- What is left to do. -/
def size (s : Session Info Cue) : Nat := s.unread.length + s.future.length + s.splitter.tags_to_send_next_.length

/-- With the end announced, a call says that the stream is over, or there is less left to do. -/
def Progress (s : Session Info Cue) (call : Call) (s' : Session Info Cue) : Prop :=
  s.atEos call = true → s'.Ended ∨ s'.size < s.size

theorem received_bytes (hbytes : s.unread ++ s.future = streamBytes rest tail) (call : Call) :
    (s.receive call).unread ++ (s.receive call).future = streamBytes rest tail := by
  rw [receive, append_assoc, take_append_drop]
  exact hbytes

theorem received_length (s : Session Info Cue) (call : Call) :
    (s.receive call).unread.length + (s.receive call).future.length = s.unread.length + s.future.length := by
  rw [receive, length_append, Nat.add_assoc, ← length_append, take_append_drop]

theorem returnedMedia_concat (answers : List (Answer Info Cue)) (a : Answer Info Cue) :
    returnedMedia (answers ++ [a]) = returnedMedia answers ++ a.media := by
  simp [returnedMedia]

variable {left : Bytes}

theorem step_eq {a : Answer Info Cue} {s₁ : FlvTagSplitter Info Cue}
    (h : s.splitter.getNextTagInternal util flags (s.receive call).unread (s.atEos call) = some (a, s₁, left)) :
    s.step util flags call = some ⟨s₁, left, (s.receive call).future, s.answers ++ [a]⟩ := by
  rw [step, h, map_some]

theorem not_ended {s₁ : FlvTagSplitter Info Cue} {future : Bytes} {answers : List (Answer Info Cue)}
    {a : Answer Info Cue} (h : a.status ≠ .eof) : ¬ Ended ⟨s₁, left, future, answers ++ [a]⟩ := by
  intro hended
  rw [Ended, getLast?_append_of_ne_nil _ (cons_ne_nil _ _), getLast?_singleton] at hended
  cases hended
  exact h rfl

/-- Nothing of a stream is left but its end. -/
theorem nothingLeft_of_end (hbytes : s.unread ++ s.future = streamBytes [] tail) (call : Call) :
    NothingLeft flags (s.receive call).unread := by
  have hpre : (s.receive call).unread <+: tail.bytes := ⟨_, received_bytes hbytes call⟩
  rcases Nat.lt_or_ge (s.receive call).unread.length 4 with hshort | hlong
  · exact .inl hshort
  · refine .inr ⟨?_, tail.nothing _ hpre⟩
    rw [marked_of_initial hpre hlong]
    exact tail.unmarked (Nat.le_trans hlong hpre.length_le)

/-- Where the media info is extracted, there is nothing to be careful about. -/
theorem careful_of_extracted (h : s.splitter.media_info_extracted_ = true) : Careful flags s call := by
  intro hwait
  rw [h] at hwait
  cases hwait

/-- What a call does to a session in a run. -/
inductive Called (util : MediaUtil Info Cue) (tail : Tail flags) (order : List FlvTag) (s : Session Info Cue)
    (call : Call) (s' : Session Info Cue) : Prop where
  /-- The order of the tags is kept. -/
  | kept (rest : List (Part flags)) (hkeeps : Keeps util tail rest order s') (hover : s'.Ended → Over rest s')
      (hcareful : Careful flags s call)
      (hdone : s.splitter.media_info_extracted_ = true → s'.splitter.media_info_extracted_ = true)
  /-- The stream ends with tags held back. -/
  | lost (hcareless : ¬ Careful flags s call) (hwait : s.splitter.media_info_extracted_ = false)
      (hbytes : s.unread ++ s.future = streamBytes [] tail) (hheld : s.splitter.heldMedia ≠ [])
      (hkeeps : Keeps util tail [] order s') (hmedia : returnedMedia s.answers ++ s.splitter.heldMedia = order)
  /-- A tag passes those that are held back. -/
  | passed (hcareless : ¬ Careful flags s call) (rest : List (Part flags)) (order' : List FlvTag)
      (hkeeps : Keeps util tail rest order' s') (hover : s'.Ended → Over rest s') (hne : order' ≠ order)
      (hdone : s'.splitter.media_info_extracted_ = true)

/-- A call that sends a tag that was held back. -/
theorem called_pop (hs : Keeps util tail rest order s) {first : SplitTag Info Cue × Int}
    {others : List (SplitTag Info Cue × Int)} (hdone : s.splitter.media_info_extracted_ = true)
    (hqueue : s.splitter.tags_to_send_next_ = first :: others) :
    ∃ s', s.step util flags call = some s' ∧ Called util tail order s call s' ∧ Progress s call s' := by
  refine ⟨_, step_eq (getNextTagInternal_pop hdone hqueue), .kept rest ⟨?_, ?_, hs.metadata, ?_⟩ ?_
    (careful_of_extracted hdone) fun _ => hdone, fun _ => .inr ?_⟩
  · refine ⟨hs.sound.generic, fun _ hwait => ?_, hs.sound.extracts⟩
    rw [show _ = true from hdone] at hwait
    cases hwait
  · exact received_bytes hs.bytes call
  · have hheld : s.splitter.heldMedia = first.1.media ++ others.flatMap fun t => t.1.media := by
      simp [heldMedia, hqueue]
    rw [returnedMedia_concat, ← hs.media, hheld]
    simp [media, heldMedia]
  · exact fun h => absurd h (not_ended (by simp))
  · rw [size, size, ← received_length s call, hqueue]
    exact Nat.lt_succ_self _

/-- A call at the end of the stream. -/
theorem called_end (hs : Keeps util tail [] order s)
    (hqueue : s.splitter.media_info_extracted_ = true → s.splitter.tags_to_send_next_ = []) :
    ∃ s', s.step util flags call = some s' ∧ Called util tail order s call s' ∧ Progress s call s' := by
  have hleft := nothingLeft_of_end hs.bytes call
  have hdecode : decodeTag flags (s.receive call).unread = (.error (.status .noData), (s.receive call).unread) :=
    tail.nothing _ ⟨_, received_bytes hs.bytes call⟩
  have hmedia := hs.media
  rw [show streamMedia ([] : List (Part flags)) = [] from rfl, append_nil] at hmedia
  have hkeeps : Keeps util tail [] order ⟨s.splitter, (s.receive call).unread, (s.receive call).future,
      s.answers ++ [⟨if s.atEos call then .eof else .noData, none⟩]⟩ := by
    refine ⟨hs.sound, received_bytes hs.bytes call, hs.metadata, ?_⟩
    rw [returnedMedia_concat, ← hs.media]
    simp [media]
  refine ⟨_, step_eq (getNextTagInternal_nothing hqueue hleft), ?_, fun heos => .inl (by simp [Ended, heos])⟩
  by_cases hcareful : Careful flags s call
  · refine .kept [] hkeeps ?_ hcareful id
    · intro hended
      refine ⟨?_, rfl⟩
      rcases Bool.eq_false_or_eq_true s.splitter.media_info_extracted_ with hdone | hwait
      · simp [heldMedia, hqueue hdone]
      · rcases Bool.eq_false_or_eq_true (s.atEos call) with heos | hmore
        · exact (hcareful hwait).1 heos hleft
        · exact absurd hended (not_ended (by simp [hmore]))
  · have hcareless := hcareful
    simp only [Careful, Classical.not_imp] at hcareful
    obtain ⟨hwait, hboth⟩ := hcareful
    refine .lost hcareless hwait hs.bytes (fun hnone => hboth ⟨fun _ _ => hnone, fun tag cb left _ hok => ?_⟩) hkeeps hmedia
    rw [hdecode] at hok
    cases hok

/-- A call before a part of which some bytes have not come. -/
theorem called_part {p : Part flags} (hs : Keeps util tail (p :: rest) order s)
    (hqueue : s.splitter.media_info_extracted_ = true → s.splitter.tags_to_send_next_ = [])
    (hp : (s.receive call).unread <+: p.bytes) (hlt : (s.receive call).unread.length < p.bytes.length) :
    ∃ s', s.step util flags call = some s' ∧ Called util tail order s call s' ∧ Progress s call s' := by
  have hbytes := received_bytes hs.bytes call
  -- The rest of the part is to come, so the end is not announced.
  have hmore : (s.receive call).future ≠ [] := by
    intro hnone
    have hlen := congrArg length hbytes
    rw [hnone, append_nil, streamBytes, flatMap_cons, length_append, length_append] at hlen
    omega
  have heos : s.atEos call = false := by simp [atEos, hmore]
  have hnext : s.splitter.getNextTagInternal util flags (s.receive call).unread false =
      some (⟨.noData, none⟩, s.splitter, (s.receive call).unread) := getNextTagInternal_part hqueue hp hlt
  rw [← heos] at hnext
  refine ⟨_, step_eq hnext, .kept (p :: rest) ⟨hs.sound, hbytes, hs.metadata, ?_⟩ ?_ ?_ id,
    fun h => absurd h (by simp [heos])⟩
  · rw [returnedMedia_concat, ← hs.media]
    simp [media]
  · exact fun h => absurd h (not_ended (by simp))
  · refine fun _ => ⟨fun h => absurd h (by simp [heos]), fun tag cb left hunmarked hok _ => ?_⟩
    have hlong : 4 ≤ (s.receive call).unread.length := by
      refine Nat.le_of_not_lt fun hshort => ?_
      rw [decodeTag_of_short (Nat.lt_trans hshort (by decide))] at hok
      cases hok
    have hreads := p.reads
    cases hcontent : p.content with
    | header h =>
      rw [hcontent] at hreads
      rw [marked_of_initial hp hlong, hreads.1] at hunmarked
      cases hunmarked
    | tag u =>
      rw [hcontent] at hreads
      rw [hreads.2.2 _ hp hlt] at hok
      cases hok

/-- A call before a header. -/
theorem called_header {p : Part flags} {h : FlvHeader} (hs : Keeps util tail (p :: rest) order s)
    (hqueue : s.splitter.media_info_extracted_ = true → s.splitter.tags_to_send_next_ = [])
    (hcontent : p.content = .header h) (hunread : (s.receive call).unread = p.bytes ++ left)
    (hleft : left ++ (s.receive call).future = streamBytes rest tail) :
    ∃ s', s.step util flags call = some s' ∧ Called util tail order s call s' ∧ Progress s call s' := by
  have hnext : s.splitter.getNextTagInternal util flags (p.bytes ++ left) (s.atEos call) =
      some (⟨.skip, none⟩, { s.splitter with has_audio_ := h.has_audio, has_video_ := h.has_video }, left) :=
    getNextTagInternal_header hqueue hs.sound.generic hcontent
  rw [← hunread] at hnext
  have hmark : marked (s.receive call).unread = true := by
    have hreads := p.reads
    rw [hcontent] at hreads
    rw [hunread, ← marked_of_initial (prefix_append p.bytes left) p.long]
    exact hreads.1
  refine ⟨_, step_eq hnext, .kept rest ⟨⟨hs.sound.generic, hs.sound.empty, hs.sound.extracts⟩, hleft,
    fun q hq => hs.metadata q (mem_cons_of_mem _ hq), ?_⟩ ?_ ?_ id, fun _ => .inr ?_⟩
  · have hnone : p.content.media = [] := by rw [hcontent]; rfl
    rw [returnedMedia_concat, ← hs.media]
    simp [media, streamMedia, hnone, heldMedia]
  · exact fun h => absurd h (not_ended (by simp))
  · refine fun _ => ⟨fun _ hnothing => ?_, fun tag cb rest hunmarked => absurd hmark (by simp [hunmarked])⟩
    rcases hnothing with hshort | ⟨hunmarked, -⟩
    · have hlong := p.long
      rw [hunread, length_append] at hshort
      omega
    · rw [hmark] at hunmarked
      cases hunmarked
  · have hlong := p.long
    rw [size, size, ← received_length s call, hunread, length_append]
    dsimp only
    omega

/-- A tag in front of others and behind them. -/
theorem cons_eq_concat {held : List FlvTag} {tag : FlvTag} : tag :: held = held ++ [tag] ↔ ∀ t ∈ held, t = tag := by
  induction held with
  | nil => simp
  | cons t held ih =>
    rw [cons_append, cons_eq_cons, forall_mem_cons]
    constructor
    · rintro ⟨rfl, h⟩
      exact ⟨rfl, ih.1 h⟩
    · rintro ⟨rfl, h⟩
      exact ⟨rfl, ih.2 h⟩

/-- A call before a tag, with nothing to be sent before. -/
theorem called_tag {p : Part flags} {tag : FlvTag} (hs : Keeps util tail (p :: rest) order s)
    (hqueue : s.splitter.media_info_extracted_ = true → s.splitter.tags_to_send_next_ = [])
    (hcontent : p.content = .tag tag) (hunread : (s.receive call).unread = p.bytes ++ left)
    (hleft : left ++ (s.receive call).future = streamBytes rest tail) :
    ∃ s', s.step util flags call = some s' ∧ Called util tail order s call s' ∧ Progress s call s' := by
  have hnext : s.splitter.getNextTagInternal util flags (p.bytes ++ left) (s.atEos call) =
      some ((s.splitter.takeTag util tag).1, (s.splitter.takeTag util tag).2, left) :=
    getNextTagInternal_tag hqueue hs.sound.generic hcontent
  rw [← hunread] at hnext
  have htakes := takeTag_takes hs.sound (hs.metadata p mem_cons_self tag hcontent) hqueue
  have hreads := p.reads
  rw [hcontent] at hreads
  obtain ⟨cb, hdecode⟩ := hreads.2.1 left
  have hmedia : order = returnedMedia s.answers ++ ((s.splitter.heldMedia ++ tag.media) ++ streamMedia rest) := by
    rw [← hs.media]
    simp [streamMedia, hcontent, Content.media]
  have hkeeps : ∀ tags : List FlvTag, (s.splitter.takeTag util tag).1.media ++ (s.splitter.takeTag util tag).2.heldMedia = tags →
      Keeps util tail rest (returnedMedia s.answers ++ (tags ++ streamMedia rest))
        ⟨(s.splitter.takeTag util tag).2, left, (s.receive call).future,
          s.answers ++ [(s.splitter.takeTag util tag).1]⟩ := by
    intro tags htags
    refine ⟨htakes.sound, hleft, fun q hq => hs.metadata q (mem_cons_of_mem _ hq), ?_⟩
    rw [returnedMedia_concat, ← htags]
    simp only [append_assoc]
  -- The end is not announced to a tag that has come.
  have hsome : ¬ NothingLeft flags (s.receive call).unread := by
    rw [hunread]
    rintro (hshort | ⟨-, hnone⟩)
    · have hlong := p.long
      rw [length_append] at hshort
      omega
    · rw [hdecode] at hnone
      cases hnone
  have hover : Ended ⟨(s.splitter.takeTag util tag).2, left, (s.receive call).future,
      s.answers ++ [(s.splitter.takeTag util tag).1]⟩ → Over rest ⟨(s.splitter.takeTag util tag).2, left,
        (s.receive call).future, s.answers ++ [(s.splitter.takeTag util tag).1]⟩ :=
    fun h => absurd h (not_ended htakes.goesOn)
  refine ⟨_, step_eq hnext, ?_, fun _ => .inr ?_⟩
  rotate_left
  · have hlong := p.long
    have hgrows : (s.splitter.takeTag util tag).2.tags_to_send_next_.length ≤ s.splitter.tags_to_send_next_.length + 2 :=
      takeTag_length
    rw [size, size, ← received_length s call, hunread, length_append]
    dsimp only
    omega
  by_cases hgives : s.splitter.media_info_extracted_ = false ∧ s.splitter.GivesUp tag
  · obtain ⟨hdone, hpassed⟩ := htakes.passed hgives.1 hgives.2
    have hone := media_of_isMedia hgives.2.1
    rw [hone] at hpassed hmedia
    by_cases hsame : ∀ t ∈ s.splitter.heldMedia, t = tag
    · refine .kept rest ?_ hover (fun _ => ⟨fun _ h => absurd h hsome, fun tag' cb' rest' _ hok _ t ht => ?_⟩)
        fun _ => hdone
      · rw [hmedia, ← cons_eq_concat.2 hsame]
        exact hkeeps _ hpassed
      · rw [hunread, hdecode] at hok
        cases hok
        exact hsame t ht
    · refine .passed (fun hcareful => hsame ?_) rest _ (hkeeps _ hpassed) hover (fun heq => hsame ?_) hdone
      · refine (hcareful hgives.1).2 tag cb left ?_ (by rw [hunread, hdecode]) hgives.2
        rw [hunread, ← marked_of_initial (prefix_append p.bytes left) p.long]
        exact hreads.1
      · rw [hmedia] at heq
        exact cons_eq_concat.1 (append_cancel_right (append_cancel_left heq))
  · refine .kept rest ?_ hover (fun hwait => ⟨fun _ h => absurd h hsome, fun tag' cb' rest' _ hok hgives' => ?_⟩)
      htakes.extracted
    · rw [hmedia]
      exact hkeeps _ (htakes.inOrder hgives)
    · rw [hunread, hdecode] at hok
      cases hok
      exact absurd ⟨hwait, hgives'⟩ hgives

/-- A call in a run. -/
theorem called (hs : Keeps util tail rest order s) (call : Call) :
    ∃ s', s.step util flags call = some s' ∧ Called util tail order s call s' ∧ Progress s call s' := by
  by_cases hqueue : s.splitter.media_info_extracted_ = true → s.splitter.tags_to_send_next_ = []
  · cases rest with
    | nil => exact called_end hs hqueue
    | cons p rest =>
      have hbytes := received_bytes hs.bytes call
      rw [streamBytes, flatMap_cons, append_assoc] at hbytes
      have hunread : (s.receive call).unread <+: p.bytes ++ (rest.flatMap Part.bytes ++ tail.bytes) := ⟨_, hbytes⟩
      have hpart := prefix_append p.bytes (rest.flatMap Part.bytes ++ tail.bytes)
      by_cases hlt : (s.receive call).unread.length < p.bytes.length
      · exact called_part hs hqueue (prefix_of_prefix_length_le hunread hpart (Nat.le_of_lt hlt)) hlt
      · obtain ⟨_, hleft⟩ := prefix_of_prefix_length_le hpart hunread (Nat.le_of_not_lt hlt)
        rw [← hleft, append_assoc] at hbytes
        have hbehind := append_cancel_left hbytes
        cases hcontent : p.content with
        | header h => exact called_header hs hqueue hcontent hleft.symm hbehind
        | tag tag => exact called_tag hs hqueue hcontent hleft.symm hbehind
  · rw [Classical.not_imp] at hqueue
    obtain ⟨hdone, hne⟩ := hqueue
    obtain ⟨_, _, hcons⟩ := exists_cons_of_ne_nil hne
    exact called_pop hs hdone hcons

/-! ## Runs -/

variable {calls : List Call}

/-- Once the media info is extracted the order is kept to the end. -/
theorem run_extracted (hs : Keeps util tail rest order s) (hover : s.Ended → Over rest s)
    (hdone : s.splitter.media_info_extracted_ = true)
    (hrun : run (step util flags) s calls = some t) (hended : t.Ended) : returnedMedia t.answers = order := by
  induction calls generalizing s rest with
  | nil =>
    cases hrun
    obtain ⟨hheld, rfl⟩ := hover hended
    simpa [hheld, streamMedia] using hs.media
  | cons call calls ih =>
    obtain ⟨_, hstep, hrun⟩ := run_cons_eq_some.1 hrun
    obtain ⟨_, hstep', hcalled, -⟩ := called hs call
    obtain rfl := Option.some.inj (hstep.symm.trans hstep')
    cases hcalled with
    | kept rest' hkeeps hover' _ hgoes => exact ih hkeeps hover' (hgoes hdone) hrun
    | lost hcareless => exact absurd (careful_of_extracted hdone) hcareless
    | passed hcareless => exact absurd (careful_of_extracted hdone) hcareless

/-- At the end of the stream the tags that are held back stay so. -/
theorem run_lost (hwait : s.splitter.media_info_extracted_ = false)
    (hbytes : s.unread ++ s.future = streamBytes [] tail)
    (hrun : run (step util flags) s calls = some t) : returnedMedia t.answers = returnedMedia s.answers := by
  induction calls generalizing s with
  | nil =>
    cases hrun
    rfl
  | cons call calls ih =>
    obtain ⟨_, hstep, hrun⟩ := run_cons_eq_some.1 hrun
    have hnext : s.splitter.getNextTagInternal util flags (s.receive call).unread (s.atEos call) =
        some (⟨if s.atEos call then .eof else .noData, none⟩, s.splitter, (s.receive call).unread) :=
      getNextTagInternal_nothing (fun h => absurd h (by simp [hwait])) (nothingLeft_of_end hbytes call)
    have hstep' := step_eq hnext
    obtain rfl := Option.some.inj (hstep.symm.trans hstep')
    have hrest := ih (by exact hwait) (by exact received_bytes hbytes call) hrun
    rw [hrest, returnedMedia_concat]
    simp [media]

/-- In a run to the end of a stream the tags are returned in their order exactly when every call is careful. -/
theorem run_media (hs : Keeps util tail rest order s) (hover : s.Ended → Over rest s)
    (hrun : run (step util flags) s calls = some t) (hended : t.Ended) :
    returnedMedia t.answers = order ↔ Along (step util flags) (Careful flags) s calls := by
  induction calls generalizing s rest with
  | nil =>
    cases hrun
    obtain ⟨hheld, rfl⟩ := hover hended
    exact iff_of_true (by simpa [hheld, streamMedia] using hs.media) trivial
  | cons call calls ih =>
    obtain ⟨s', hstep, hrun⟩ := run_cons_eq_some.1 hrun
    obtain ⟨_, hstep', hcalled, -⟩ := called hs call
    obtain rfl := Option.some.inj (hstep.symm.trans hstep')
    cases hcalled with
    | kept rest' hkeeps hover' hcareful _ =>
      rw [ih hkeeps hover' hrun]
      refine ⟨fun halong => ⟨hcareful, fun s₂ hs₂ => ?_⟩, fun halong => halong.2 s' hstep⟩
      obtain rfl := Option.some.inj (hstep.symm.trans hs₂)
      exact halong
    | lost hcareless hwait hbytes hheld _ hmedia =>
      refine iff_of_false (fun heq => hheld ?_) fun halong => hcareless halong.1
      have hsame := run_lost hwait hbytes (run_cons_eq_some.2 ⟨s', hstep, hrun⟩)
      rw [hsame, ← hmedia] at heq
      exact self_eq_append_right.1 heq
    | passed hcareless rest' order' hkeeps hover' hne hdone =>
      refine iff_of_false (fun heq => hne ?_) fun halong => hcareless halong.1
      exact (run_extracted hkeeps hover' hdone hrun hended).symm.trans heq

/-- Some order is kept by every call. -/
theorem called_keeps (hs : ∃ rest order, Keeps util tail rest order s) (call : Call) :
    ∃ s', s.step util flags call = some s' ∧ (∃ rest order, Keeps util tail rest order s') ∧ Progress s call s' := by
  obtain ⟨rest, order, hs⟩ := hs
  obtain ⟨s', hstep, hcalled, hprogress⟩ := called hs call
  refine ⟨s', hstep, ?_, hprogress⟩
  cases hcalled with
  | kept rest' hkeeps => exact ⟨rest', order, hkeeps⟩
  | lost _ _ _ _ hkeeps => exact ⟨[], order, hkeeps⟩
  | passed _ rest' order' hkeeps => exact ⟨rest', order', hkeeps⟩

/-- When all has come and the end is announced, the end is reached. -/
theorem run_ends (n : Nat) (hs : ∃ rest order, Keeps util tail rest order s) (hsize : s.size ≤ n) :
    ∃ more t, run (step util flags) s more = some t ∧ t.Ended := by
  induction n generalizing s with
  | zero =>
    obtain ⟨s', hstep, -, hprogress⟩ := called_keeps hs ⟨s.future.length, true⟩
    refine ⟨[_], s', run_cons_eq_some.2 ⟨s', hstep, rfl⟩, ?_⟩
    exact (hprogress (by simp [atEos, receive])).resolve_right (by omega)
  | succ n ih =>
    obtain ⟨s', hstep, hs', hprogress⟩ := called_keeps hs ⟨s.future.length, true⟩
    rcases hprogress (by simp [atEos, receive]) with hended | _
    · exact ⟨[_], s', run_cons_eq_some.2 ⟨s', hstep, rfl⟩, hended⟩
    · obtain ⟨more, t, hrun, hended⟩ := ih hs' (by omega)
      exact ⟨_ :: more, t, run_cons_eq_some.2 ⟨s', hstep, hrun⟩, hended⟩

/-- A new session. -/
theorem keeps_start (info : Info) {parts : List (Part flags)}
    (hmetadata : ∀ p ∈ parts, ∀ t, p.content = .tag t → t.isMedia = false → Extracts util t) :
    Keeps util tail parts (streamMedia parts) (start info (streamBytes parts tail)) := by
  refine ⟨⟨rfl, fun _ _ => rfl, fun m h => ?_⟩, rfl, hmetadata, rfl⟩
  cases h

end Session

section Theorems

open FlvTagSplitter Session

/-- A run over a stream, up to the end of it, returns exactly the audio and video tags of the stream, in their order and
each once, if and only if every call is careful. No run is aborted, and every run can be continued to the end. -/
theorem media_kept_iff (util : MediaUtil Info Cue) (flags : Flags) (info : Info) (parts : List (Part flags))
    (tail : Tail flags)
    (hmetadata : ∀ p ∈ parts, ∀ t, p.content = .tag t → t.isMedia = false → Extracts util t) (calls : List Call) :
    ∃ t, run (step util flags) (start info (streamBytes parts tail)) calls = some t ∧
      (∃ more t', run (step util flags) t more = some t' ∧ t'.Ended) ∧
      (t.Ended → (returnedMedia t.answers = streamMedia parts ↔
        Along (step util flags) (Careful flags) (start info (streamBytes parts tail)) calls)) := by
  have hstart : Keeps util tail parts (streamMedia parts) (start info (streamBytes parts tail)) :=
    keeps_start info hmetadata
  have hcalled : ∀ (s : Session Info Cue) (call : Call), (∃ rest order, Keeps util tail rest order s) →
      ∃ s', step util flags s call = some s' ∧ ∃ rest order, Keeps util tail rest order s' := fun s call hs =>
    (called_keeps hs call).imp fun _ h => ⟨h.1, h.2.1⟩
  obtain ⟨t, hrun, hkeeps⟩ := run_isSome hcalled ⟨parts, _, hstart⟩ calls
  exact ⟨t, hrun, run_ends _ hkeeps (Nat.le_refl _), fun hended => run_media hstart (fun h => by cases h) hrun hended⟩

/-! ## Written streams -/

/-- The end of a stream that is too short for a tag. -/
def Tail.short (flags : Flags) (bytes : Bytes) (hshort : bytes.length < kFlvTagHeaderSize)
    (hmark : marked bytes = false) : Tail flags where
  bytes := bytes
  unmarked := fun _ => hmark
  nothing := fun _ hp => decodeTag_of_short (Nat.lt_of_le_of_lt hp.length_le hshort)

/-- A header that is written. -/
def Part.ofHeader (h : FlvHeader) (hunknown : h.unknown_ < 2 ^ 24) (hmark : marked h.write = true) : Part { } where
  bytes := h.write
  content := .header h
  long := by rw [header_length]; decide
  reads := by
    refine ⟨hmark, decodeHeader_gets h hunknown, fun p hp hlt => ?_⟩
    have hsize : p.length < kFlvHeaderSize := (header_length h) ▸ hlt
    exact Reader.bind_error (Reader.need_of_lt _ hsize) _

theorem tagBytes_long (previous : Int32) (tag : FlvTag) (timestampMs : Nat) :
    4 ≤ (tagBytes previous tag timestampMs).length := by
  rw [tagBytes_length, kFlvTagHeaderSize]
  omega

/-- A tag that is written behind a tag of the given size. -/
def Part.ofTag (flags : Flags) (previous : Int32) (tag : FlvTag) (timestampMs : Nat) (hfits : FitsTag tag)
    (htag : Serializable flags tag) (htime : timestampMs < 2 ^ 32)
    (hmark : marked (NumStreamer.writeInt32 previous .bigEndian) = false) : Part flags where
  bytes := tagBytes previous tag timestampMs
  content := .tag (readTag tag timestampMs)
  long := tagBytes_long previous tag timestampMs
  reads := by
    refine ⟨?_, fun rest => ⟨_, decodeTag_tagBytes previous hfits htag htime rest⟩, fun p hp hlt =>
      decodeTag_part previous hfits htag hp hlt⟩
    have hfour : NumStreamer.writeInt32 previous .bigEndian <+: tagBytes previous tag timestampMs :=
      ⟨_, by rw [tagBytes, TagHead.bytes, List.append_assoc]; rfl⟩
    rw [← marked_of_initial hfour (by rw [NumStreamer.writeInt32, NumStreamer.writeNumber_length])]
    exact hmark

/-- The metadata of a stream, without values. -/
def emptyMetadata : FlvTag := ⟨⟨true, false, false, false, false⟩, 0, 0, .metadata ⟨kOnMetaData, ⟨0, []⟩⟩, none⟩

theorem emptyMetadata_serializable : Serializable { } emptyMetadata := by
  have hmap : (CMixedMap.toObject ⟨0, []⟩).Encodable := .mixedMap 0 (by simp) Pairwise.nil (by simp)
  exact ⟨rfl, ⟨.string (by decide), hmap⟩, by decide⟩

/-- A video tag. -/
def keyframe : FlvTag := ⟨⟨false, false, true, false, true⟩, 0, 0, .video (Video.ofData [0x12, 1, 2]), none⟩

theorem keyframe_serializable : Serializable { } keyframe := ⟨rfl, Nat.succ_pos 2, by decide⟩

/-- A stream whose header announces audio and video, with metadata and one video tag. -/
def noAudio : List (Part { }) :=
  [.ofHeader (FlvHeader.standardHeader true true) (by decide) (by decide),
    .ofTag { } 0 emptyMetadata 0 (by unfold FitsTag; decide) emptyMetadata_serializable (by decide) (by decide),
    .ofTag { } 28 keyframe 40 (by unfold FitsTag; decide) keyframe_serializable (by decide) (by decide)]

/-- The size of the last tag. -/
def lastSize : Tail { } := .short { } [0, 0, 0, 14] (by decide) (by decide)

/-- Media info without content can always be extracted, and there are no cue points. -/
def plainUtil : MediaUtil Unit Unit := ⟨fun _ _ _ _ => (true, ()), fun _ => none⟩

/-- All has come before the first of four calls. -/
def fourCalls : List Call := [⟨100, true⟩, ⟨0, true⟩, ⟨0, true⟩, ⟨0, true⟩]

theorem media_kept_iff_noAudio :
    ∃ t, run (step plainUtil { }) (start () (streamBytes noAudio lastSize)) fourCalls = some t ∧
      (∃ more t', run (step plainUtil { }) t more = some t' ∧ t'.Ended) ∧
      (t.Ended → (returnedMedia t.answers = streamMedia noAudio ↔
        Along (step plainUtil { }) (Careful { }) (start () (streamBytes noAudio lastSize)) fourCalls)) :=
  media_kept_iff plainUtil { } () noAudio lastSize (fun _ _ _ _ _ _ _ _ => rfl) fourCalls

/-- The only video tag of a stream without the announced audio is never returned. -/
theorem not_media_kept : ¬ ∀ (calls : List Call) (t : Session Unit Unit),
    run (step plainUtil { }) (start () (streamBytes noAudio lastSize)) calls = some t → t.Ended →
      returnedMedia t.answers = streamMedia noAudio := by
  intro hall
  have hrun : (run (step plainUtil { }) (start () (streamBytes noAudio lastSize)) fourCalls).any (fun t =>
      (returnedMedia t.answers).isEmpty &&
        t.answers.getLast?.any fun a => a.status == .eof && a.tag.isNone) = true := by decide +kernel
  obtain ⟨t, ht, hboth⟩ := (any_eq_true _ _).1 hrun
  rw [Bool.and_eq_true, List.isEmpty_iff] at hboth
  obtain ⟨a, ha, heof⟩ := (any_eq_true _ _).1 hboth.2
  rw [Bool.and_eq_true, beq_iff_eq, isNone_iff_eq_none] at heof
  obtain ⟨_, _⟩ := a
  obtain ⟨rfl, rfl⟩ := heof
  have hmedia := hall fourCalls t ht ha
  rw [hboth.1] at hmedia
  cases hmedia

end Theorems

end Whispercast.Flv
