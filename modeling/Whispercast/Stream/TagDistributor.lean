import Mathlib.Data.List.ReduceOption
import Whispercast.Library.Run
import Whispercast.Stream.Bootstrapper

/-!
# The tag distributor

Model of `TagDistributor` (`base/tag_distributor.h`). Clients wait in `to_bootstrap_` until the next tag, and are in
`running_` behind it; what each of them has been sent is kept beside the maps. A client is known by the number of its
registration, and the order of clients, which no client sees, is that of the lists. `none` is a failed `CHECK`, or what
cannot happen. Left out: flavours, the `forced` of an EOS, and the callbacks, which do not call back.
-/

namespace Whispercast.Stream

open Library Bootstrapper List
open Flv (Attributes)
open Io (Bytes)
open AssocList

/-! ## What a client hears -/

/-- The sources that are open, the last one first, and whether an EOS has come. -/
structure Heard where
  opened : List Bytes := []
  ended : Bool := false

/-- The next tag of a well-formed stream: pairs of `SOURCE_STARTED` and `SOURCE_ENDED` are nested by the names of their
elements, everything else comes inside the outermost pair, which has the name of the distributor, an EOS comes where
every pair is closed, and nothing comes behind it. -/
def hear (name : Bytes) (heard : Heard) (tag : MediaTag) : Option Heard :=
  if heard.ended then none
  else
    match tag with
    | ⟨.sourceStarted, _, content⟩ => some { heard with opened := content.source_element_name_ :: heard.opened }
    | ⟨.sourceEnded, _, content⟩ =>
      match heard.opened with
      | [] => none
      | source :: opened => if source = content.source_element_name_ then some { heard with opened := opened } else none
    | ⟨.eos, _, _⟩ => if heard.opened = [] then some { heard with ended := true } else none
    | _ => if heard.opened.getLast? = some name then some heard else none

/-- A well-formed stream. -/
def WellFormed (name : Bytes) (tags : List MediaTag) : Prop := ∃ heard, run (hear name) {} tags = some heard

/-! ## The distributor -/

/-- `TagDistributor`: in the maps a client has its `done_`. `received` is what its callback was run with, and `added`
counts the registrations. -/
structure TagDistributor where
  bootstrapper_ : Bootstrapper
  running_ : List (Nat × Bool) := []
  to_bootstrap_ : List (Nat × Bool) := []
  last_tag_ts_ : Int := 0
  received : Nat → List (MediaTag × Int) := fun _ => []
  added : Nat := 0

/-- The `SourceStartedTag` of the distributor. -/
def startedTag (name : Bytes) : MediaTag := ⟨.sourceStarted, Attributes.none, ⟨name, name, false⟩⟩

/-- The `SourceEndedTag` of the distributor. -/
def endedTag (name : Bytes) : MediaTag := ⟨.sourceEnded, Attributes.none, ⟨name, name, false⟩⟩

/-- The `EosTag`. -/
def eosTag : MediaTag := ⟨.eos, Attributes.none, ()⟩

namespace TagDistributor

variable (name : Bytes) (s : TagDistributor)

/-- Every client. -/
def clients : List (Nat × Bool) := s.running_ ++ s.to_bootstrap_

/-- The callbacks of some clients are run with one tag after the other. -/
def send (reqs : List (Nat × Bool)) (tags : List (MediaTag × Int)) : TagDistributor :=
  { s with received := fun req => if req ∈ AssocList.keys reqs then s.received req ++ tags else s.received req }

/-- A tag that is not sent without a name. -/
def named (tag : MediaTag × Int) : List (MediaTag × Int) := if name = [] then [] else [tag]

def addCallback : TagDistributor :=
  { s with to_bootstrap_ := s.to_bootstrap_ ++ [(s.added, false)], added := s.added + 1 }

def removeCallback (req : Nat) : Option TagDistributor :=
  if req ∈ AssocList.keys s.running_ then some { s with running_ := s.running_.filter fun e => e.1 ≠ req }
  else if req ∈ AssocList.keys s.to_bootstrap_ then
    some { s with to_bootstrap_ := s.to_bootstrap_.filter fun e => e.1 ≠ req }
  else none

/-- `DistributeTagInternal` to the running callbacks. -/
def distributeTagInternal (tag : MediaTag) (timestamp_ms : Int) : TagDistributor :=
  { s.send s.running_ [(tag, timestamp_ms)] with last_tag_ts_ := timestamp_ms }

/-- `ClearBootstrap` at the end of `Switch` and `Reset`. -/
def clear : TagDistributor := { s with bootstrapper_ := s.bootstrapper_.clearBootstrap, last_tag_ts_ := 0 }

def switch : TagDistributor := (s.send s.running_ (s.bootstrapper_.playAtEnd s.last_tag_ts_)).clear

def reset : TagDistributor :=
  let s := s.send s.running_ (s.bootstrapper_.playAtEnd s.last_tag_ts_)
  let s := if name = [] then s else s.distributeTagInternal (endedTag name) s.last_tag_ts_
  { s with to_bootstrap_ := s.running_ ++ s.to_bootstrap_, running_ := [] }.clear

/-- The client is done. -/
def markDone (req : Nat) (reqs : List (Nat × Bool)) : List (Nat × Bool) :=
  reqs.map fun e => if e.1 = req then (req, true) else e

def closeCallback (req : Nat) : Option TagDistributor :=
  if req ∈ AssocList.keys s.running_ then
    some { s.send [(req, false)]
        (s.bootstrapper_.playAtEnd s.last_tag_ts_ ++ named name (endedTag name, 0) ++ [(eosTag, 0)]) with
      running_ := markDone req s.running_ }
  else if req ∈ AssocList.keys s.to_bootstrap_ then
    some { s.send [(req, false)] [(eosTag, 0)] with to_bootstrap_ := markDone req s.to_bootstrap_ }
  else none

def closeAllCallbacks : TagDistributor :=
  let s := s.send s.running_
    (s.bootstrapper_.playAtEnd s.last_tag_ts_ ++ named name (endedTag name, 0) ++ [(eosTag, s.last_tag_ts_)])
  let s := s.send s.to_bootstrap_ [(eosTag, s.last_tag_ts_)]
  { s with
    running_ := s.running_.map fun e => (e.1, true)
    to_bootstrap_ := s.to_bootstrap_.map fun e => (e.1, true) }

/-- The tags of a bootstrap, which are eaten. -/
def isBootstrap (tag : MediaTag) : Bool := tag.type_ = .bootstrapBegin ∨ tag.type_ = .bootstrapEnd

def distributeTag (tag : MediaTag) (timestamp_ms : Int) : TagDistributor :=
  if isBootstrap tag then s
  else
    let s := s.send s.to_bootstrap_
      (named name (startedTag name, timestamp_ms) ++ s.bootstrapper_.playAtBegin timestamp_ms)
    let s := { s with running_ := s.running_ ++ s.to_bootstrap_, to_bootstrap_ := [] }
    { s with bootstrapper_ := s.bootstrapper_.processTag tag }.distributeTagInternal tag timestamp_ms

/-- What the element that owns the distributor calls. -/
inductive Event where
  | addCallback
  | removeCallback (req : Nat)
  | distributeTag (tag : MediaTag) (timestamp_ms : Int)
  | switch
  | reset
  | closeCallback (req : Nat)
  | closeAllCallbacks

/-- One call. -/
def step : Event → Option TagDistributor
  | .addCallback => some s.addCallback
  | .removeCallback req => s.removeCallback req
  | .distributeTag tag timestamp_ms => some (s.distributeTag name tag timestamp_ms)
  | .switch => some s.switch
  | .reset => some (s.reset name)
  | .closeCallback req => s.closeCallback name req
  | .closeAllCallbacks => some (s.closeAllCallbacks name)

/-- What a client was sent, without the timestamps. -/
def tagsOf (req : Nat) : List MediaTag := (s.received req).map Prod.fst

/-! ## What may be distributed, and when -/

/-- A tag that comes from upstream: no EOS, and a `SOURCE_ENDED` closes the source that was started last, since the last
`Switch` or `Reset`. -/
def nested : MediaTag → Bool
  | ⟨.eos, _, _⟩ => false
  | ⟨.sourceEnded, _, content⟩ =>
    match s.bootstrapper_.source_started_tags_.getLast? with
    | some ⟨.sourceStarted, _, started⟩ => started.source_element_name_ = content.source_element_name_
    | _ => false
  | _ => true

/-- Nothing is sent to a client that has been closed. -/
def Quiet : Event → Prop
  | .distributeTag tag _ => isBootstrap tag = false → ∀ e ∈ s.clients, e.2 = false
  | .switch => s.bootstrapper_.source_started_tags_ ≠ [] → ∀ e ∈ s.running_, e.2 = false
  | .reset => ∀ e ∈ s.running_, e.2 = false
  | .closeCallback req => ∀ e ∈ s.clients, e.1 = req → e.2 = false
  | .closeAllCallbacks => ∀ e ∈ s.clients, e.2 = false
  | _ => True

/-- What is distributed is nested. -/
def Fed : Event → Prop
  | .distributeTag tag _ => s.nested tag = true
  | _ => True

instance decidableFed : ∀ e : Event, Decidable (s.Fed e)
  | .distributeTag tag _ => inferInstanceAs (Decidable (s.nested tag = true))
  | .addCallback | .removeCallback _ | .switch | .reset | .closeCallback _ | .closeAllCallbacks => .isTrue trivial

instance decidableQuiet : ∀ e : Event, Decidable (s.Quiet e)
  | .distributeTag tag _ => inferInstanceAs (Decidable (isBootstrap tag = false → ∀ e ∈ s.clients, e.2 = false))
  | .switch =>
    inferInstanceAs (Decidable (s.bootstrapper_.source_started_tags_ ≠ [] → ∀ e ∈ s.running_, e.2 = false))
  | .reset => inferInstanceAs (Decidable (∀ e ∈ s.running_, e.2 = false))
  | .closeCallback req => inferInstanceAs (Decidable (∀ e ∈ s.clients, e.1 = req → e.2 = false))
  | .closeAllCallbacks => inferInstanceAs (Decidable (∀ e ∈ s.clients, e.2 = false))
  | .addCallback | .removeCallback _ => .isTrue trivial

end TagDistributor

/-! ## Runs of tags -/

/-- A tag that starts or ends nothing. -/
structure Plain (tag : MediaTag) : Prop where
  started : tag.type_ ≠ .sourceStarted
  ended : tag.type_ ≠ .sourceEnded
  eos : tag.type_ ≠ .eos

theorem plain_begin : Plain ⟨.bootstrapBegin, Attributes.none, ()⟩ := ⟨by decide, by decide, by decide⟩

theorem plain_end : Plain ⟨.bootstrapEnd, Attributes.none, ()⟩ := ⟨by decide, by decide, by decide⟩

/-- The name of the element in a tag of a source. -/
def sourceName : MediaTag → Bytes
  | ⟨.sourceStarted, _, content⟩ => content.source_element_name_
  | ⟨.sourceEnded, _, content⟩ => content.source_element_name_
  | _ => []

variable {name : Bytes}

/-- Inside the pair of the distributor a plain tag changes nothing. -/
theorem hear_plain {tag : MediaTag} (h : Plain tag) {opened : List Bytes} (hlast : opened.getLast? = some name) :
    hear name ⟨opened, false⟩ tag = some ⟨opened, false⟩ := by
  rcases tag with ⟨type, _, _⟩
  cases type with
  | sourceStarted => exact absurd rfl h.started
  | sourceEnded => exact absurd rfl h.ended
  | eos => exact absurd rfl h.eos
  | _ => simp [hear, hlast]

variable {tags : List MediaTag}

theorem run_plain (h : ∀ tag ∈ tags, Plain tag) {opened : List Bytes}
    (hlast : opened.getLast? = some name) : run (hear name) ⟨opened, false⟩ tags = some ⟨opened, false⟩ := by
  induction tags with
  | nil => rfl
  | cons tag tags ih =>
    rw [run_cons, hear_plain (h tag mem_cons_self) hlast, Option.bind_some]
    exact ih fun t ht => h t (mem_cons_of_mem _ ht)

/-- One source after the other is started. -/
theorem run_started (h : ∀ tag ∈ tags, tag.type_ = .sourceStarted) (opened : List Bytes) :
    run (hear name) ⟨opened, false⟩ tags = some ⟨(tags.map sourceName).reverse ++ opened, false⟩ := by
  induction tags generalizing opened with
  | nil => rfl
  | cons tag tags ih =>
    obtain ⟨type, _, content⟩ := tag
    obtain rfl : type = .sourceStarted := h _ mem_cons_self
    have htail := ih (fun t ht => h t (mem_cons_of_mem _ ht)) (content.source_element_name_ :: opened)
    simpa [run_cons, hear, sourceName] using htail

/-- One source after the other is ended, the last one first. -/
theorem run_endTag (h : ∀ tag ∈ tags, tag.type_ = .sourceStarted) (opened : List Bytes) :
    run (hear name) ⟨tags.map sourceName ++ opened, false⟩ (tags.map Bootstrapper.endTag) = some ⟨opened, false⟩ := by
  induction tags with
  | nil => rfl
  | cons tag tags ih =>
    obtain ⟨type, _, _⟩ := tag
    obtain rfl : type = .sourceStarted := h _ mem_cons_self
    have htail := ih fun t ht => h t (mem_cons_of_mem _ ht)
    simpa [run_cons, hear, endTag, sourceName] using htail

/-! ## The sources of a bootstrapper -/

namespace Bootstrapper

variable {b : Bootstrapper}

/-- The names of the sources that are open, the last one first. -/
def sources (b : Bootstrapper) : List Bytes := (b.source_started_tags_.map sourceName).reverse

/-- The tags that are kept for the clients to come, without the sources. -/
def kept (b : Bootstrapper) : List MediaTag :=
  [b.media_info_, b.metadata_, b.cue_points_, b.avc_sequence_header_, b.aac_header_tag_,
    b.moov_tag_.map MoovTag.toTag].reduceOption ++ b.media_bootstrap_

/-- Sources start sources, and everything else is plain. -/
structure Sound (b : Bootstrapper) : Prop where
  started : ∀ tag ∈ b.source_started_tags_, tag.type_ = .sourceStarted
  plain : ∀ tag ∈ b.kept, Plain tag

variable {tag : MediaTag}

theorem mem_kept : tag ∈ b.kept ↔ b.media_info_ = some tag ∨ b.metadata_ = some tag ∨
    b.cue_points_ = some tag ∨ b.avc_sequence_header_ = some tag ∨ b.aac_header_tag_ = some tag ∨
    b.moov_tag_.map MoovTag.toTag = some tag ∨ tag ∈ b.media_bootstrap_ := by
  rw [kept, mem_append, reduceOption_mem_iff]
  simp only [mem_cons, not_mem_nil, or_false, or_assoc, @eq_comm _ (some tag)]

theorem playAtBegin_tags (b : Bootstrapper) (timestamp_ms : Int) : (b.playAtBegin timestamp_ms).map Prod.fst =
    ⟨.bootstrapBegin, Attributes.none, ()⟩ :: (b.source_started_tags_ ++ b.kept ++
      [(⟨.bootstrapEnd, Attributes.none, ()⟩ : MediaTag)]) := by
  simp [playAtBegin, kept, Function.comp_def]

theorem playAtEnd_tags (b : Bootstrapper) (timestamp_ms : Int) :
    (b.playAtEnd timestamp_ms).map Prod.fst = b.source_started_tags_.reverse.map endTag := by
  simp [playAtEnd, Function.comp_def]

/-- A client that joins hears the sources that are open. -/
theorem run_playAtBegin (h : b.Sound) (timestamp_ms : Int) :
    run (hear name) ⟨[name], false⟩ ((b.playAtBegin timestamp_ms).map Prod.fst) =
      some ⟨b.sources ++ [name], false⟩ := by
  rw [playAtBegin_tags, run_cons, hear_plain plain_begin rfl, Option.bind_some, append_assoc,
    run_append (run_started h.started [name])]
  refine run_plain ?_ (by simp)
  intro tag htag
  rcases mem_append.1 htag with hkept | hend
  · exact h.plain tag hkept
  · rw [mem_singleton.1 hend]
    exact plain_end

/-- The sources that are open are closed. -/
theorem run_playAtEnd (h : b.Sound) (timestamp_ms : Int) (opened : List Bytes) :
    run (hear name) ⟨b.sources ++ opened, false⟩ ((b.playAtEnd timestamp_ms).map Prod.fst) = some ⟨opened, false⟩ := by
  rw [playAtEnd_tags, sources, ← map_reverse]
  exact run_endTag (fun tag htag => h.started tag (mem_reverse.1 htag)) opened

theorem Sound.clearBootstrap (h : b.Sound) : b.clearBootstrap.Sound where
  started := by simp [Bootstrapper.clearBootstrap]
  plain := by
    intro tag htag
    refine h.plain tag ?_
    rw [mem_kept] at htag ⊢
    simpa [Bootstrapper.clearBootstrap] using Or.inr (Or.inr (Or.inr (Or.inr (Or.inr (Or.inr htag)))))

/-- Only the media change, and by the tag alone. -/
theorem keepMedia_cases (b : Bootstrapper) (tag : MediaTag) : b.keepMedia tag = b ∨
    ∃ media, b.keepMedia tag = { b with media_bootstrap_ := media } ∧ ∀ t ∈ media, t ∈ b.media_bootstrap_ ∨ t = tag := by
  cases hkeep : b.keep_media_ with
  | false => exact .inl (by simp [keepMedia, hkeep])
  | true =>
    cases hkey : tag.isKeyframe with
    | true => exact .inr ⟨[tag], by simp [keepMedia, hkeep, hkey, clearMediaBootstrap], by simp⟩
    | false =>
      by_cases hnil : b.media_bootstrap_ = []
      · exact .inl (by simp [keepMedia, hkeep, hkey, hnil])
      · exact .inr ⟨b.media_bootstrap_ ++ [tag], by simp [keepMedia, hkeep, hkey, hnil], by simp⟩

theorem mem_kept_keepMedia {t : MediaTag} (h : t ∈ (b.keepMedia tag).kept) : t ∈ b.kept ∨ t = tag := by
  rcases keepMedia_cases b tag with heq | ⟨_, heq, hmedia⟩
  · rw [heq] at h
    exact .inl h
  · rw [heq, mem_kept] at h
    rw [mem_kept]
    have := hmedia t
    tauto

theorem keepMedia_started (b : Bootstrapper) (tag : MediaTag) :
    (b.keepMedia tag).source_started_tags_ = b.source_started_tags_ := by
  rcases keepMedia_cases b tag with heq | ⟨_, heq, -⟩
  · rw [heq]
  · rw [heq]

/-- What is stored aside is the tag, or a moov. -/
theorem storeFlv_keeps {b' : Bootstrapper} {content : FlvContent}
    (hstore : b.storeFlv tag content = some b') : b'.source_started_tags_ = b.source_started_tags_ ∧
      ∀ t ∈ b'.kept, t ∈ b.kept ∨ t = tag ∨ t.type_ = .flv := by
  have hmoov (moov : MoovTag) (t : MediaTag) : some moov.toTag = some t → t.type_ = .flv := by
    rintro ⟨⟩
    rfl
  rw [storeFlv] at hstore
  split at hstore
  · split_ifs at hstore
    · cases hstore
      refine ⟨rfl, fun t h => ?_⟩
      rw [mem_kept] at h ⊢
      simp only [Option.some.injEq] at h
      tauto
    · obtain ⟨moov, -, rfl⟩ := Option.map_eq_some_iff.1 hstore
      refine ⟨rfl, fun t h => ?_⟩
      rw [mem_kept] at h ⊢
      tauto
  all_goals
    split_ifs at hstore
    cases hstore
    refine ⟨rfl, fun t h => ?_⟩
    rw [mem_kept] at h ⊢
    simp only [Option.some.injEq] at h
    tauto

/-- A plain tag leaves the sources, and what is kept behind it is as plain. -/
theorem processTag_plain (htag : Plain tag) : (b.processTag tag).source_started_tags_ = b.source_started_tags_ ∧
      ∀ t ∈ (b.processTag tag).kept, t ∈ b.kept ∨ t = tag ∨ t.type_ = .flv := by
  have hkeep : (b.keepMedia tag).source_started_tags_ = b.source_started_tags_ ∧
      ∀ t ∈ (b.keepMedia tag).kept, t ∈ b.kept ∨ t = tag ∨ t.type_ = .flv :=
    ⟨keepMedia_started b tag, fun t ht => (mem_kept_keepMedia ht).imp_right .inl⟩
  rcases tag with ⟨type, attributes, content⟩
  cases type with
  | sourceStarted => exact absurd rfl htag.started
  | sourceEnded => exact absurd rfl htag.ended
  | mediaInfo | cuePoint =>
    refine ⟨rfl, fun t ht => ?_⟩
    rw [processTag, mem_kept] at ht
    rw [mem_kept]
    simp only [Option.some.injEq] at ht
    tauto
  | flv =>
    rw [processTag]
    cases hstore : b.storeFlv ⟨.flv, attributes, content⟩ content with
    | none => exact hkeep
    | some b' => exact storeFlv_keeps hstore
  | _ => exact hkeep

theorem Sound.processTag (h : b.Sound) (heos : tag.type_ ≠ .eos) : (b.processTag tag).Sound := by
  by_cases htag : Plain tag
  · obtain ⟨hstarted, hkept⟩ := processTag_plain (b := b) htag
    refine ⟨by simpa [hstarted] using h.started, fun t ht => ?_⟩
    rcases hkept t ht with hold | rfl | hflv
    · exact h.plain t hold
    · exact htag
    · exact ⟨by simp [hflv], by simp [hflv], by simp [hflv]⟩
  · rcases tag with ⟨type, _, _⟩
    cases type with
    | eos => exact absurd rfl heos
    | sourceStarted =>
      refine ⟨?_, h.plain⟩
      intro t ht
      rcases List.mem_append.1 ht with hold | hnew
      · exact h.started t hold
      · rw [List.mem_singleton.1 hnew]
    | sourceEnded =>
      refine ⟨fun t ht => h.started t (List.mem_of_mem_dropLast ht), ?_⟩
      simp [Bootstrapper.processTag, Bootstrapper.endSource, kept]
    | _ => exact absurd ⟨by simp, by simp, by simp⟩ htag

end Bootstrapper

/-! ## What each client has heard -/

namespace TagDistributor

variable {s s' : TagDistributor} {req : Nat} {heard heard' : Heard}

/-- What a client has heard of the stream it was sent. -/
def Hears (name : Bytes) (s : TagDistributor) (req : Nat) (heard : Heard) : Prop :=
  run (hear name) {} (s.tagsOf req) = some heard

/-- Behind its EOS a client has heard everything; before, what is open. -/
def expects (opened : List Bytes) (done : Bool) : Heard := if done then ⟨[], true⟩ else ⟨opened, false⟩

/-- The clients are all there once, and each has heard of its pair and of the open sources since it was bootstrapped. -/
structure Inv (name : Bytes) (s : TagDistributor) : Prop where
  sound : s.bootstrapper_.Sound
  nodup : (AssocList.keys s.clients).Nodup
  known : ∀ e ∈ s.clients, e.1 < s.added
  fresh : ∀ req, s.added ≤ req → s.received req = []
  running : ∀ e ∈ s.running_, s.Hears name e.1 (expects (s.bootstrapper_.sources ++ [name]) e.2)
  waiting : ∀ e ∈ s.to_bootstrap_, s.Hears name e.1 (expects [] e.2)
  formed : ∀ req, WellFormed name (s.tagsOf req)

theorem keys_clients : AssocList.keys s.clients = AssocList.keys s.running_ ++ AssocList.keys s.to_bootstrap_ := by
  simp [clients, AssocList.keys]

/-- A client that waits does not run. -/
theorem Inv.not_running (h : s.Inv name) {e : Nat × Bool} (he : e ∈ s.to_bootstrap_) :
    e.1 ∉ AssocList.keys s.running_ := by
  have hnodup := h.nodup
  rw [keys_clients, nodup_append] at hnodup
  exact fun hmem => hnodup.2.2 e.1 hmem e.1 (mem_map_of_mem he) rfl

theorem Hears.send_mem (h : s.Hears name req heard) {reqs : List (Nat × Bool)} (hmem : req ∈ AssocList.keys reqs)
    {tags : List (MediaTag × Int)} (htags : run (hear name) heard (tags.map Prod.fst) = some heard') :
    (s.send reqs tags).Hears name req heard' := by
  have hrun : run (hear name) {} (s.tagsOf req ++ tags.map Prod.fst) = some heard' := (run_append h).trans htags
  simpa only [Hears, tagsOf, send, if_pos hmem, map_append] using hrun

variable (reqs : List (Nat × Bool))

@[simp] theorem running_send (tags : List (MediaTag × Int)) : (s.send reqs tags).running_ = s.running_ := rfl

@[simp] theorem to_bootstrap_send (tags : List (MediaTag × Int)) :
    (s.send reqs tags).to_bootstrap_ = s.to_bootstrap_ := rfl

theorem received_send (s : TagDistributor) {reqs : List (Nat × Bool)} (hmem : req ∉ AssocList.keys reqs)
    (tags : List (MediaTag × Int)) : (s.send reqs tags).received req = s.received req := if_neg hmem

theorem Hears.of_received (h : s.Hears name req heard) (heq : s'.received req = s.received req) :
    s'.Hears name req heard := by
  rw [Hears, tagsOf, heq]
  exact h

/-- Where the clients stay and only they are sent something, it is enough what each of them hears. -/
theorem Inv.resent (h : s.Inv name) (hsound : s'.bootstrapper_.Sound)
    (hkeys : AssocList.keys s'.clients = AssocList.keys s.clients) (hadded : s'.added = s.added)
    (hother : ∀ req, req ∉ AssocList.keys s.clients → s'.received req = s.received req)
    (hrunning : ∀ e ∈ s'.running_, s'.Hears name e.1 (expects (s'.bootstrapper_.sources ++ [name]) e.2))
    (hwaiting : ∀ e ∈ s'.to_bootstrap_, s'.Hears name e.1 (expects [] e.2)) : s'.Inv name where
  sound := hsound
  nodup := hkeys ▸ h.nodup
  known := by
    intro e he
    have hmem : e.1 ∈ keys s.clients := hkeys ▸ mem_map_of_mem he
    obtain ⟨e', he', heq⟩ := mem_map.1 hmem
    rw [hadded, ← heq]
    exact h.known e' he'
  fresh := by
    intro req hreq
    rw [hadded] at hreq
    rw [hother req, h.fresh req hreq]
    intro hmem
    obtain ⟨e, he, rfl⟩ := mem_map.1 hmem
    exact absurd (h.known e he) (Nat.not_lt.2 hreq)
  running := hrunning
  waiting := hwaiting
  formed := by
    intro req
    by_cases hmem : req ∈ keys s.clients
    · rw [← hkeys] at hmem
      obtain ⟨e, he, rfl⟩ := mem_map.1 hmem
      rcases mem_append.1 he with hrun | hwait
      · exact ⟨_, hrunning e hrun⟩
      · exact ⟨_, hwaiting e hwait⟩
    · rw [tagsOf, hother req hmem]
      exact h.formed req

/-- The tags of a bootstrap at the end, with the pair of the distributor, close everything. -/
theorem run_closing (hname : name ≠ []) {b : Bootstrapper} (h : b.Sound) (timestamp_ms t : Int) :
    run (hear name) ⟨b.sources ++ [name], false⟩
      ((b.playAtEnd timestamp_ms ++ named name (endedTag name, 0) ++ [(eosTag, t)]).map Prod.fst) =
      some ⟨[], true⟩ := by
  rw [append_assoc, map_append, run_append (run_playAtEnd h timestamp_ms [name])]
  simp [named, hname, endedTag, eosTag, hear, run_cons]

/-- A client that is bootstrapped hears of the pair of the distributor and of the open sources. -/
theorem run_joining (hname : name ≠ []) {b : Bootstrapper} (h : b.Sound) (timestamp_ms : Int) : run (hear name) {}
      ((named name (startedTag name, timestamp_ms) ++ b.playAtBegin timestamp_ms).map Prod.fst) =
      some ⟨b.sources ++ [name], false⟩ := by
  have hstart : run (hear name) {} ((named name (startedTag name, timestamp_ms)).map Prod.fst) =
      some ⟨[name], false⟩ := by
    simp [named, hname, startedTag, hear, run_cons]
  rw [map_append, run_append hstart]
  exact run_playAtBegin h timestamp_ms

/-- The tags of upstream keep the sources that are open. -/
theorem hear_tag (h : s.bootstrapper_.Sound) {tag : MediaTag} (hnested : s.nested tag = true) :
    hear name ⟨s.bootstrapper_.sources ++ [name], false⟩ tag =
      some ⟨(s.bootstrapper_.processTag tag).sources ++ [name], false⟩ := by
  by_cases htag : Plain tag
  · rw [hear_plain htag (by simp), sources, sources, (processTag_plain htag).1]
  · rcases tag with ⟨type, _, content⟩
    cases type with
    | eos => exact nomatch hnested
    | sourceStarted => simp [hear, processTag, sources, sourceName]
    | sourceEnded =>
      -- the source that was started last is the one that is ended
      rcases eq_nil_or_concat s.bootstrapper_.source_started_tags_ with hnil | ⟨_, last, hlast⟩
      · simp [nested, hnil] at hnested
      · obtain ⟨type, attributes', started⟩ := last
        obtain rfl : type = .sourceStarted := h.started ⟨type, attributes', started⟩ (by simp [hlast])
        have hcontent : started.source_element_name_ = content.source_element_name_ := by
          simpa [nested, hlast] using hnested
        simp [hear, processTag, endSource, sources, sourceName, hlast,
          hcontent]
    | _ => exact absurd ⟨by simp, by simp, by simp⟩ htag

/-! ## What each call leaves -/

theorem Inv.addCallback (h : s.Inv name) : s.addCallback.Inv name where
  sound := h.sound
  nodup := by
    have hnew : s.added ∉ keys s.clients := by
      intro hmem
      obtain ⟨e, he, heq⟩ := mem_map.1 hmem
      exact absurd (h.known e he) (by simp [heq])
    have hkeys : keys s.addCallback.clients = keys s.clients ++ [s.added] := by
      simp [clients, TagDistributor.addCallback, AssocList.keys]
    rw [hkeys, nodup_append]
    exact ⟨h.nodup, nodup_singleton _, fun a ha b hb heq => hnew (mem_singleton.1 hb ▸ heq ▸ ha)⟩
  known := by
    intro e he
    have hsplit : e ∈ s.clients ∨ e = (s.added, false) := by
      simpa [clients, TagDistributor.addCallback, or_assoc] using he
    rcases hsplit with hold | rfl
    · exact Nat.lt_succ_of_lt (h.known e hold)
    · exact Nat.lt_succ_self _
  fresh req hreq := h.fresh req (Nat.le_of_succ_le hreq)
  running := h.running
  waiting := by
    intro e he
    rcases mem_append.1 he with hold | hnew
    · exact h.waiting e hold
    · -- the new client has been sent nothing
      rw [mem_singleton.1 hnew]
      have hnil : s.received s.added = [] := h.fresh s.added le_rfl
      simp [Hears, tagsOf, TagDistributor.addCallback, hnil, expects]
  formed := h.formed

/-- A client less. -/
theorem Inv.sub (h : s.Inv name) {running to_bootstrap : List (Nat × Bool)} (hrunning : running.Sublist s.running_)
    (hwaiting : to_bootstrap.Sublist s.to_bootstrap_) :
    { s with running_ := running, to_bootstrap_ := to_bootstrap }.Inv name where
  sound := h.sound
  nodup := h.nodup.sublist ((hrunning.append hwaiting).map _)
  known e he := h.known e ((hrunning.append hwaiting).subset he)
  fresh := h.fresh
  running e he := h.running e (hrunning.subset he)
  waiting e he := h.waiting e (hwaiting.subset he)
  formed := h.formed

theorem Inv.removeCallback (h : s.Inv name) (hs' : s.removeCallback req = some s') : s'.Inv name := by
  rw [TagDistributor.removeCallback] at hs'
  split_ifs at hs'
  · cases hs'
    exact h.sub filter_sublist (Sublist.refl _)
  · cases hs'
    exact h.sub (Sublist.refl _) filter_sublist

/-- Nobody is sent anything who is no client. -/
theorem received_of_not_client (hreq : req ∉ AssocList.keys s.clients) (tags waiting : List (MediaTag × Int)) :
    ((s.send s.running_ tags).send s.to_bootstrap_ waiting).received req = s.received req := by
  rw [keys_clients, mem_append, not_or] at hreq
  rw [received_send _ hreq.2, received_send s hreq.1]

/-- The running clients are sent the same tags, and the waiting ones none. -/
theorem received_send_running (hreq : req ∉ AssocList.keys s.clients) (tags : List (MediaTag × Int)) :
    (s.send s.running_ tags).received req = s.received req := by
  rw [keys_clients, mem_append, not_or] at hreq
  exact received_send s hreq.1 tags

theorem Inv.switch (h : s.Inv name) (hquiet : s.Quiet .switch) : s.switch.Inv name := by
  refine h.resent h.sound.clearBootstrap rfl rfl (fun req hreq => received_send_running hreq _) ?_ ?_
  · intro e he
    refine (h.running e he).send_mem (mem_map_of_mem he) ?_
    by_cases hsources : s.bootstrapper_.source_started_tags_ = []
    · simp [sources, playAtEnd, hsources]
      rfl
    · rw [hquiet hsources e he]
      exact run_playAtEnd h.sound s.last_tag_ts_ [name]
  · intro e he
    exact (h.waiting e he).of_received (received_send s (h.not_running he) _)

theorem hear_endedTag : hear name ⟨[name], false⟩ (endedTag name) = some ⟨[], false⟩ := by
  simp [hear, endedTag]

theorem Inv.reset (h : s.Inv name) (hname : name ≠ []) (hquiet : s.Quiet .reset) : (s.reset name).Inv name := by
  have hreset : s.reset name =
      { (s.send s.running_ (s.bootstrapper_.playAtEnd s.last_tag_ts_)).send s.running_
          [(endedTag name, s.last_tag_ts_)] with
        bootstrapper_ := s.bootstrapper_.clearBootstrap
        running_ := []
        to_bootstrap_ := s.running_ ++ s.to_bootstrap_
        last_tag_ts_ := 0 } := by
    rw [TagDistributor.reset, if_neg hname]
    rfl
  rw [hreset]
  refine h.resent h.sound.clearBootstrap rfl rfl ?_ (fun e he => nomatch he) ?_
  · intro req hreq
    rw [keys_clients, mem_append, not_or] at hreq
    exact (received_send _ hreq.1 _).trans (received_send s hreq.1 _)
  · intro e he
    rcases mem_append.1 he with hrun | hwait
    · -- a running client hears that everything ends, and waits from now on
      have hmem : e.1 ∈ keys s.running_ := mem_map_of_mem hrun
      have hheard := h.running e hrun
      rw [hquiet e hrun] at hheard ⊢
      have hend := hheard.send_mem hmem (run_playAtEnd h.sound s.last_tag_ts_ [name])
      exact hend.send_mem hmem (by simp [run_cons, hear_endedTag, expects])
    · have hmem := h.not_running hwait
      exact (h.waiting e hwait).of_received ((received_send _ hmem _).trans (received_send s hmem _))

@[simp] theorem keys_markDone : AssocList.keys (markDone req reqs) = AssocList.keys reqs := by
  rw [markDone, AssocList.keys, AssocList.keys, map_map]
  refine map_congr_left fun e _ => ?_
  by_cases heq : e.1 = req
  · simp [heq]
  · simp [heq]

/-- Who is marked was there, or is another client as before. -/
theorem mem_markDone {reqs : List (Nat × Bool)} {e : Nat × Bool} (he : e ∈ markDone req reqs) :
    (e = (req, true) ∧ ∃ done, (req, done) ∈ reqs) ∨ (e.1 ≠ req ∧ e ∈ reqs) := by
  obtain ⟨e', he', rfl⟩ := mem_map.1 he
  by_cases heq : e'.1 = req
  · rw [if_pos heq]
    exact .inl ⟨rfl, e'.2, heq ▸ he'⟩
  · rw [if_neg heq]
    exact .inr ⟨heq, he'⟩

theorem received_send_ne {req' : Nat} (hne : req' ≠ req) (tags : List (MediaTag × Int)) :
    (s.send [(req, false)] tags).received req' = s.received req' := received_send s (by simpa [AssocList.keys] using hne) tags

theorem hear_eosTag {opened : List Bytes} (hnil : opened = []) :
    hear name ⟨opened, false⟩ eosTag = some ⟨opened, true⟩ := by
  simp [hear, eosTag, hnil]

theorem Inv.closeCallback (h : s.Inv name) (hname : name ≠ []) (hquiet : s.Quiet (.closeCallback req))
    (hs' : s.closeCallback name req = some s') : s'.Inv name := by
  have hmem : req ∈ AssocList.keys [(req, false)] := by simp [AssocList.keys]
  rw [TagDistributor.closeCallback] at hs'
  split_ifs at hs' with hrunning hwaiting
  · cases hs'
    refine h.resent h.sound (by simp [keys_clients]) rfl ?_ ?_ ?_
    · intro req' hreq'
      rw [keys_clients, mem_append, not_or] at hreq'
      exact received_send_ne (fun heq : req' = req => hreq'.1 (heq ▸ hrunning)) _
    · intro e he
      rcases mem_markDone he with ⟨rfl, done, hdone⟩ | ⟨hne, hold⟩
      · have hheard := h.running _ hdone
        rw [hquiet _ (mem_append_left _ hdone) rfl] at hheard
        exact hheard.send_mem hmem (run_closing hname h.sound _ _)
      · exact (h.running e hold).of_received (received_send_ne hne _)
    · intro e he
      have hne : e.1 ≠ req := fun heq => h.not_running he (heq ▸ hrunning)
      exact (h.waiting e he).of_received (received_send_ne hne _)
  · cases hs'
    refine h.resent h.sound (by simp [keys_clients]) rfl ?_ ?_ ?_
    · intro req' hreq'
      rw [keys_clients, mem_append, not_or] at hreq'
      exact received_send_ne (fun heq : req' = req => hreq'.2 (heq ▸ hwaiting)) _
    · intro e he
      have hne : e.1 ≠ req := fun heq => hrunning (heq ▸ mem_map_of_mem he)
      exact (h.running e he).of_received (received_send_ne hne _)
    · intro e he
      rcases mem_markDone he with ⟨rfl, done, hdone⟩ | ⟨hne, hold⟩
      · have hheard := h.waiting _ hdone
        rw [hquiet _ (mem_append_right _ hdone) rfl] at hheard
        exact hheard.send_mem hmem (by simp [run_cons, hear_eosTag, expects])
      · exact (h.waiting e hold).of_received (received_send_ne hne _)

@[simp] theorem keys_done : AssocList.keys (reqs.map fun e => (e.1, true)) = AssocList.keys reqs := by
  simp [AssocList.keys]

theorem Inv.closeAllCallbacks (h : s.Inv name) (hname : name ≠ []) (hquiet : s.Quiet .closeAllCallbacks) :
    (s.closeAllCallbacks name).Inv name := by
  refine h.resent h.sound (by simp [TagDistributor.closeAllCallbacks, keys_clients]) rfl
    (fun req hreq => received_of_not_client hreq _ _) ?_ ?_
  · intro e' he'
    obtain ⟨e, he, rfl⟩ := mem_map.1 he'
    have hheard := h.running e he
    rw [hquiet e (mem_append_left _ he)] at hheard
    have hend := hheard.send_mem (mem_map_of_mem he) (run_closing hname h.sound s.last_tag_ts_ s.last_tag_ts_)
    refine hend.of_received (received_send _ ?_ _)
    intro hmem
    obtain ⟨_, he'', heq⟩ := mem_map.1 hmem
    exact h.not_running he'' (heq ▸ mem_map_of_mem he)
  · intro e' he'
    obtain ⟨e, he, rfl⟩ := mem_map.1 he'
    have hheard := h.waiting e he
    rw [hquiet e (mem_append_right _ he)] at hheard
    refine (hheard.of_received (received_send s (h.not_running he) _)).send_mem (mem_map_of_mem he) ?_
    simp [run_cons, hear_eosTag, expects]

theorem Inv.distributeTag (h : s.Inv name) (hname : name ≠ []) {tag : MediaTag} {timestamp_ms : Int}
    (hnested : s.nested tag = true) (hquiet : s.Quiet (.distributeTag tag timestamp_ms)) :
    (s.distributeTag name tag timestamp_ms).Inv name := by
  rw [TagDistributor.distributeTag]
  split_ifs with hbootstrap
  · exact h
  have hopen : ∀ e ∈ s.clients, e.2 = false := hquiet (by simpa using hbootstrap)
  have heos : tag.type_ ≠ .eos := by
    rcases tag with ⟨_, _, _⟩
    rintro rfl
    exact nomatch hnested
  refine h.resent (h.sound.processTag heos) (by simp [distributeTagInternal, clients]) rfl ?_ ?_ (fun e he => nomatch he)
  · intro req hreq
    rw [keys_clients, mem_append, not_or] at hreq
    refine (received_send _ ?_ _).trans (received_send s hreq.2 _)
    simpa [AssocList.keys] using hreq
  · intro e he
    have hmem : e.1 ∈ keys (s.running_ ++ s.to_bootstrap_) := mem_map_of_mem he
    have hdone : e.2 = false := hopen e he
    -- whoever waited is bootstrapped first, and then everyone is in the open sources
    have hjoined : (s.send s.to_bootstrap_ (named name (startedTag name, timestamp_ms) ++
        s.bootstrapper_.playAtBegin timestamp_ms)).Hears name e.1 ⟨s.bootstrapper_.sources ++ [name], false⟩ := by
      rcases mem_append.1 he with hrun | hwait
      · have hheard := h.running e hrun
        rw [hdone] at hheard
        refine hheard.of_received (received_send s ?_ _)
        intro hwait
        obtain ⟨_, he', heq⟩ := mem_map.1 hwait
        exact h.not_running he' (heq ▸ mem_map_of_mem hrun)
      · have hheard := h.waiting e hwait
        rw [hdone] at hheard
        exact hheard.send_mem (mem_map_of_mem hwait) (run_joining hname h.sound timestamp_ms)
    rw [hdone]
    have htag : run (hear name) ⟨s.bootstrapper_.sources ++ [name], false⟩ ([(tag, timestamp_ms)].map Prod.fst) =
        some ⟨(s.bootstrapper_.processTag tag).sources ++ [name], false⟩ := by
      simpa [run_cons] using hear_tag h.sound hnested
    exact hjoined.send_mem hmem htag

/-- A call that sends nothing to a client that has been closed keeps the invariant. -/
theorem Inv.step (h : s.Inv name) (hname : name ≠ []) (e : Event) (hfed : s.Fed e) (hquiet : s.Quiet e)
    (hstep : s.step name e = some s') : s'.Inv name := by
  cases e with
  | addCallback =>
    cases hstep
    exact h.addCallback
  | removeCallback req => exact h.removeCallback hstep
  | distributeTag tag timestamp_ms =>
    cases hstep
    exact h.distributeTag hname hfed hquiet
  | switch =>
    cases hstep
    exact h.switch hquiet
  | reset =>
    cases hstep
    exact h.reset hname hquiet
  | closeCallback req => exact h.closeCallback hname hquiet hstep
  | closeAllCallbacks =>
    cases hstep
    exact h.closeAllCallbacks hname hquiet

theorem inv_init (name : Bytes) (keep_media : Bool) : Inv name { bootstrapper_ := { keep_media_ := keep_media } } where
  sound := ⟨by simp, by simp [kept]⟩
  nodup := nodup_nil
  known := by simp [clients]
  fresh _ _ := rfl
  running := by simp
  waiting := by simp
  formed _ := ⟨_, rfl⟩

/-- In every run in which nothing is sent to a closed client, every client is sent a well-formed stream. -/
theorem clients_hear_wellFormed (hname : name ≠ []) (keep_media : Bool) (es : List Event)
    (hfed : Along (step name) Fed { bootstrapper_ := { keep_media_ := keep_media } } es)
    (hquiet : Along (step name) Quiet { bootstrapper_ := { keep_media_ := keep_media } } es)
    (hrun : run (step name) { bootstrapper_ := { keep_media_ := keep_media } } es = some s) (req : Nat) :
    WellFormed name (s.tagsOf req) :=
  (run_invariant_along (fun _ e _ h hcond hstep => h.step hname e hcond.1 hcond.2 hstep) (inv_init name keep_media)
    (hfed.and hquiet) hrun).formed req

/-- A client hears media, the stream ends, and the element closes when the client has left. -/
theorem clients_hear_wellFormed_left : ∃ s, run (step [1]) { bootstrapper_ := { keep_media_ := false } }
      [.addCallback, .distributeTag ⟨.mediaInfo, Attributes.none, ()⟩ 5, .switch, .closeAllCallbacks,
        .removeCallback 0, .closeAllCallbacks] = some s ∧ WellFormed [1] (s.tagsOf 0) := by
  obtain ⟨s, hs⟩ : ∃ s, run (step [1]) { bootstrapper_ := { keep_media_ := false } }
      [.addCallback, .distributeTag ⟨.mediaInfo, Attributes.none, ()⟩ 5, .switch, .closeAllCallbacks,
        .removeCallback 0, .closeAllCallbacks] = some s := ⟨_, rfl⟩
  exact ⟨s, hs, clients_hear_wellFormed (by decide) false _ (by decide +kernel) (by decide +kernel) hs 0⟩

/-- The stream ends, and the element closes before the client has left: it hears a second end of the pair. -/
theorem client_hears_two_ends : ¬ ∀ (es : List Event) (s : TagDistributor),
    Along (step [1]) Fed { bootstrapper_ := { keep_media_ := false } } es →
      run (step [1]) { bootstrapper_ := { keep_media_ := false } } es = some s →
      WellFormed [1] (s.tagsOf 0) := by
  intro h
  obtain ⟨s, hs⟩ : ∃ s, run (step [1]) { bootstrapper_ := { keep_media_ := false } }
      [.addCallback, .distributeTag ⟨.mediaInfo, Attributes.none, ()⟩ 5, .switch, .closeAllCallbacks,
        .closeAllCallbacks] = some s := ⟨_, rfl⟩
  obtain ⟨_, hheard⟩ := h _ s (by decide +kernel) hs
  cases hs
  exact nomatch hheard

end TagDistributor

end Whispercast.Stream
