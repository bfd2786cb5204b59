import Whispercast.Stream.Tag
import Whispercast.Flv.TagSplitter

/-!
# Composition of tags

Model of `TagSplitter::GetNextTag` (`base/tag_splitter.cc`) and of `ComposedTag` (`base/tag.h`). A splitter that
composes puts the audio tags and the video tags between keyframes in composed tags, of `kMaxSize` tags at most.
`GetNextTagInternal` of the subclass is given by the answers that it will return. Statistics are left out.
-/

namespace Whispercast.Stream

open Flv (TagReadStatus Attributes)

/-- The virtual methods of a tag that matter here: its duration, and the timestamp that it stores, if its class has
one. -/
structure TagMethods (Body : TagType → Type) where
  duration_ms : Tag Body → Int
  timestamp_ms : Tag Body → Option Int

/-! ## Composed tags -/

def kMaxSize : Nat := 16

/-- `ComposedTag`; `sub_tag_type_` is `none` for `kAnyType`. -/
structure ComposedTag (Body : TagType → Type) where
  attributes_ : Attributes
  sub_tag_type_ : Option TagType
  tags_ : List (Tag Body)

namespace ComposedTag

variable {Body : TagType → Type} (cls : TagMethods Body)

/-- A new composed tag. -/
def initial : ComposedTag Body := ⟨Attributes.none, none, []⟩

def add_attributes (c : ComposedTag Body) (a : Attributes) : ComposedTag Body :=
  { c with
    attributes_ :=
      ⟨c.attributes_.metadata || a.metadata, c.attributes_.audio || a.audio, c.attributes_.video || a.video,
        c.attributes_.droppable || a.droppable, c.attributes_.canResync || a.canResync⟩ }

/-- `add_tag`: a clone of the tag is added, and its timestamp is not used. It is `none` where the `CHECK` of the types
fails. -/
def add_tag (c : ComposedTag Body) (tag : Tag Body) (_timestamp_ms : Int) : Option (ComposedTag Body) :=
  if c.sub_tag_type_.getD tag.type_ = tag.type_ then
    some { c.add_attributes tag.attributes_ with sub_tag_type_ := some tag.type_, tags_ := c.tags_ ++ [tag] }
  else none

/-- `tags().is_full()`. -/
def is_full (c : ComposedTag Body) : Bool := kMaxSize ≤ c.tags_.length

def duration_ms (c : ComposedTag Body) : Int := (c.tags_.map cls.duration_ms).sum

end ComposedTag

/-! ## The splitter -/

/-- What `GetNextTag` puts into `*tag`. -/
inductive SentTag (Body : TagType → Type) where
  | tag (tag : Tag Body)
  | composed (tag : ComposedTag Body)

/-- `GetNextTagInternal` without a tag: the status, and whether it cleared `*tag`. -/
structure Failure where
  status : TagReadStatus
  notOk : status ≠ .ok
  clears : Bool

/-- What `GetNextTagInternal` returns. -/
inductive Answer (Body : TagType → Type) where
  | ok (tag : Tag Body) (timestamp_ms : Int)
  | failed (failure : Failure)

structure TagSplitter (Body : TagType → Type) where
  next_tag_to_send_ : Option (Tag Body × Int) := none
  max_composition_tag_time_ms_ : Int
  crt_composed_tag_ : Option (ComposedTag Body × Int) := none

/-- A call of `GetNextTag` when it has returned: the status, `*tag` with `*timestamp_ms`, the splitter, and the answers
that are not taken yet. -/
structure Call (Body : TagType → Type) where
  status : TagReadStatus
  tag : Option (SentTag Body × Int)
  splitter : TagSplitter Body
  left : List (Answer Body)

/-- What becomes of a tag that `GetNextTagInternal` returned: it is in the composed tag, or a tag is sent. -/
inductive Taken (Body : TagType → Type) where
  | again (s : TagSplitter Body)
  | send (tag : SentTag Body × Int) (s : TagSplitter Body)

def Tag.IsComposable {Body : TagType → Type} (tag : Tag Body) : Bool :=
  tag.is_audio_tag || (tag.is_video_tag && !tag.can_resync)

namespace TagSplitter

variable {Body : TagType → Type} (cls : TagMethods Body)

/-- The tag that is sent before another is read: one that waits, or a composed tag that is full or long enough. -/
def unsent (s : TagSplitter Body) : Option ((SentTag Body × Int) × TagSplitter Body) :=
  match s.next_tag_to_send_, s.crt_composed_tag_ with
  | some (tag, ts), _ => some ((.tag tag, ts), { s with next_tag_to_send_ := none })
  | none, some (c, ts) =>
    if c.is_full ∨ s.max_composition_tag_time_ms_ < c.duration_ms cls then
      some ((.composed c, ts), { s with crt_composed_tag_ := none })
    else none
  | none, none => none

/-- A tag is read. -/
def takeTag (s : TagSplitter Body) (tag : Tag Body) (timestamp_ms : Int) : Option (Taken Body) :=
  match s.crt_composed_tag_ with
  | some (c, ts) =>
    if tag.IsComposable then
      (c.add_tag tag timestamp_ms).map fun c => .again { s with crt_composed_tag_ := some (c, ts) }
    else
      -- The tag is not composable: it waits, and the composed tag is sent.
      some (.send (.composed c, ts)
        { s with next_tag_to_send_ := some (tag, timestamp_ms), crt_composed_tag_ := none })
  | none =>
    if 0 < s.max_composition_tag_time_ms_ ∧ tag.IsComposable then
      (ComposedTag.initial.add_tag tag timestamp_ms).map fun c =>
        .again { s with crt_composed_tag_ := some (c, timestamp_ms) }
    else some (.send (.tag tag, timestamp_ms) s)

/-- No tag is read. `tag` is what `*tag` holds: a tag that was composed in this call is still there. -/
def failed (s : TagSplitter Body) (tag : Option (SentTag Body × Int)) (f : Failure) (is_at_eos : Bool)
    (left : List (Answer Body)) : Option (Call Body) :=
  let tag := if f.clears then none else tag
  if f.status = .noData then
    match s.crt_composed_tag_, is_at_eos with
    | some (c, ts), true => some ⟨.ok, some (.composed c, ts), { s with crt_composed_tag_ := none }, left⟩
    | _, _ => some ⟨if is_at_eos then .eof else .noData, tag, s, left⟩
  -- `CHECK_NULL(tag->get())`.
  else if tag.isNone then some ⟨f.status, none, s, left⟩ else none

/-- `TagSplitter::GetNextTag`, from a pass of its loop on: `tag` is what `*tag` holds. The answers come one after
another, and then `last` for ever. It is `none` where a `CHECK` fails. -/
def getNextTag (last : Failure) (is_at_eos : Bool) (s : TagSplitter Body) (tag : Option (SentTag Body × Int))
    (answers : List (Answer Body)) : Option (Call Body) :=
  match s.unsent cls with
  | some (sent, s') => some ⟨.ok, some sent, s', answers⟩
  | none =>
    match answers with
    | [] => s.failed tag last is_at_eos []
    | .failed f :: rest => s.failed tag f is_at_eos rest
    | .ok read ts :: rest =>
      match s.takeTag read ts with
      | none => none
      | some (.again s') => getNextTag last is_at_eos s' (some (.tag read, ts)) rest
      | some (.send sent s') => some ⟨.ok, some sent, s', rest⟩

end TagSplitter

/-! ## Reading to the end -/

namespace Answer

variable {Body : TagType → Type}

/-- The tag of an answer. -/
def tag : Answer Body → Option (Tag Body × Int)
  | ok tag ts => some (tag, ts)
  | failed _ => none

/-- `READ_NO_DATA`. -/
def IsNoData : Answer Body → Prop
  | ok _ _ => False
  | failed f => f.status = .noData

end Answer

/-- How the subclass and the caller behave: tags with `READ_SKIP` and `READ_NO_DATA` between them, and `READ_EOF` or
`READ_NO_DATA` at the end; the caller passes `is_at_eos` when no data is to come. -/
structure Behaviour (Body : TagType → Type) where
  answers : List (Answer Body)
  last : Failure
  is_at_eos : List (Answer Body) → Bool
  interleaved : ∀ f, .failed f ∈ answers → f.status = .skip ∨ f.status = .noData
  ended : last.status = .eof ∨ last.status = .noData
  more : ∀ left, left <:+ answers → (∃ a ∈ left, a.IsNoData) → is_at_eos left = false
  exhausted : ∀ left, left <:+ answers → (∀ a ∈ left, ¬ a.IsNoData) → last.status = .noData → is_at_eos left = true

namespace Behaviour

variable {Body : TagType → Type} (cls : TagMethods Body) (b : Behaviour Body)

/-- The next call of `GetNextTag`, with an empty `*tag`. -/
def next (s : TagSplitter Body) (left : List (Answer Body)) : Option (Call Body) :=
  s.getNextTag cls b.last (b.is_at_eos left) none left

/-- `GetNextTag` is called until it returns `READ_EOF`, and returned these tags. -/
inductive Drained : Option (Call Body) → List (SentTag Body × Int) → Prop where
  | eof {call : Call Body} (h : call.status = .eof) : Drained (some call) []
  | sent {call : Call Body} {tag : SentTag Body × Int} {tags : List (SentTag Body × Int)} (h : call.status = .ok)
      (htag : call.tag = some tag) (rest : Drained (b.next cls call.splitter call.left) tags) :
      Drained (some call) (tag :: tags)
  | again {call : Call Body} {tags : List (SentTag Body × Int)} (h : call.status = .skip ∨ call.status = .noData)
      (rest : Drained (b.next cls call.splitter call.left) tags) : Drained (some call) tags

end Behaviour

/-- A composed tag is replaced by the tags inside it. A tag that stores no timestamp has that of the composed tag. -/
def SentTag.unpack {Body : TagType → Type} (cls : TagMethods Body) : SentTag Body × Int → List (Tag Body × Int)
  | (tag t, ts) => [(t, ts)]
  | (composed c, ts) => c.tags_.map fun t => (t, (cls.timestamp_ms t).getD ts)

end Whispercast.Stream
