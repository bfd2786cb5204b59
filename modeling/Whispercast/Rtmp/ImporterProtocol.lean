import Whispercast.Rtmp.PublishStream
import Whispercast.Library.Run

/-!
# The protocol of an importer

A publisher and its importer follow a protocol: a start, its answer, and when that is good, tags until an EOS or until
the importer stops the publisher. The tags are those of the media events that came meanwhile. Here are the protocol,
the condition under which a stream keeps it, and the invariant.
-/

namespace Whispercast.Rtmp

open Io Library Amf Flv

/-- Where a publisher and its importer are. -/
inductive Phase (ι : Type) where
  | idle
  | pending (importer : ι)
  /-- The importer has stopped the publisher and has yet to answer its start. -/
  | stopped (importer : ι)
  | publishing (importer : ι)

namespace PublishStream

variable {ι : Type}

/-- The protocol. -/
def Phase.next [DecidableEq ι] : Phase ι → Call ι → Option (Phase ι)
  | .idle, .start i _ _ => some (.pending i)
  | .pending i, .startCompleted j success =>
    if i = j then some (if success then .publishing i else .idle) else none
  | .pending i, .stop j => if i = j then some (.stopped i) else none
  | .stopped i, .startCompleted j _ => if i = j then some .idle else none
  | .publishing i, .processTag j tag _ =>
    if i = j then some (if tag.IsEos then .idle else .publishing i) else none
  | .publishing i, .stop j => if i = j then some .idle else none
  | _, _ => none

/-- One call more behind the tags that have been given since the last start. -/
def giveTag (tags : List FlvTag) : Call ι → List FlvTag
  | .start _ _ _ => []
  | .processTag _ (.flv tag) _ => tags ++ [tag]
  | _ => tags

/-- The tags of the client that an importer has been given since the last start. -/
def given (calls : List (Call ι)) : List FlvTag := calls.foldl giveTag []

/-- The tags that are to be sent. -/
def kept (tags : List FlvTag) : List FlvTag := tags.filter fun tag => ¬ Eaten tag

/-- What an importer gets is one well-formed stream for each start, and with the last reference to the publisher
nothing is left of it. -/
structure WellFormed [DecidableEq ι] (s : PublishStream ι) : Prop where
  protocol : ∃ phase, run Phase.next .idle s.calls = some phase
  /-- Tags are given in order. -/
  order : given s.calls <+: kept s.fed
  /-- When an EOS is given, no tag is missing. -/
  complete : ∀ i forced timestamp_ms, s.calls.getLast? = some (.processTag i (.eos forced) timestamp_ms) →
    given s.calls = kept s.fed
  /-- A publishing has been ended by an EOS or by the importer. -/
  ends : s.ref_count_ = 0 → s.importer_ = none ∧ run Phase.next .idle s.calls = some .idle

/-! ## The condition -/

def MediaClosure.IsStart : MediaClosure → Bool
  | .startPublishing _ => true
  | .sendTag _ _ => false

def NetClosure.IsCompletion : NetClosure → Bool
  | .startCompleted _ => true
  | _ => false

/-- An accepted `publish` is under way: its start is queued or not answered, or the answer is queued. -/
def InFlight (s : PublishStream ι) : Prop :=
  s.media_queue.any MediaClosure.IsStart = true ∨ s.owed ≠ [] ∨ s.dropped ≠ [] ∨
    s.net_queue.any NetClosure.IsCompletion = true

/-- The importer has been started and has not answered. -/
def Waiting (s : PublishStream ι) : Prop := s.importer_.isSome = true ∧ s.owed ≠ []

instance (s : PublishStream ι) : Decidable s.InFlight := inferInstanceAs (Decidable (_ ∨ _))

instance (s : PublishStream ι) : Decidable s.Waiting := inferInstanceAs (Decidable (_ ∧ _))

/-- The next closure of the media selector sends an EOS. -/
def EosNext (s : PublishStream ι) : Prop :=
  match s.media_queue with
  | .sendTag tag _ :: _ => tag.IsEos
  | _ => False

instance (s : PublishStream ι) : Decidable s.EosNext := by unfold EosNext; split <;> infer_instance

/-- No good `publish` comes while another one is under way, importers accept the publishers that they have not
stopped, and a publisher that ends waits for the answer of its importer. -/
def Careful [DecidableEq ι] (env : Surroundings) (s : PublishStream ι) : Input ι → Prop
  | .event event _ _ =>
    (invokedMethod event.body = some kMethodPublish → (publishRequest env event.body).isSome = true →
      s.importer_.isNone = true → ¬ s.InFlight) ∧
    (env.one_thread = true →
      invokedMethod event.body = some kMethodPublish ∨ invokedMethod event.body = some kMethodUnpublish →
        ¬ s.Waiting)
  | .deleteStream => env.one_thread = true → ¬ s.Waiting
  | .connectionClosed => env.one_thread = true → ¬ s.Waiting
  | .runNet => True
  | .runMedia _ => s.EosNext → ¬ s.Waiting
  | .importerCompletes i success => i ∈ s.owed → success = true
  | .importerStops _ => True

instance [DecidableEq ι] (env : Surroundings) (s : PublishStream ι) (input : Input ι) : Decidable (Careful env s input) := by
  cases input <;> unfold Careful <;> infer_instance

/-! ## Queues -/

/-- Whether an importer is set behind a closure. -/
def opens (b : Bool) : MediaClosure → Bool
  | .startPublishing _ => true
  | .sendTag (.eos _) _ => false
  | .sendTag _ _ => b

/-- Whether an importer is set behind a queue, when every start finds one. -/
def openAfter (b : Bool) (queue : List MediaClosure) : Bool := queue.foldl opens b

/-- The tags that wait in front of an EOS. -/
def waitingTags : List MediaClosure → List FlvTag
  | .sendTag (.flv tag) _ :: queue => tag :: waitingTags queue
  | .sendTag (.mediaInfo _ _ _) _ :: queue => waitingTags queue
  | _ => []

/-- Nothing but EOS waits. -/
def Silent (queue : List MediaClosure) : Prop := ∀ c ∈ queue, ∃ forced timestamp_ms, c = .sendTag (.eos forced) timestamp_ms

/-- Nothing but EOS waits behind a start. -/
def SilentBehind : List MediaClosure → Prop
  | [] => True
  | .startPublishing _ :: queue => Silent queue
  | _ :: queue => SilentBehind queue

@[simp] theorem openAfter_cons (b : Bool) (c : MediaClosure) (queue : List MediaClosure) :
    openAfter b (c :: queue) = openAfter (opens b c) queue := rfl

@[simp] theorem openAfter_append (b : Bool) (queue queue' : List MediaClosure) :
    openAfter b (queue ++ queue') = openAfter (openAfter b queue) queue' := List.foldl_append

variable {queue : List MediaClosure}

theorem openAfter_false (h : queue.countP MediaClosure.IsStart = 0) : openAfter false queue = false := by
  induction queue with
  | nil => rfl
  | cons c queue ih =>
    cases c with
    | startPublishing auth => simp [MediaClosure.IsStart] at h
    | sendTag tag ts =>
      have hrest : openAfter false queue = false := ih (by simpa [MediaClosure.IsStart] using h)
      cases tag <;> exact hrest

/-- What is queued behind a queue waits, too, if the stream is still open behind it. -/
theorem waitingTags_append_queue (queue' : List MediaClosure) (hstart : queue.countP MediaClosure.IsStart = 0) :
    waitingTags (queue ++ queue') = waitingTags queue ++ if openAfter true queue then waitingTags queue' else [] := by
  induction queue with
  | nil => rfl
  | cons c queue ih =>
    cases c with
    | startPublishing auth => simp [MediaClosure.IsStart] at hstart
    | sendTag tag ts =>
      have hstart' : queue.countP MediaClosure.IsStart = 0 := by simpa [MediaClosure.IsStart] using hstart
      cases tag with
      | flv tag => exact congrArg (tag :: ·) (ih hstart')
      | mediaInfo m a v => exact ih hstart'
      | eos forced => simp [waitingTags, opens, openAfter_false hstart']

theorem waitingTags_append_eos (queue : List MediaClosure) (forced : Bool) (ts : Int) :
    waitingTags (queue ++ [.sendTag (.eos forced) ts]) = waitingTags queue := by
  induction queue with
  | nil => rfl
  | cons c queue ih =>
    cases c with
    | startPublishing auth => rfl
    | sendTag tag ts => cases tag <;> simp [waitingTags, ih]

theorem Silent.append (h : Silent queue) (forced : Bool) (ts : Int) :
    Silent (queue ++ [.sendTag (.eos forced) ts]) := by
  intro c hc
  rcases List.mem_append.1 hc with hc | hc
  · exact h c hc
  · exact ⟨forced, ts, List.mem_singleton.1 hc⟩

theorem SilentBehind.append (h : SilentBehind queue) (forced : Bool) (ts : Int) :
    SilentBehind (queue ++ [.sendTag (.eos forced) ts]) := by
  induction queue with
  | nil => trivial
  | cons c queue ih =>
    cases c with
    | startPublishing auth => exact Silent.append h forced ts
    | sendTag tag ts' => exact ih h

theorem SilentBehind.append_start (h : queue.countP MediaClosure.IsStart = 0)
    (auth : AuthorizerRequest) : SilentBehind (queue ++ [.startPublishing auth]) := by
  induction queue with
  | nil => intro c hc; cases hc
  | cons c queue ih =>
    cases c with
    | startPublishing auth => simp [MediaClosure.IsStart] at h
    | sendTag tag ts => exact ih (by simpa [MediaClosure.IsStart] using h)

theorem Silent.waitingTags_eq (h : Silent queue) : waitingTags queue = [] := by
  cases queue with
  | nil => rfl
  | cons c queue =>
    obtain ⟨-, -, rfl⟩ := h c List.mem_cons_self
    rfl

theorem Silent.tail {c : MediaClosure} (h : Silent (c :: queue)) : Silent queue :=
  fun d hd => h d (List.mem_cons_of_mem c hd)

theorem given_append (calls : List (Call ι)) (c : Call ι) : given (calls ++ [c]) = giveTag (given calls) c := by
  simp [given]

/-! ## The invariant -/

/-- How far the stream is. -/
inductive Stage (ι : Type) where
  | quiet
  | queued
  | pending (importer : ι)
  | stopped (importer : ι)
  /-- The answer is on its way to the network thread; the importer, when it is still attached. -/
  | answered (on : Option ι)
  | publishing (importer : ι)

namespace Stage

def importer : Stage ι → Option ι
  | pending i => some i
  | publishing i => some i
  | answered on => on
  | _ => none

def isPending : Stage ι → Bool
  | pending _ => true
  | stopped _ => true
  | answered _ => true
  | _ => false

def owed : Stage ι → List ι
  | pending i => [i]
  | _ => []

def dropped : Stage ι → List ι
  | stopped i => [i]
  | _ => []

def attached : Stage ι → List ι
  | answered on => on.toList
  | publishing i => [i]
  | _ => []

def phase : Stage ι → Phase ι
  | pending i => .pending i
  | stopped i => .stopped i
  | answered (some i) => .publishing i
  | publishing i => .publishing i
  | _ => .idle

def starts : Stage ι → Nat
  | queued => 1
  | _ => 0

def completions : Stage ι → Nat
  | answered _ => 1
  | _ => 0

/-- Nothing but EOS waits behind a start that has not been completed. -/
def Quiet (queue : List MediaClosure) : Stage ι → Prop
  | quiet => True
  | queued => SilentBehind queue
  | publishing _ => True
  | _ => Silent queue

/-- What has been given, what waits and what has come. -/
def Ordered (s : PublishStream ι) : Stage ι → Prop
  | pending _ => given s.calls ++ waitingTags s.media_queue = kept s.fed
  | stopped _ => given s.calls ++ waitingTags s.media_queue = kept s.fed
  | answered (some _) => given s.calls ++ waitingTags s.media_queue = kept s.fed
  | publishing _ => given s.calls ++ waitingTags s.media_queue = kept s.fed
  | _ => given s.calls <+: kept s.fed ∧
      ∀ i forced ts, s.calls.getLast? = some (.processTag i (.eos forced) ts) → given s.calls = kept s.fed

end Stage

/-- The closures of the network selector that hold a reference. -/
def NetClosure.Holds : NetClosure → Bool
  | .deleteStream => false
  | _ => true

/-- References, `n` of them held by the code that runs, and the deletion that follows the last one. -/
structure Refs (n : Nat) (s : PublishStream ι) : Prop where
  refs : s.ref_count_ + s.closed.toNat =
    1 + s.media_queue.length + s.net_queue.countP NetClosure.Holds + s.owed.length + s.dropped.length + n
  deletion : s.net_queue.count NetClosure.deleteStream = if s.ref_count_ = 0 ∧ s.deleted = false then 1 else 0
  deleted : s.deleted = true → s.ref_count_ = 0

/-- The invariant. -/
structure Inv [DecidableEq ι] (n : Nat) (s : PublishStream ι) (g : Stage ι) : Prop extends Refs n s where
  closed : s.closed = true → s.ended = true
  opens : openAfter s.importer_.isSome s.media_queue = !s.ended
  stops : ∀ forced, NetClosure.internalStop true forced ∉ s.net_queue
  starts : s.media_queue.countP MediaClosure.IsStart = g.starts
  completions : s.net_queue.countP NetClosure.IsCompletion = g.completions
  accepted : ∀ i, g = .answered (some i) → NetClosure.startCompleted false ∉ s.net_queue
  importer : s.importer_ = g.importer
  pending : s.pending_start_ = g.isPending
  owed : s.owed = g.owed
  dropped : s.dropped = g.dropped
  attached : s.attached = g.attached
  phase : run Phase.next .idle s.calls = some g.phase
  unopened : g.isPending = true ∨ g = .queued → s.opened = false
  opened : ∀ i, g = .publishing i → s.ended = false → s.opened = true
  quiet : g.Quiet s.media_queue
  ordered : g.Ordered s

end PublishStream

end Whispercast.Rtmp
