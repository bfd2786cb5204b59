import Mathlib.Data.List.Sort
import Whispercast.Library.AssocList
import Whispercast.Library.Run

/-!
# Shared buffers

Model of `io::BufferManager` and of its buffers (`whisperlib/common/io/file/buffer_manager.{h,cc}`), with their users. A
buffer is known by its address, and `buffers` has those that are allocated. A user asks for a buffer once, and its
callback is known by its own number. The steps are the locked sections, and the calls of the callbacks, so any number of
threads may interleave. Whether the free list has memory, the order in which a `hash_set` is copied, and the clock come
with the events. Left out: the memory of the buffers, and `reuse_count_`.
-/

namespace Whispercast.Io

open Library

/-- `Buffer::State`. -/
inductive BufferState where
  | new
  | inLookup
  | validData
  deriving DecidableEq

/-- `BufferManager::Buffer`, and the key for which its data were produced. -/
structure SharedBuffer (K : Type) where
  state_ : BufferState := .new
  data_size_ : Nat := 0
  done_callbacks_ : List Nat := []
  data_key_ : K
  use_count_ : Int
  last_release_time_ : Int := 0
  producedFor : Option K := none

/-- Where a user is: it has got the buffer; `BeginUsage` returned `NEW`; it returned `IN_LOOKUP`; it has the data, and
its `MarkValidData` has still to call some callbacks; it is in `EndUsage`, before `DoneBuffer`. -/
inductive UsagePhase where
  | got
  | producing
  | waiting
  | useData (to_call : List Nat)
  | ending
  deriving DecidableEq

/-- A user of a buffer, and the key for which it asked. -/
structure Usage (K : Type) where
  buffer : Nat
  key : K
  phase : UsagePhase

/-- A callback that `MarkValidData` called, and whether its user was waiting for the data. -/
structure CallbackRun where
  callback : Nat
  waiting : Bool
  deriving DecidableEq

/-- `BufferManager`, its buffers and their users. -/
structure BufferManager (K : Type) where
  active_buffers_ : List (K × Nat) := []
  free_buffers_ : List (K × Nat) := []
  usage_set_ : List (Int × Nat) := []
  buffers : List (Nat × SharedBuffer K) := []
  nextBuffer : Nat := 0
  users : List (Nat × Usage K) := []
  nextUser : Nat := 0
  runs : List CallbackRun := []

namespace BufferManager

variable {K : Type} [DecidableEq K]

/-- The order of `UsageSet`. -/
def olderOrSame (a b : Int × Nat) : Prop := a.1 < b.1 ∨ (a.1 = b.1 ∧ a.2 ≤ b.2)

instance : DecidableRel olderOrSame := fun a b => inferInstanceAs (Decidable (a.1 < b.1 ∨ (a.1 = b.1 ∧ a.2 ≤ b.2)))

/-- `insert` of a map. -/
def insertNew (key : K) (address : Nat) (l : List (K × Nat)) : List (K × Nat) :=
  if l.lookup key = none then (key, address) :: l else l

/-- The other buffers. -/
def buffersWithout (s : BufferManager K) (address : Nat) : List (Nat × SharedBuffer K) :=
  s.buffers.eraseP fun e => e.1 == address

/-- The other users. -/
def usersWithout (s : BufferManager K) (user : Nat) : List (Nat × Usage K) := s.users.eraseP fun e => e.1 == user

/-- A buffer is changed. -/
def setBuffer (s : BufferManager K) (address : Nat) (buf : SharedBuffer K) : BufferManager K :=
  { s with buffers := (address, buf) :: s.buffersWithout address }

/-- A user goes on. -/
def setUser (s : BufferManager K) (user : Nat) (usage : Usage K) : BufferManager K :=
  { s with users := (user, usage) :: s.usersWithout user }

/-- A new user gets a buffer. -/
def give (s : BufferManager K) (key : K) (address : Nat) : BufferManager K :=
  { s with
    users := (s.nextUser, ⟨address, key, .got⟩) :: s.users
    nextUser := s.nextUser + 1 }

/-- `TryReuseFreeBufferLocked`, for a buffer that is found. -/
def reuseFreeBuffer (s : BufferManager K) (key : K) (address : Nat) : Option (BufferManager K) := do
  let buf ← s.buffers.lookup address
  let s' := s.setBuffer address { buf with use_count_ := buf.use_count_ + 1 }
  some { s' with
    free_buffers_ := s.free_buffers_.eraseP fun e => e.1 == key
    usage_set_ := s.usage_set_.erase (buf.last_release_time_, address)
    active_buffers_ := insertNew key address s.active_buffers_ }

/-- `CreateNewBufferLocked`, when the free list has memory. -/
def createNewBuffer (s : BufferManager K) (key : K) : BufferManager K :=
  { s with
    buffers := (s.nextBuffer, { data_key_ := key, use_count_ := 1 }) :: s.buffers
    nextBuffer := s.nextBuffer + 1
    active_buffers_ := insertNew key s.nextBuffer s.active_buffers_ }

/-- `ReDesignateOldestBufferLocked`, for the buffer at the front of `usage_set_`. -/
def reDesignate (s : BufferManager K) (key : K) (address : Nat) : Option (BufferManager K) := do
  let buf ← s.buffers.lookup address
  let s' := s.setBuffer address { buf with
    data_key_ := key
    state_ := .new
    use_count_ := 1 }
  some { s' with
    usage_set_ := s.usage_set_.tail
    free_buffers_ := s.free_buffers_.eraseP fun e => e.1 == buf.data_key_
    active_buffers_ := insertNew key address s.active_buffers_ }

/-- `GetBuffer`; where it returns `NULL` there is no user. -/
def getBuffer (s : BufferManager K) (key : K) (allocates : Bool) : Option (BufferManager K) :=
  match s.active_buffers_.lookup key with
  | some address => do
      let buf ← s.buffers.lookup address
      some ((s.setBuffer address { buf with use_count_ := buf.use_count_ + 1 }).give key address)
  | none =>
    match s.free_buffers_.lookup key with
    | some address => (s.reuseFreeBuffer key address).map fun s => s.give key address
    | none =>
      if allocates then some ((s.createNewBuffer key).give key s.nextBuffer)
      else if s.free_buffers_ = [] then some s
      else
        match s.usage_set_ with
        | [] => some s
        | (_, address) :: _ => (s.reDesignate key address).map fun s => s.give key address

def beginUsage (s : BufferManager K) (user : Nat) (usage : Usage K) : Option (BufferManager K) := do
  let buf ← s.buffers.lookup usage.buffer
  match buf.state_ with
  | .new => some ((s.setBuffer usage.buffer { buf with state_ := .inLookup }).setUser user { usage with phase := .producing })
  | .inLookup =>
    let done_callbacks := if user ∈ buf.done_callbacks_ then buf.done_callbacks_ else user :: buf.done_callbacks_
    some ((s.setBuffer usage.buffer { buf with done_callbacks_ := done_callbacks }).setUser user
      { usage with phase := .waiting })
  | .validData => some (s.setUser user { usage with phase := .useData [] })

/-- The locked section of `MarkValidData`; the callbacks are copied in some order. -/
def markValidData (s : BufferManager K) (user : Nat) (usage : Usage K) (size : Nat) (to_call : List Nat) :
    Option (BufferManager K) := do
  let buf ← s.buffers.lookup usage.buffer
  guard (buf.state_ = .inLookup)
  if to_call.Perm buf.done_callbacks_ then
    some ((s.setBuffer usage.buffer { buf with
      data_size_ := size
      state_ := .validData
      producedFor := some usage.key }).setUser user { usage with phase := .useData to_call })
  else some s

/-- The next callback that `MarkValidData` calls: its user, if it waits for the buffer, goes on with the data. -/
def runCallback (s : BufferManager K) (user : Nat) (usage : Usage K) (callback : Nat) (to_call : List Nat) :
    BufferManager K :=
  let s := s.setUser user { usage with phase := .useData to_call }
  match s.users.lookup callback with
  | some other =>
    if other.buffer = usage.buffer ∧ other.phase = .waiting then
      { s.setUser callback { other with phase := .useData [] } with runs := s.runs ++ [⟨callback, true⟩] }
    else { s with runs := s.runs ++ [⟨callback, false⟩] }
  | none => { s with runs := s.runs ++ [⟨callback, false⟩] }

/-- The locked section of `EndUsage` with the callback of a waiting user. -/
def leave (s : BufferManager K) (user : Nat) (usage : Usage K) : Option (BufferManager K) := do
  let buf ← s.buffers.lookup usage.buffer
  some ((s.setBuffer usage.buffer { buf with done_callbacks_ := buf.done_callbacks_.erase user }).setUser user
    { usage with phase := .ending })

def doneBuffer (s : BufferManager K) (user : Nat) (usage : Usage K) (now : Int) : Option (BufferManager K) := do
  let s := { s with users := s.usersWithout user }
  let buf ← s.buffers.lookup usage.buffer
  let buf := { buf with use_count_ := buf.use_count_ - 1 }
  if 0 < buf.use_count_ then some (s.setBuffer usage.buffer buf)
  else do
    guard (s.active_buffers_.lookup buf.data_key_ ≠ none)
    let s := { s with active_buffers_ := s.active_buffers_.eraseP fun e => e.1 == buf.data_key_ }
    if buf.data_size_ = 0 then some { s with buffers := s.buffersWithout usage.buffer }
    else
      some { s.setBuffer usage.buffer { buf with last_release_time_ := now } with
        usage_set_ :=
          if (now, usage.buffer) ∈ s.usage_set_ then s.usage_set_
          else s.usage_set_.orderedInsert olderOrSame (now, usage.buffer)
        free_buffers_ := insertNew buf.data_key_ usage.buffer s.free_buffers_ }

/-- What the users do. -/
inductive Event (K : Type) where
  | getBuffer (key : K) (allocates : Bool)
  | beginUsage (user : Nat)
  | markValidData (user size : Nat) (to_call : List Nat)
  | runCallback (user : Nat)
  /-- `EndUsage(NULL)`, by a user that has the data. -/
  | endUsage (user : Nat)
  /-- `EndUsage` with its callback, by a user that waits. -/
  | leave (user : Nat)
  | doneBuffer (user : Nat) (now : Int)

/-- One step; what a user does not do in its phase changes nothing. -/
def step (s : BufferManager K) : Event K → Option (BufferManager K)
  | .getBuffer key allocates => s.getBuffer key allocates
  | .beginUsage user =>
    match s.users.lookup user with
    | some ⟨buffer, key, .got⟩ => s.beginUsage user ⟨buffer, key, .got⟩
    | _ => some s
  | .markValidData user size to_call =>
    match s.users.lookup user with
    | some ⟨buffer, key, .producing⟩ => s.markValidData user ⟨buffer, key, .producing⟩ size to_call
    | _ => some s
  | .runCallback user =>
    match s.users.lookup user with
    | some ⟨buffer, key, .useData (callback :: to_call)⟩ =>
      some (s.runCallback user ⟨buffer, key, .useData (callback :: to_call)⟩ callback to_call)
    | _ => some s
  | .endUsage user =>
    match s.users.lookup user with
    | some ⟨buffer, key, .useData []⟩ => some (s.setUser user ⟨buffer, key, .ending⟩)
    | _ => some s
  | .leave user =>
    match s.users.lookup user with
    | some ⟨buffer, key, .waiting⟩ => s.leave user ⟨buffer, key, .waiting⟩
    | _ => some s
  | .doneBuffer user now =>
    match s.users.lookup user with
    | some ⟨buffer, key, .ending⟩ => s.doneBuffer user ⟨buffer, key, .ending⟩ now
    | _ => some s

end BufferManager

end Whispercast.Io
