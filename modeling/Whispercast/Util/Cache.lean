import Mathlib.Algebra.Group.Nat.Defs
import Whispercast.Io.DataBlock
import Whispercast.Library.AssocList
import Whispercast.Library.Run

/-!
# The cache

Model of `util::Cache` (`whisperlib/common/base/cache.h`) and of `io::FindPathBased`, which it uses. An item is known by
its address: the three indexes hold addresses, and `heap` has the items that are allocated. To look at an item that was
deleted is undefined, and the step is `none`. The destructor of the values, the mutex and `ToString` are left out; `Pop`
does not compile.
-/

namespace Whispercast.Util

open Library

/-! ## Paths -/

section FindPathBased

open Io

/-- What `FindPathBased` looks up behind a path that is not empty; the last byte is first. -/
def shorterPath : Bytes → Bytes
  | [] => []
  | c :: rest => if c = 0x2f then rest else rest.dropWhile fun b => b != 0x2f

theorem shorterPath_length_lt (c : UInt8) (rest : Bytes) : (shorterPath (c :: rest)).length < (c :: rest).length := by
  rw [shorterPath]
  split_ifs with h
  · exact Nat.lt_succ_self _
  · exact Nat.lt_succ_of_le (List.dropWhile_sublist _).length_le

/-- The paths that `FindPathBased` looks up, with the last byte first. -/
def searchedReversed : Bytes → List Bytes
  | [] => [[]]
  | c :: rest => (c :: rest) :: searchedReversed (shorterPath (c :: rest))
  termination_by path => path.length
  decreasing_by exact shorterPath_length_lt c rest

/-- The paths that `FindPathBased` looks up, the longest first. -/
def searchedPaths (path : Bytes) : List Bytes := (searchedReversed path.reverse).map List.reverse

end FindPathBased

/-! ## The cache -/

/-- The replacement algorithms. -/
inductive Algorithm where
  | lru
  | mru
  | random

/-- `Cache::Item`. Its place in `items_` is that of its key, its place in `items_by_exp_` that of its address. -/
structure Item (K V : Type) where
  value_ : V
  use_ : Nat
  expiration_ts_ : Int
  key : K
  deriving DecidableEq

/-- A value that was returned, when, and the last value that was added under its key before. -/
structure ReturnedValue (K V : Type) where
  key : K
  value : V
  expiration_ts : Int
  now : Int
  lastAdded : Option V

/-- The parameters of a cache; `searched` are the keys that `GetPathBased` looks up (`searchedPaths` for strings). -/
structure CacheConfig (K : Type) where
  algorithm_ : Algorithm
  max_size_ : UInt32
  expiration_time_ms_ : UInt64
  searched : K → List K

/-- `Cache`, with the values that were added, the last first, and those that were returned. -/
structure Cache (K V : Type) where
  items_ : List (K × Nat) := []
  items_by_use_ : List (Nat × Nat) := []
  items_by_exp_ : List Nat := []
  next_use_ : Nat := 0
  heap : List (Nat × Item K V) := []
  /-- The next address. -/
  nextItem : Nat := 0
  added : List (K × V) := []
  returned : List (ReturnedValue K V) := []

namespace Cache

variable {K V : Type} [DecidableEq K] [LT K] [DecidableLT K]

def delItem (s : Cache K V) (address : Nat) : Option (Cache K V) := do
  let item ← s.heap.lookup address
  some { s with
    items_ := s.items_.eraseP fun e => e.1 == item.key
    items_by_use_ := s.items_by_use_.eraseP fun e => e.1 == item.use_
    items_by_exp_ := s.items_by_exp_.erase address
    heap := s.heap.eraseP fun e => e.1 == address }

/-- The items that `ExpireSomeCache` finds: it stops at the first one that expires in the future. -/
def expired (heap : List (Nat × Item K V)) (now : Int) : List Nat → Option (List Nat)
  | [] => some []
  | address :: rest => do
      let item ← heap.lookup address
      if now < item.expiration_ts_ then some [] else (expired heap now rest).map fun to_del => address :: to_del

/-- Delete one item after another. -/
def delItems : List Nat → Cache K V → Option (Cache K V)
  | [], s => some s
  | address :: rest, s => (s.delItem address).bind (delItems rest)

def expireSomeCache (s : Cache K V) (now : Int) : Option (Cache K V) :=
  (expired s.heap now s.items_by_exp_).bind fun to_del => delItems to_del s

/-- The item that an algorithm chooses. -/
def toDel (algorithm : Algorithm) (s : Cache K V) : Option Nat :=
  match algorithm with
  | .lru => s.items_by_use_.head?.map Prod.snd
  | .mru => s.items_by_use_.getLast?.map Prod.snd
  | .random => s.items_.head?.map Prod.snd

def delByAlgorithm (algorithm : Algorithm) (s : Cache K V) : Option (Cache K V) :=
  if s.items_by_use_ = [] then some s else (s.toDel algorithm).bind s.delItem

/-- The `int64` of the time at which an item expires. -/
def expirationTs (config : CacheConfig K) (now : Int) : Int := (now + config.expiration_time_ms_.toNat).bmod (2 ^ 64)

/-- The end of `Add`: a new item goes into the three indexes. -/
def insert (s : Cache K V) (key : K) (value : V) (expiration_ts : Int) : Cache K V :=
  let use := s.next_use_
  { s with
    next_use_ := (use + 1) % 2 ^ 64
    heap := (s.nextItem, ⟨value, use, expiration_ts, key⟩) :: s.heap
    nextItem := s.nextItem + 1
    items_ := if s.items_.lookup key = none then AssocList.setSorted key s.nextItem s.items_ else s.items_
    items_by_exp_ := s.items_by_exp_ ++ [s.nextItem]
    items_by_use_ := AssocList.setSorted use s.nextItem s.items_by_use_
    added := (key, value) :: s.added }

/-- `Add` for a key that is not there. -/
def addNew (config : CacheConfig K) (s : Cache K V) (now : Int) (key : K) (value : V) : Option (Cache K V) :=
  if config.max_size_.toNat ≤ s.items_.length then
    (s.delByAlgorithm config.algorithm_).map fun s => s.insert key value (expirationTs config now)
  else some (s.insert key value (expirationTs config now))

/-- `Add`; the clock is read twice. -/
def add (config : CacheConfig K) (s : Cache K V) (now later : Int) (key : K) (value : V) (replace : Bool) :
    Option (Cache K V) := do
  let s ← s.expireSomeCache now
  match s.items_.lookup key, replace with
  | some _, false => some s
  | some old_item, true => (s.delItem old_item).bind fun s => s.addNew config later key value
  | none, _ => s.addNew config later key value

/-- The value of an item is returned. -/
def giveOut (s : Cache K V) (now : Int) (item : Item K V) : Cache K V :=
  { s with returned := s.returned ++ [⟨item.key, item.value_, item.expiration_ts_, now, s.added.lookup item.key⟩] }

/-- An item gets the next use number. -/
def touch (s : Cache K V) (address : Nat) (item : Item K V) : Cache K V :=
  { s with
    next_use_ := (s.next_use_ + 1) % 2 ^ 64
    heap := (address, { item with use_ := s.next_use_ }) :: s.heap.eraseP fun e => e.1 == address
    items_by_use_ := AssocList.setSorted s.next_use_ address (s.items_by_use_.eraseP fun e => e.1 == item.use_) }

def get (s : Cache K V) (now : Int) (key : K) : Option (Cache K V) := do
  let s ← s.expireSomeCache now
  match s.items_.lookup key with
  | none => some s
  | some address => do
      let item ← s.heap.lookup address
      some ((s.touch address item).giveOut now item)

/-- The values of all entries are returned. -/
def giveOutAll (now : Int) : List (K × Nat) → Cache K V → Option (Cache K V)
  | [], s => some s
  | e :: rest, s => (s.heap.lookup e.2).bind fun item => giveOutAll now rest (s.giveOut now item)

def getAll (s : Cache K V) (now : Int) : Option (Cache K V) := do
  let s ← s.expireSomeCache now
  giveOutAll now s.items_ s

/-- The item that `FindPathBased` finds. -/
def findPathBased (config : CacheConfig K) (s : Cache K V) (key : K) : Option Nat :=
  (config.searched key).findSome? fun k => s.items_.lookup k

/-- `GetPathBased`, at a time. -/
def getPathBased (config : CacheConfig K) (s : Cache K V) (now : Int) (key : K) : Option (Cache K V) :=
  match s.findPathBased config key with
  | none => some s
  | some address => (s.heap.lookup address).map fun item => s.giveOut now item

def del (s : Cache K V) (key : K) : Option (Cache K V) :=
  match s.items_.lookup key with
  | none => some s
  | some address => s.delItem address

def clear (s : Cache K V) : Cache K V :=
  { s with
    heap := s.heap.filter fun e => e.1 ∉ s.items_.map Prod.snd
    items_ := []
    items_by_use_ := [] }

/-- The operations, with the clock. -/
inductive Event (K V : Type) where
  | add (now later : Int) (key : K) (value : V) (replace : Bool)
  | get (now : Int) (key : K)
  | getAll (now : Int)
  | getPathBased (now : Int) (key : K)
  | del (key : K)
  | clear

/-- One operation. -/
def step (config : CacheConfig K) (s : Cache K V) : Event K V → Option (Cache K V)
  | .add now later key value replace => s.add config now later key value replace
  | .get now key => s.get now key
  | .getAll now => s.getAll now
  | .getPathBased now key => s.getPathBased config now key
  | .del key => s.del key
  | .clear => some s.clear

end Cache

end Whispercast.Util
