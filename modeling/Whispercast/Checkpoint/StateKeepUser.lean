import Whispercast.Checkpoint.PrefixRange

/-!
# Users of a state keeper

Model of `StateKeepUser` (`common/io/checkpoint/state_keeper.{h,cc}`): its part of the state is the keys with its prefix,
and expires as a whole. The time at which it does is kept in the name of a timeout key, in the value `__t__` of the
prefix, and in `crt_timeout_`. Several users of one prefix live at the same time. Every call of `Date::Now` reads the
clock; a call of a user is given its readings. A `CHECK` that fails is `none`.
-/

namespace Whispercast.Checkpoint

open Io Library
open Http (ascii intToString cStr)

def kMinUpdateTimeoutThresholdMs : Int := 1000

/-- `StringPrintf("%025lld", n)`. -/
def printTime (n : Int) : Bytes :=
  if n < 0 then 45 :: Numeral.padded 10 24 n.natAbs else Numeral.padded 10 25 n.natAbs

/-- The timeout key of a prefix, `StringPrintf("%s/%025lld/%s")`. -/
def timeoutKey (user : Bytes) (time : Int) : Bytes :=
  kStateKeeperTimeoutKey ++ 47 :: (printTime time ++ 47 :: cStr user)

structure StateKeepUser where
  prefix_ : Bytes
  timeout_ms_ : Int
  crt_timeout_ : Int := 0

namespace StateKeepUser

/-- The constructor. -/
def new (k : StateKeeper) (user : Bytes) (timeout_ms : Int) : Option StateKeepUser :=
  if user = [] then none
  else
    some {
      prefix_ := user
      timeout_ms_ := timeout_ms
      crt_timeout_ :=
        match k.data_.lookup (user ++ kStateKeeperTimeoutKey) with
        | none => 0
        | some str_crt_timeout => (Numeral.strtol 10 str_crt_timeout).1 }

def cleanTimeout (k : StateKeeper) (u : StateKeepUser) : Option (StateKeeper × StateKeepUser) :=
  if u.crt_timeout_ ≤ 0 then some (k, u)
  else (k.deleteValue (timeoutKey u.prefix_ u.crt_timeout_)).map fun k => (k, { u with crt_timeout_ := 0 })

/-- `UpdateTimeout`, with what the clock shows. It sets the value `__t__` through `SetValue`, which comes back to it. -/
def updateTimeout : List Int → StateKeeper → StateKeepUser → Option (StateKeeper × StateKeepUser)
  | [], k, u => if u.timeout_ms_ ≤ 0 then some (k, u) else none
  | now :: times, k, u =>
    if u.timeout_ms_ ≤ 0 then some (k, u)
    else
      let new_timeout := now + u.timeout_ms_
      if new_timeout - u.crt_timeout_ < kMinUpdateTimeoutThresholdMs then some (k, u)
      else
        (k.setValue (timeoutKey u.prefix_ new_timeout) u.prefix_).bind fun k =>
          (k.setValue (u.prefix_ ++ kStateKeeperTimeoutKey) (intToString new_timeout)).bind fun k =>
            (updateTimeout times k { u with crt_timeout_ := new_timeout }).bind fun (k, u') =>
              if 0 < u.crt_timeout_ then
                (k.deleteValue (timeoutKey u.prefix_ u.crt_timeout_)).map fun k => (k, u')
              else some (k, u')

def setValue (times : List Int) (key value : Bytes) (k : StateKeeper) (u : StateKeepUser) :
    Option (StateKeeper × StateKeepUser) :=
  if u.timeout_ms_ = 0 then some (k, u)
  else
    (k.setValue (u.prefix_ ++ key) value).bind fun k =>
      if u.timeout_ms_ < 0 then some (k, u) else updateTimeout times k u

def deleteValue (key : Bytes) (k : StateKeeper) (u : StateKeepUser) : Option (StateKeeper × StateKeepUser) :=
  (k.deleteValue (u.prefix_ ++ key)).map fun k => (k, u)

def deletePrefix (start : Bytes) (k : StateKeeper) (u : StateKeepUser) : Option (StateKeeper × StateKeepUser) :=
  (if start = [] then cleanTimeout k u else some (k, u)).bind fun (k, u) =>
    (k.deletePrefix (u.prefix_ ++ start)).map fun k => (k, u)

def deleteAllValues (k : StateKeeper) (u : StateKeepUser) : Option (StateKeeper × StateKeepUser) :=
  (k.deletePrefix u.prefix_).map fun k => (k, u)

def beginTransaction (k : StateKeeper) (u : StateKeepUser) : Option (StateKeeper × StateKeepUser) :=
  k.beginTransaction.map fun k => (k, u)

def commitTransaction (times : List Int) (k : StateKeeper) (u : StateKeepUser) : Option (StateKeeper × StateKeepUser) :=
  (updateTimeout times k u).bind fun (k, u) => k.commitTransaction.map fun k => (k, u)

end StateKeepUser

/-! ## Users of one prefix -/

/-- A keeper, and the users of a prefix that were created over time. -/
structure Users where
  keeper : StateKeeper
  users : List StateKeepUser := []

/-- What happens to a keeper. A user is known by its number. -/
inductive UserEvent where
  | newUser (timeout_ms : Int)
  | setValue (user : Nat) (key value : Bytes) (times : List Int)
  | deleteValue (user : Nat) (key : Bytes)
  | deletePrefix (user : Nat) (start : Bytes)
  | deleteAllValues (user : Nat)
  | beginTransaction (user : Nat)
  | commitTransaction (user : Nat) (times : List Int)
  | expireTimeoutedKeys (now : Int)

namespace Users

/-- A call of a user. -/
def call (s : Users) (i : Nat) (f : StateKeeper → StateKeepUser → Option (StateKeeper × StateKeepUser)) :
    Option Users :=
  s.users[i]?.bind fun u => (f s.keeper u).map fun (k, u) => ⟨k, s.users.set i u⟩

/-- One event, for the users of a prefix. -/
def step (user : Bytes) (s : Users) : UserEvent → Option Users
  | .newUser timeout_ms =>
    (StateKeepUser.new s.keeper user timeout_ms).map fun u => { s with users := s.users ++ [u] }
  | .setValue i key value times => s.call i (StateKeepUser.setValue times key value)
  | .deleteValue i key => s.call i (StateKeepUser.deleteValue key)
  | .deletePrefix i start => s.call i (StateKeepUser.deletePrefix start)
  | .deleteAllValues i => s.call i StateKeepUser.deleteAllValues
  | .beginTransaction i => s.call i StateKeepUser.beginTransaction
  | .commitTransaction i times => s.call i (StateKeepUser.commitTransaction times)
  | .expireTimeoutedKeys now => (s.keeper.expireTimeoutedKeys now).map fun k => { s with keeper := k }

end Users

/-! ## What users may rely on -/

/-- A value of a user that is not to expire before a time. -/
structure Owed where
  key : Bytes
  value : Bytes
  due : Int
  deriving DecidableEq

/-- The timeouts of the users, and the values that were set, not deleted and not overwritten since, and whose time has
not come at an `ExpireTimeoutedKeys`. -/
structure Promise where
  timeouts : List Int := []
  owed : List Owed := []

namespace Promise

/-- One event. A value that is set at a time stays until its timeout is over, but for the threshold. -/
def step (p : Promise) : UserEvent → Promise
  | .newUser timeout_ms => { p with timeouts := p.timeouts ++ [timeout_ms] }
  | .setValue i key value times =>
    let due := times.headD 0 + p.timeouts.getD i 0 - kMinUpdateTimeoutThresholdMs
    { p with owed := ⟨key, value, due⟩ :: p.owed.filter fun o => o.key ≠ key }
  | .deleteValue _ key => { p with owed := p.owed.filter fun o => o.key ≠ key }
  | .deletePrefix _ start => { p with owed := p.owed.filter fun o => ¬ start <+: o.key }
  | .deleteAllValues _ => { p with owed := [] }
  | .beginTransaction _ => p
  | .commitTransaction _ _ => p
  | .expireTimeoutedKeys now => { p with owed := p.owed.filter fun o => now < o.due }

/-- All events, one after another. -/
def ofEvents (es : List UserEvent) : Promise := es.foldl step {}

end Promise

end Whispercast.Checkpoint
