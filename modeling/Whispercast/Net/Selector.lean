import Mathlib.Algebra.Group.Nat.Defs
import Mathlib.Data.List.Sort
import Whispercast.Library.Agenda

/-!
# The loop of the selector

Model of the alarms of `net::Selector` (`net/base/selector.cc`): `RegisterAlarm`, `UnregisterAlarm`, `RunInSelectLoop`
and `Loop`, one piece at a time. What a handler, a closure or an alarm does while it runs is a sequence of calls; a
`CHECK` that fails is `none`. `TicksMsec` is the clock of the machine, in milliseconds.
-/

namespace Whispercast.Net

open Library

/-- A `Closure*`; closures are ordered by address. -/
abbrev Closure := Nat

/-- An element of `alarms_`: when, and what. -/
abbrev Alarm := Int × Closure

/-- The order of `pair<int64, Closure*>`. -/
def Alarm.le (x y : Alarm) : Prop := x.1 < y.1 ∨ x.1 = y.1 ∧ x.2 ≤ y.2

instance (x y : Alarm) : Decidable (x.le y) := inferInstanceAs (Decidable (_ ∨ _))

/-- `AlarmSet::insert`. -/
def insertAlarm (x : Alarm) (alarms : List Alarm) : List Alarm :=
  if x ∈ alarms then alarms else alarms.orderedInsert Alarm.le x

/-- What `Loop` is about to do, or what runs. `ran` and `run_count` are the closures run by the call of `RunClosures`
under way and by those before. -/
inductive LoopPhase where
  | idle
  | top
  | sleeping (timeout : Int)
  | events
  | closures (run_count ran : Nat)
  | closure (run_count ran : Nat)
  | alarms
  | alarm
  | closing
  | lastClosures (ran : Nat)
  | lastClosure (ran : Nat)
  | lastAlarms
  | callOnClose
  | ended
  deriving DecidableEq

/-- Code of the application runs in the thread of the selector. -/
def LoopPhase.InCallback : LoopPhase → Prop
  | .events => True
  | .closure _ _ => True
  | .alarm => True
  | .closing => True
  | .lastClosure _ => True
  | .callOnClose => True
  | _ => False

instance : DecidablePred LoopPhase.InCallback := fun phase => by
  cases phase <;> simp only [LoopPhase.InCallback] <;> infer_instance

/-- `tid_ == 0`. -/
def LoopPhase.Outside (phase : LoopPhase) : Prop := phase = .idle ∨ phase = .ended

instance : DecidablePred LoopPhase.Outside := fun _ => inferInstanceAs (Decidable (_ ∨ _))

/-- The flags: `selector_high_alarm_precission`, `selector_num_closures_per_event`. -/
structure SelectorFlags where
  selector_high_alarm_precission : Bool := false
  selector_num_closures_per_event : Nat := 64

/-- `Selector`. What was last read of the clock, what has been registered, and the time at which `LoopStep` has
returned last, are not data of the program. -/
structure Selector where
  phase : LoopPhase := .idle
  should_end_ : Bool := false
  now_ : Int
  alarms_ : List Alarm := []
  reverse_alarms_ : Closure → Option Int := fun _ => none
  to_run_ : List Closure := []
  clock : Nat
  agenda : Agenda Closure Int := {}
  woke : Option Nat := none

/-- The last value of `TicksMsec`, which divides nanoseconds in 64 bits. -/
def maxTicks : Nat := (2 ^ 63 - 1) / 1000000

def kStandardWakeUpTimeMs : Int := 100

/-- What happens: a call, or `Loop` goes on (at its beginning, it is called) and reads the clock where it does. -/
inductive SelectorEvent where
  | registerAlarm (callback : Closure) (timeout_in_ms : Int64)
  | unregisterAlarm (callback : Closure)
  | runInSelectLoop (callback : Closure)
  | makeLoopExit
  | go (ticks : Nat)
  | loopStepFails

namespace Selector

/-- `Selector()`. -/
def new (ticks : Nat) : Selector where
  now_ := ticks
  clock := ticks

def registerAlarm (callback : Closure) (timeout_in_ms : Int64) (s : Selector) : Option Selector :=
  let wake_up_time := (s.now_ + timeout_in_ms.toInt).bmod (2 ^ 64)
  if ¬ (s.phase.InCallback ∨ s.phase.Outside ∧ s.should_end_ = false) then none
  else if ¬ (timeout_in_ms.toInt < 0 ∨ timeout_in_ms.toInt ≤ wake_up_time) then none
  else
    let s := { s with agenda := s.agenda.register callback (s.now_ + timeout_in_ms.toInt) }
    match s.reverse_alarms_ callback with
    | none => some { s with
        reverse_alarms_ := Function.update s.reverse_alarms_ callback (some wake_up_time)
        alarms_ := insertAlarm (wake_up_time, callback) s.alarms_ }
    | some old => some { s with
        reverse_alarms_ := Function.update s.reverse_alarms_ callback (some wake_up_time)
        alarms_ := insertAlarm (wake_up_time, callback) (s.alarms_.erase (old, callback)) }

def unregisterAlarm (callback : Closure) (s : Selector) : Option Selector :=
  if ¬ s.phase.InCallback then none
  else
    let s := { s with agenda := s.agenda.cancel callback }
    match s.reverse_alarms_ callback with
    | none => some s
    | some time =>
      if (time, callback) ∉ s.alarms_ then none
      else some { s with
        alarms_ := s.alarms_.erase (time, callback)
        reverse_alarms_ := Function.update s.reverse_alarms_ callback none }

/-- `now_ = timer::TicksMsec()`, where the flag asks for it. -/
def refresh (p : SelectorFlags) (ticks : Nat) (s : Selector) : Selector :=
  if p.selector_high_alarm_precission then { s with now_ := ticks } else s

/-- `to_sleep_ms`, a difference of 64 bits that is kept in 32. -/
def toSleepMs (s : Selector) : Int :=
  if s.to_run_ ≠ [] then 0
  else
    match s.alarms_ with
    | [] => kStandardWakeUpTimeMs
    | (first, _) :: _ =>
      if first < s.now_ + kStandardWakeUpTimeMs then ((first - s.now_).bmod (2 ^ 64)).bmod (2 ^ 32)
      else kStandardWakeUpTimeMs

/-- The first alarm is taken out of both indexes. -/
def eraseFirst (closure : Closure) (rest : List Alarm) (s : Selector) : Option Selector :=
  if s.reverse_alarms_ closure = none then none
  else some { s with reverse_alarms_ := Function.update s.reverse_alarms_ closure none, alarms_ := rest }

/-- A turn of the loop that runs the alarms. -/
def runAlarm (s : Selector) : Option Selector :=
  match s.alarms_ with
  | [] => some { s with phase := .top }
  | (first, closure) :: rest =>
    if s.now_ < first then some { s with phase := .top }
    else (eraseFirst closure rest s).map fun s =>
      { s with phase := .alarm, agenda := s.agenda.fire closure s.now_ }

/-- A turn of the loop behind `CleanAndCloseAll` that takes alarms. -/
def dropAlarm (ticks : Nat) (s : Selector) : Option Selector :=
  match s.alarms_ with
  | [] => some { s with phase := .callOnClose }
  | (first, closure) :: rest =>
    let s := { s with now_ := ticks }
    if s.now_ < first then some { s with phase := .callOnClose }
    else eraseFirst closure rest s

/-- A turn of the loop that calls `RunClosures`, which ends at the first closure that is run. -/
def runClosure (p : SelectorFlags) (run_count ran ticks : Nat) (s : Selector) : Selector :=
  if ran < p.selector_num_closures_per_event ∧ s.to_run_ ≠ [] then
    { s with phase := .closure run_count (ran + 1), to_run_ := s.to_run_.tail }
  else if ran ≠ 0 ∧ run_count + ran < p.selector_num_closures_per_event then
    { s with phase := .closures (run_count + ran) 0 }
  else { s.refresh p ticks with phase := .alarms }

/-- The same behind `CleanAndCloseAll`, where no closure may be left. -/
def runLastClosure (p : SelectorFlags) (ran : Nat) (s : Selector) : Option Selector :=
  if ran < p.selector_num_closures_per_event ∧ s.to_run_ ≠ [] then
    some { s with phase := .lastClosure (ran + 1), to_run_ := s.to_run_.tail }
  else if ran ≠ 0 then some { s with phase := .lastClosures 0 }
  else if s.to_run_ ≠ [] then none
  else some { s with phase := .lastAlarms }

/-- `Loop` goes on. -/
def go (p : SelectorFlags) (ticks : Nat) (s : Selector) : Option Selector :=
  match s.phase with
  | .idle => some { s with phase := .top, should_end_ := false }
  | .top =>
    if s.should_end_ then some { s with phase := .closing }
    else some { s.refresh p ticks with phase := .sleeping (s.refresh p ticks).toSleepMs }
  | .sleeping _ => some { s with phase := .events, now_ := ticks, woke := some ticks }
  | .events => some { s.refresh p ticks with phase := .closures 0 0 }
  | .closures run_count ran => some (s.runClosure p run_count ran ticks)
  | .closure run_count ran => some { s with phase := .closures run_count ran }
  | .alarms => s.runAlarm
  | .alarm => some { s with phase := .alarms }
  | .closing => some { s with phase := .lastClosures 0, now_ := ticks }
  | .lastClosures ran => s.runLastClosure p ran
  | .lastClosure ran => some { s with phase := .lastClosures ran }
  | .lastAlarms => s.dropAlarm ticks
  | .callOnClose => some { s with phase := .ended }
  | .ended => none

/-- One event. The clock does not go back. -/
def step (p : SelectorFlags) (s : Selector) : SelectorEvent → Option Selector
  | .registerAlarm callback timeout_in_ms => s.registerAlarm callback timeout_in_ms
  | .unregisterAlarm callback => s.unregisterAlarm callback
  | .runInSelectLoop callback => some { s with to_run_ := s.to_run_ ++ [callback] }
  | .makeLoopExit => if s.phase.InCallback then some { s with should_end_ := true } else none
  | .go ticks => if s.clock ≤ ticks ∧ ticks ≤ maxTicks then { s with clock := ticks }.go p ticks else none
  | .loopStepFails =>
    match s.phase with
    | .sleeping _ => some { s with phase := .closing }
    | _ => none

end Selector

end Whispercast.Net
