import Mathlib.Data.Option.Basic
import Whispercast.Io.DataBlock
import Whispercast.Library.Run

/-!
# The target of a switching element

Model of `SwitchingElement` (`elements/standard_library/switching/switching_element.cc`), as far as it decides on the
media that it plays. The media of the last `SwitchCurrentMedia` is registered upstream, or `register_alarm_` will
register it, or it is reserved until a client comes. The element upstream takes every request, `Close` is not called,
and the policy does nothing in `Reset`; in `NotifyEos` it may switch, which is a step of its own. Left out: tags,
flavours, how long the alarms take, and the info of the request.
-/

namespace Whispercast.Stream

open Library
open Io (Bytes)

/-- What does not change in a `SwitchingElement`. -/
structure SwitchingConfig where
  media_only_when_used_ : Bool
  is_temporary_template_ : Bool := false

/-- `SwitchingElement`: `req_` says whether there is a request upstream, `register_alarm_` what it will register, and
`clients` are the requests in the distributors. `target` is the media of the last `SwitchCurrentMedia`, until the stream
ends. -/
structure SwitchingElement where
  current_media_ : Bytes := []
  req_ : Bool := false
  media_name_to_register_ : Bytes := []
  register_alarm_ : Option Bytes := none
  stream_ended_alarm_ : Bool := false
  clients : List Nat := []
  target : Bytes := []
  deriving DecidableEq

namespace SwitchingElement

variable (config : SwitchingConfig) (s : SwitchingElement)

def register (media_name : Bytes) : Option SwitchingElement :=
  if config.is_temporary_template_ then some s
  else do
    guard (s.req_ = false)
    some { s with
      req_ := true
      current_media_ := media_name }

def unregister : SwitchingElement :=
  let s := { s with register_alarm_ := none }
  if s.req_ then
    { s with
      req_ := false
      current_media_ := [] }
  else s

def switchCurrentMedia (target_media_name : Bytes) (force_switch : Bool) : SwitchingElement :=
  let s := { s with target := target_media_name }
  if s.current_media_ = target_media_name ∧ force_switch = false then s
  else
    let s := s.unregister
    if target_media_name = [] then s
    else if config.media_only_when_used_ = true ∧ s.clients = [] then
      { s with media_name_to_register_ := target_media_name }
    else { s with register_alarm_ := some target_media_name }

/-- `StreamEnded`, up to the call of the policy. -/
def streamEnded : SwitchingElement :=
  if s.req_ then { s.unregister with target := [] } else s

/-- `AddRequest` of a request that is taken. -/
def addRequest (req : Nat) : Option SwitchingElement := do
  let s ←
    if s.media_name_to_register_ ≠ [] then
      (s.register config s.media_name_to_register_).map fun s => { s with media_name_to_register_ := [] }
    else some s
  some { s with clients := req :: s.clients }

def removeRequest (req : Nat) : SwitchingElement :=
  let s := { s with clients := s.clients.erase req }
  if config.media_only_when_used_ = true ∧ s.clients = [] then
    { s with media_name_to_register_ := s.current_media_ }.unregister
  else s

/-- What happens. -/
inductive Event where
  | switchCurrentMedia (target_media_name : Bytes) (force_switch : Bool)
  | addRequest (req : Nat)
  | removeRequest (req : Nat)
  /-- `register_alarm_` fires. -/
  | registerAlarm
  /-- A tag `EOS` comes from upstream. -/
  | eos
  /-- `stream_ended_alarm_` fires. -/
  | streamEndedAlarm
  /-- `TagReceiveTimeout`. -/
  | tagReceiveTimeout

/-- One step; what does not happen in a state changes nothing. -/
def step : Event → Option SwitchingElement
  | .switchCurrentMedia target_media_name force_switch => some (s.switchCurrentMedia config target_media_name force_switch)
  | .addRequest req => if req ∈ s.clients then some s else s.addRequest config req
  | .removeRequest req => if req ∈ s.clients then some (s.removeRequest config req) else some s
  | .registerAlarm =>
    match s.register_alarm_ with
    | none => some s
    | some media_name => { s with register_alarm_ := none }.register config media_name
  | .eos => if s.req_ then some { s with stream_ended_alarm_ := true } else some s
  | .streamEndedAlarm =>
    if s.stream_ended_alarm_ then some { s with stream_ended_alarm_ := false }.streamEnded else some s
  | .tagReceiveTimeout => some s.streamEnded

/-! ## The target -/

/-- The target is registered upstream. -/
def Registered : Prop := s.req_ = true ∧ s.current_media_ = s.target

/-- The target will be registered by the alarm. -/
def Scheduled : Prop := s.register_alarm_ = some s.target

/-- The target waits for a client. -/
def Reserved : Prop := s.media_name_to_register_ = s.target ∧ s.clients = []

/-- The places of a target are empty. -/
structure Vacant (registered scheduled reserved : Bool) : Prop where
  registered : registered = true → s.req_ = false ∧ s.current_media_ = []
  scheduled : scheduled = true → s.register_alarm_ = none
  reserved : reserved = true → s.media_name_to_register_ = []

/-- The target is in exactly one of the three places, and no other media is in any of them. -/
inductive Represented : Prop where
  | nothing (htarget : s.target = []) (h : s.Vacant true true true)
  | registered (htarget : s.target ≠ []) (h : s.Registered) (hvacant : s.Vacant false true true)
  | scheduled (htarget : s.target ≠ []) (h : s.Scheduled) (hvacant : s.Vacant true false true)
  | reserved (htarget : s.target ≠ []) (h : s.Reserved) (hvacant : s.Vacant true true false)

/-- The invariant: a media waits for a client only where media is played when it is used. -/
structure Inv : Prop where
  represented : s.Represented
  reserved : s.media_name_to_register_ ≠ [] → config.media_only_when_used_ = true

/-- What keeps the target: nothing is switched off that is reserved, or that is scheduled without `force_switch`; the last
client does not leave while the alarm is set; and what shall be registered is no template. -/
def TargetKept : Event → Prop
  | .switchCurrentMedia target_media_name force_switch => target_media_name = [] →
      s.media_name_to_register_ = [] ∧ (s.register_alarm_ ≠ none → s.current_media_ ≠ [] ∨ force_switch = true)
  | .addRequest req =>
    req ∉ s.clients → s.media_name_to_register_ ≠ [] → config.is_temporary_template_ = false
  | .removeRequest req => req ∈ s.clients → config.media_only_when_used_ = true → s.clients.erase req = [] →
      s.register_alarm_ = none
  | .registerAlarm => s.register_alarm_ ≠ none → config.is_temporary_template_ = false
  | _ => True

instance decidableTargetKept : ∀ e, Decidable (s.TargetKept config e)
  | .switchCurrentMedia _ _ => inferInstanceAs (Decidable (_ → _ ∧ (_ → _ ∨ _)))
  | .addRequest _ => inferInstanceAs (Decidable (_ → _ → _))
  | .removeRequest _ => inferInstanceAs (Decidable (_ → _ → _ → _))
  | .registerAlarm => inferInstanceAs (Decidable (_ → _))
  | .eos => isTrue trivial
  | .streamEndedAlarm => isTrue trivial
  | .tagReceiveTimeout => isTrue trivial

variable {config s}

/-! ## The operations -/

theorem register_of {media_name : Bytes} (htemplate : config.is_temporary_template_ = false) (hreq : s.req_ = false) :
    s.register config media_name = some { s with req_ := true, current_media_ := media_name } := by
  simp [register, htemplate, hreq, guard_of]

/-- Without a request upstream no media is played. -/
theorem Represented.current (h : s.Represented) (hreq : s.req_ = false) : s.current_media_ = [] := by
  cases h with
  | nothing _ h => exact (h.registered rfl).2
  | registered _ h _ => exact absurd h.1 (by simp [hreq])
  | scheduled _ _ hvacant => exact (hvacant.registered rfl).2
  | reserved _ _ hvacant => exact (hvacant.registered rfl).2

theorem unregister_eq (h : s.req_ = false → s.current_media_ = []) :
    s.unregister = { s with register_alarm_ := none, req_ := false, current_media_ := [] } := by
  rw [unregister]
  cases hreq : s.req_ with
  | false => simp [h hreq]
  | true => simp

/-- The media that is played is the target. -/
theorem Represented.current_eq (h : s.Represented) (hcurrent : s.current_media_ ≠ []) :
    s.current_media_ = s.target ∧ s.Registered ∧ s.Vacant false true true := by
  cases h with
  | nothing _ h => exact absurd (h.registered rfl).2 hcurrent
  | registered _ h hvacant => exact ⟨h.2, h, hvacant⟩
  | scheduled _ _ hvacant => exact absurd (hvacant.registered rfl).2 hcurrent
  | reserved _ _ hvacant => exact absurd (hvacant.registered rfl).2 hcurrent

/-- Where a client is, no media waits for one. -/
theorem Represented.used (h : s.Represented) (hclients : s.clients ≠ []) : s.media_name_to_register_ = [] := by
  cases h with
  | nothing _ h => exact h.reserved rfl
  | registered _ _ hvacant => exact hvacant.reserved rfl
  | scheduled _ _ hvacant => exact hvacant.reserved rfl
  | reserved _ h _ => exact absurd h.2 hclients

/-- Where no media waits for a client, it does not matter which clients there are. -/
theorem Represented.clients (h : s.Represented) (hidle : s.media_name_to_register_ = []) (clients : List Nat) :
    ({ s with clients := clients } : SwitchingElement).Represented := by
  cases h with
  | nothing htarget h => exact .nothing htarget ⟨h.registered, h.scheduled, h.reserved⟩
  | registered htarget h hvacant =>
    exact .registered htarget h ⟨hvacant.registered, hvacant.scheduled, hvacant.reserved⟩
  | scheduled htarget h hvacant =>
    exact .scheduled htarget h ⟨hvacant.registered, hvacant.scheduled, hvacant.reserved⟩
  | reserved htarget h _ => exact absurd (h.1.symm.trans hidle) htarget

/-! ## Every step keeps the target -/

theorem inv_init (config : SwitchingConfig) : ({} : SwitchingElement).Inv config where
  represented := .nothing rfl ⟨fun _ => ⟨rfl, rfl⟩, fun _ => rfl, fun _ => rfl⟩
  reserved h := absurd rfl h

section

variable (h : s.Inv config)

include h

theorem inv_switchCurrentMedia {target_media_name : Bytes} {force_switch : Bool}
    (hkept : s.TargetKept config (.switchCurrentMedia target_media_name force_switch)) :
    (s.switchCurrentMedia config target_media_name force_switch).Inv config := by
  have hrep := h.represented
  have hun := unregister_eq (s := { s with target := target_media_name }) hrep.current
  rw [switchCurrentMedia, hun]
  by_cases hsame : s.current_media_ = target_media_name ∧ force_switch = false
  · rw [if_pos hsame]
    obtain ⟨rfl, hforce⟩ := hsame
    by_cases hcurrent : s.current_media_ = []
    · -- the empty target: without a reservation and without an alarm there is no other media
      obtain ⟨hreserved, halarm⟩ := hkept hcurrent
      have halarm : s.register_alarm_ = none := by
        by_contra hset
        simpa [hcurrent, hforce] using halarm hset
      have hreq : s.req_ = false := by
        cases hrep with
        | nothing _ h => exact (h.registered rfl).1
        | registered htarget h _ => exact absurd (h.2.symm.trans hcurrent) htarget
        | scheduled _ _ hvacant => exact (hvacant.registered rfl).1
        | reserved _ _ hvacant => exact (hvacant.registered rfl).1
      exact ⟨.nothing hcurrent ⟨fun _ => ⟨hreq, hcurrent⟩, fun _ => halarm, fun _ => hreserved⟩, h.reserved⟩
    · obtain ⟨-, hregistered, hvacant⟩ := hrep.current_eq hcurrent
      exact ⟨.registered hcurrent ⟨hregistered.1, rfl⟩ ⟨nofun, hvacant.scheduled, hvacant.reserved⟩, h.reserved⟩
  · rw [if_neg hsame]
    by_cases hempty : target_media_name = []
    · rw [if_pos hempty]
      exact ⟨.nothing hempty ⟨fun _ => ⟨rfl, rfl⟩, fun _ => rfl, fun _ => (hkept hempty).1⟩, h.reserved⟩
    · rw [if_neg hempty]
      by_cases hunused : config.media_only_when_used_ = true ∧ s.clients = []
      · rw [if_pos hunused]
        exact ⟨.reserved hempty ⟨rfl, hunused.2⟩ ⟨fun _ => ⟨rfl, rfl⟩, fun _ => rfl, nofun⟩, fun _ => hunused.1⟩
      · rw [if_neg hunused]
        -- what is reserved waits for a client where media is played when it is used; neither is so here
        have hreserved : s.media_name_to_register_ = [] := by
          by_contra hreserved
          have honly := h.reserved hreserved
          exact hreserved (hrep.used fun hclients => hunused ⟨honly, hclients⟩)
        exact ⟨.scheduled hempty rfl ⟨fun _ => ⟨rfl, rfl⟩, nofun, fun _ => hreserved⟩, h.reserved⟩

theorem inv_addRequest {req : Nat} (hreq : req ∉ s.clients)
    (hkept : s.TargetKept config (.addRequest req)) : ∃ s', s.addRequest config req = some s' ∧ s'.Inv config := by
  have hrep := h.represented
  by_cases hreserved : s.media_name_to_register_ = []
  · refine ⟨{ s with clients := req :: s.clients }, by simp [addRequest, hreserved], ?_, h.reserved⟩
    exact hrep.clients hreserved _
  · have htemplate := hkept hreq hreserved
    cases hrep with
    | nothing _ h => exact absurd (h.reserved rfl) hreserved
    | registered _ _ hvacant => exact absurd (hvacant.reserved rfl) hreserved
    | scheduled _ _ hvacant => exact absurd (hvacant.reserved rfl) hreserved
    | reserved htarget h hvacant =>
      refine ⟨{ s with
        req_ := true
        current_media_ := s.media_name_to_register_
        media_name_to_register_ := []
        clients := req :: s.clients }, ?_, ?_, fun h => absurd rfl h⟩
      · simp [addRequest, hreserved, register_of htemplate (hvacant.registered rfl).1]
      · exact .registered htarget ⟨rfl, h.1⟩ ⟨nofun, fun _ => hvacant.scheduled rfl, fun _ => rfl⟩

theorem inv_removeRequest {req : Nat} (hreq : req ∈ s.clients)
    (hkept : s.TargetKept config (.removeRequest req)) : (s.removeRequest config req).Inv config := by
  have hrep := h.represented
  have hused : s.clients ≠ [] := List.ne_nil_of_mem hreq
  rw [removeRequest]
  by_cases hlast : config.media_only_when_used_ = true ∧ s.clients.erase req = []
  · rw [if_pos hlast]
    -- the target is reserved again, where it has been registered
    have halarm := hkept hreq hlast.1 hlast.2
    have hun := unregister_eq (s := { s with
      clients := s.clients.erase req
      media_name_to_register_ := s.current_media_ }) hrep.current
    rw [hun]
    refine ⟨?_, fun _ => hlast.1⟩
    cases hrep with
    | nothing htarget h =>
      exact .nothing htarget ⟨fun _ => ⟨rfl, rfl⟩, fun _ => rfl, fun _ => (h.registered rfl).2⟩
    | registered htarget h hvacant =>
      exact .reserved htarget ⟨h.2, hlast.2⟩ ⟨fun _ => ⟨rfl, rfl⟩, fun _ => rfl, nofun⟩
    | scheduled htarget h hvacant =>
      have hset : s.register_alarm_ = some s.target := h
      simp [halarm] at hset
    | reserved _ h _ => exact absurd h.2 hused
  · rw [if_neg hlast]
    refine ⟨?_, h.reserved⟩
    exact hrep.clients (hrep.used hused) _

/-- `register_alarm_` registers the target. -/
theorem inv_registerAlarm {media_name : Bytes} (halarm : s.register_alarm_ = some media_name)
    (htemplate : config.is_temporary_template_ = false) :
    ∃ s', { s with register_alarm_ := none }.register config media_name = some s' ∧ s'.Inv config := by
  cases h.represented with
  | nothing _ h => simp [h.scheduled rfl] at halarm
  | registered _ _ hvacant => simp [hvacant.scheduled rfl] at halarm
  | scheduled htarget hscheduled hvacant =>
    have hmedia : media_name = s.target := Option.some.inj (halarm.symm.trans hscheduled)
    refine ⟨_, register_of htemplate (hvacant.registered rfl).1, ?_, h.reserved⟩
    exact .registered htarget ⟨rfl, hmedia⟩ ⟨nofun, fun _ => rfl, hvacant.reserved⟩
  | reserved _ _ hvacant => simp [hvacant.scheduled rfl] at halarm

theorem inv_streamEnded : s.streamEnded.Inv config := by
  rw [streamEnded]
  cases hreq : s.req_ with
  | false => simpa using h
  | true =>
    cases h.represented with
    | nothing _ h => simp [(h.registered rfl).1] at hreq
    | registered _ _ hvacant =>
      simp only [unregister, hreq, if_true]
      exact ⟨.nothing rfl ⟨fun _ => ⟨rfl, rfl⟩, fun _ => rfl, hvacant.reserved⟩, h.reserved⟩
    | scheduled _ _ hvacant => simp [(hvacant.registered rfl).1] at hreq
    | reserved _ _ hvacant => simp [(hvacant.registered rfl).1] at hreq

/-- `stream_ended_alarm_` says nothing of the target. -/
theorem Inv.streamEndedAlarm (alarm : Bool) : { s with stream_ended_alarm_ := alarm }.Inv config := by
  refine ⟨?_, h.reserved⟩
  cases h.represented with
  | nothing htarget h => exact .nothing htarget ⟨h.registered, h.scheduled, h.reserved⟩
  | registered htarget h hvacant =>
    exact .registered htarget h ⟨hvacant.registered, hvacant.scheduled, hvacant.reserved⟩
  | scheduled htarget h hvacant =>
    exact .scheduled htarget h ⟨hvacant.registered, hvacant.scheduled, hvacant.reserved⟩
  | reserved htarget h hvacant =>
    exact .reserved htarget h ⟨hvacant.registered, hvacant.scheduled, hvacant.reserved⟩

end

/-- A step that keeps the target is never aborted. -/
theorem inv_step (e : Event) (h : s.Inv config) (hkept : s.TargetKept config e) :
    ∃ s', s.step config e = some s' ∧ s'.Inv config := by
  cases e with
  | switchCurrentMedia target_media_name force_switch => exact ⟨_, rfl, inv_switchCurrentMedia h hkept⟩
  | addRequest req =>
    by_cases hreq : req ∈ s.clients
    · exact ⟨s, if_pos hreq, h⟩
    · obtain ⟨s', hs', hinv⟩ := inv_addRequest h hreq hkept
      exact ⟨s', (if_neg hreq).trans hs', hinv⟩
  | removeRequest req =>
    by_cases hreq : req ∈ s.clients
    · exact ⟨_, if_pos hreq, inv_removeRequest h hreq hkept⟩
    · exact ⟨s, if_neg hreq, h⟩
  | registerAlarm =>
    cases halarm : s.register_alarm_ with
    | none => exact ⟨s, by simp [step, halarm], h⟩
    | some media_name =>
      obtain ⟨s', hs', hinv⟩ := inv_registerAlarm h halarm (hkept (by simp [halarm]))
      exact ⟨s', by simpa [step, halarm] using hs', hinv⟩
  | eos =>
    by_cases hreq : s.req_ = true
    · exact ⟨_, if_pos hreq, h.streamEndedAlarm true⟩
    · exact ⟨s, if_neg hreq, h⟩
  | streamEndedAlarm =>
    by_cases halarm : s.stream_ended_alarm_ = true
    · exact ⟨_, if_pos halarm, inv_streamEnded (h.streamEndedAlarm false)⟩
    · exact ⟨s, if_neg halarm, h⟩
  | tagReceiveTimeout => exact ⟨_, rfl, inv_streamEnded h⟩

end SwitchingElement

open SwitchingElement

/-- In every run whose steps keep the target, no check fails, and behind it the target is represented in exactly one
way. -/
theorem target_represented_while_kept (config : SwitchingConfig) (es : List Event)
    (h : Along (step config) (TargetKept config) {} es) :
    ∃ s, run (step config) {} es = some s ∧ s.Represented := by
  obtain ⟨s, hrun, hinv⟩ := run_along (fun s e hinv hkept => inv_step e hinv hkept) (inv_init config) h
  exact ⟨s, hrun, hinv.represented⟩

/-- A media is reserved, registered for the first client, reserved again when it leaves, and replaced for the next. -/
theorem target_represented_of_clients :
    ∃ s, run (step ⟨true, false⟩) {} [.switchCurrentMedia [1] false, .addRequest 1, .removeRequest 1,
        .addRequest 2, .switchCurrentMedia [2] false, .registerAlarm, .eos, .streamEndedAlarm] = some s ∧
      s.Represented :=
  target_represented_while_kept ⟨true, false⟩ _ (by decide +kernel)

/-- A switch to nothing leaves what is reserved, and the next client resurrects it. -/
theorem target_resurrected : ¬ ∀ (config : SwitchingConfig) (es : List Event) (s : SwitchingElement),
    config.is_temporary_template_ = false → run (step config) {} es = some s → s.Represented := by
  intro h
  have hrep := h ⟨true, false⟩ [.switchCurrentMedia [1] false, .switchCurrentMedia [] false, .addRequest 1]
    ⟨[1], true, [], none, false, [1], []⟩ rfl (by decide +kernel)
  cases hrep with
  | nothing _ h => exact absurd (h.registered rfl).1 (by decide)
  | registered htarget _ _ => exact htarget rfl
  | scheduled htarget _ _ => exact htarget rfl
  | reserved htarget _ _ => exact htarget rfl

end Whispercast.Stream
