import Whispercast.Rpc.ClientConnectionTCP

/-!
# Every query completes once

A query that has been added is at one place: in the map, with the selector thread that is about to run its callback,
among those that were run, or among those that were cancelled. What was due has left the map. `Shutdown` breaks this
when it finds an open in progress, since it returns before it completes the queries.
-/

namespace Whispercast.Rpc

open Library Io ClientConnectionTCP List Option

/-- The step runs `Shutdown` on the connection as it is. (A handshake that fails has ended the open before.) -/
def ClientEvent.ShutsDown (c : ClientConnectionTCP) : ClientEvent → Prop
  | .shutdownInSelectThread _ => True
  | .runClosure _ => ∃ event closures, c.closures = .shutdown event :: closures
  | .dnsResult info => c.net = .resolving ∧ info ≠ some .pending
  | .badData => c.isReading = true
  | .closed => c.isLive = true
  | _ => False

/-- `Shutdown` is not run while the connection is being opened and queries wait for their replies. -/
def ClientEvent.Undisturbed (c : ClientConnectionTCP) (e : ClientEvent) : Prop :=
  e.ShutsDown c → c.is_opening = true → c.response_map = []

/-- There are fewer than `2 ^ 32` queries. -/
def ClientEvent.Few (c : ClientConnectionTCP) (e : ClientEvent) : Prop :=
  e = .generateNextXID → c.generated.length + 1 < 2 ^ 32

namespace ClientConnectionTCP

variable {c c' : ClientConnectionTCP} {xid : UInt32}

/-- Each query completes once. -/
structure Completes (c : ClientConnectionTCP) : Prop where
  once : ∀ xid, (c.running ++ c.ran).count xid ≤ 1
  cancelled : ∀ xid ∈ c.cancelled, xid ∉ c.running ++ c.ran
  /-- What is due and not cancelled has been run, up to the callbacks that are just being run. -/
  due : ∀ xid ∈ c.due, xid ∉ c.cancelled → xid ∉ c.running → c.ran.count xid = 1

/-- Where the queries are. -/
structure Accounted (c : ClientConnectionTCP) : Prop where
  next : c.next_xid = UInt32.ofNat (c.generated.length + 1)
  numbers : ∀ xid ∈ c.generated, xid.toNat ≤ c.generated.length
  distinct : c.generated.Nodup
  calls : c.generated.Perm (c.adding ++ c.added)
  added : c.added.Perm (c.response_map ++ (c.running ++ (c.ran ++ c.cancelled)))
  due : ∀ xid ∈ c.due, xid ∈ c.added ∧ xid ∉ c.response_map

/-! ## What is known of the places -/

section

variable (h : c.Accounted)

include h

theorem Accounted.nodup_added : c.added.Nodup :=
  (nodup_append.1 (h.calls.nodup h.distinct)).2.1

theorem Accounted.nodup_places : (c.response_map ++ (c.running ++ (c.ran ++ c.cancelled))).Nodup :=
  h.added.nodup h.nodup_added

theorem Accounted.nodup_map : c.response_map.Nodup := (nodup_append.1 h.nodup_places).1

theorem Accounted.not_added (hx : xid ∈ c.adding) : xid ∉ c.added := fun hadded =>
  (nodup_append.1 (h.calls.nodup h.distinct)).2.2 xid hx xid hadded rfl

theorem Accounted.completes : c.Completes := by
  have hplaces := (nodup_append.1 h.nodup_places).2.1
  rw [← append_assoc] at hplaces
  obtain ⟨hran, -, hcancelled⟩ := nodup_append.1 hplaces
  refine ⟨nodup_iff_count_le_one.1 hran, fun xid hx hxran => hcancelled xid hxran xid hx rfl, ?_⟩
  intro xid hdue hxc hxr
  obtain ⟨hadded, hmap⟩ := h.due xid hdue
  have hmem : xid ∈ c.ran := by
    have hplace := h.added.subset hadded
    simp only [mem_append] at hplace
    rcases hplace with hplace | hplace | hplace | hplace
    · exact absurd hplace hmap
    · exact absurd hplace hxr
    · exact hplace
    · exact absurd hplace hxc
  exact count_eq_one_of_mem (nodup_append.1 hran).2.1 hmem

/-! ## The steps of the calls -/

theorem Accounted.generateNextXID (hfew : c.generated.length + 1 < 2 ^ 32) :
    c.generateNextXID.Accounted := by
  have hnext : c.next_xid.toNat = c.generated.length + 1 := by
    rw [h.next, UInt32.toNat_ofNat']
    exact Nat.mod_eq_of_lt hfew
  have hnew : c.next_xid ∉ c.generated := fun hmem => by
    have hle := h.numbers _ hmem
    omega
  have hlen : (c.generated ++ [c.next_xid]).length = c.generated.length + 1 := length_append
  refine ⟨?_, ?_, ?_, ?_, h.added, h.due⟩
  · show c.next_xid + 1 = UInt32.ofNat ((c.generated ++ [c.next_xid]).length + 1)
    rw [hlen, h.next]
    exact (UInt32.ofNat_add (c.generated.length + 1) 1).symm
  · show ∀ xid ∈ c.generated ++ [c.next_xid], xid.toNat ≤ (c.generated ++ [c.next_xid]).length
    rw [hlen]
    intro xid hx
    rcases mem_append.1 hx with hx | hx
    · exact Nat.le_succ_of_le (h.numbers xid hx)
    · rw [mem_singleton.1 hx, hnext]
  · refine nodup_append.2 ⟨h.distinct, nodup_singleton _, ?_⟩
    intro x hx y hy hxy
    rw [mem_singleton.1 hy] at hxy
    exact hnew (hxy ▸ hx)
  · show (c.generated ++ [c.next_xid]).Perm (c.adding ++ [c.next_xid] ++ c.added)
    refine (h.calls.append_right _).trans ?_
    rw [append_assoc, append_assoc]
    exact Perm.append_left _ perm_append_comm

theorem Accounted.addTimeout (xid : UInt32) (b : Bool) : (c.addTimeout xid b).Accounted := by
  rw [ClientConnectionTCP.addTimeout]
  split_ifs
  · exact { h with }
  · exact { h with }

theorem Accounted.clearTimeout (xid : UInt32) (b : Bool) : (c.clearTimeout xid b).Accounted := by
  rw [ClientConnectionTCP.clearTimeout]
  split_ifs
  · exact { h with }
  · exact { h with }

theorem Accounted.addResponseCallback (hx : xid ∈ c.adding) {b : Bool}
    (hstep : c.addResponseCallback xid b = some c') : c'.Accounted := by
  rw [ClientConnectionTCP.addResponseCallback] at hstep
  split_ifs at hstep
  cases hstep
  refine Accounted.addTimeout (c := { c with
    response_map := c.response_map.orderedInsert (· ≤ ·) xid, adding := c.adding.erase xid,
    added := c.added ++ [xid], sending := c.sending ++ [xid] }) { h with
      calls := ?_, added := ?_, due := fun y hy => ⟨?_, ?_⟩ } xid b
  · refine h.calls.trans ((List.perm_cons_erase hx).append_right _ |>.trans ?_)
    rw [← append_assoc]
    exact (List.perm_append_singleton xid _).symm
  · refine (List.perm_append_singleton xid _).trans ((h.added.cons xid).trans ?_)
    exact ((List.perm_orderedInsert _ xid c.response_map).append_right _).symm
  · exact List.mem_append_left _ (h.due y hy).1
  · intro hmem
    rcases (List.mem_orderedInsert _).1 hmem with heq | hmem
    · exact h.not_added hx (heq ▸ (h.due y hy).1)
    · exact (h.due y hy).2 hmem

/-- A query leaves the map for the callbacks that are run. -/
theorem Accounted.runResponseCallback (xid : UInt32) : (c.runResponseCallback xid).Accounted := by
  rw [ClientConnectionTCP.runResponseCallback]
  split_ifs with hmem
  · refine { h with added := h.added.trans ?_, due := fun y hy => ⟨(h.due y hy).1, fun hy' => ?_⟩ }
    · refine ((List.perm_cons_erase hmem).append_right _).trans ?_
      exact List.perm_middle.symm
    · exact (h.due y hy).2 (List.mem_of_mem_erase hy')
  · exact h

/-- A query that is processed is due, and it has left the map. -/
theorem Accounted.completeQuery (xid : UInt32) :
    (c.completeQuery xid).Accounted ∧ xid ∉ (c.completeQuery xid).response_map := by
  refine ⟨(h.clearTimeout xid true).runResponseCallback xid, ?_⟩
  rw [ClientConnectionTCP.completeQuery, ClientConnectionTCP.runResponseCallback]
  split_ifs with hmem
  · exact h.nodup_map.not_mem_erase
  · exact hmem

end

theorem completeQuery_due (c : ClientConnectionTCP) (xid : UInt32) :
    (c.completeQuery xid).due = c.due ∧ (c.completeQuery xid).added = c.added := by
  rw [completeQuery, runResponseCallback, clearTimeout]
  split_ifs <;> exact ⟨rfl, rfl⟩

section

variable (h : c.Accounted)

include h

/-- The query of a reply or a timeout. -/
theorem Accounted.process (xid : UInt32) : (ClientConnectionTCP.completeQuery xid (c.nowDue xid)).Accounted := by
  obtain ⟨hacc, hmap⟩ := h.completeQuery xid
  -- The list of what is due does not matter to the other fields.
  have hsame : ClientConnectionTCP.completeQuery xid (c.nowDue xid) =
      { c.completeQuery xid with due := (c.nowDue xid).due } := by
    simp only [ClientConnectionTCP.completeQuery, ClientConnectionTCP.runResponseCallback,
      ClientConnectionTCP.clearTimeout, if_true]
    by_cases hmem : xid ∈ c.response_map
    · rw [if_pos hmem, if_pos (show xid ∈ (c.nowDue xid).response_map from hmem)]
      rfl
    · rw [if_neg hmem, if_neg (show xid ∉ (c.nowDue xid).response_map from hmem)]
      rfl
  rw [hsame]
  obtain ⟨hdue, hadded⟩ := completeQuery_due c xid
  refine { hacc with due := fun y hy => ?_ }
  have hold : y ∈ c.due → y ∈ (c.completeQuery xid).added ∧ y ∉ (c.completeQuery xid).response_map :=
    fun hy => hacc.due y (hdue ▸ hy)
  have hy' : y ∈ if xid ∈ c.added then xid :: c.due else c.due := hy
  split_ifs at hy' with hx
  · rcases List.mem_cons.1 hy' with rfl | hy'
    · exact ⟨hadded ▸ hx, hmap⟩
    · exact hold hy'
  · exact hold hy'

theorem Accounted.cancelQuery (xid : UInt32) : (c.cancelQuery xid).Accounted := by
  rw [ClientConnectionTCP.cancelQuery]
  split_ifs with hmem
  · refine { h with added := h.added.trans ?_, due := fun y hy => ⟨(h.due y hy).1, fun hy' => ?_⟩ }
    · refine ((List.perm_cons_erase hmem).append_right _).trans ?_
      simp only [← append_assoc]
      exact List.perm_middle.symm
    · exact (h.due y hy).2 (List.mem_of_mem_erase hy')
  · exact h

/-! ## Opening and closing -/

theorem Accounted.endOpen (hstep : c.endOpen = some c') : c'.Accounted := by
  rw [ClientConnectionTCP.endOpen] at hstep
  split_ifs at hstep
  cases hstep
  exact { h with }

theorem Accounted.startOpen {params : ClientParams} {socket : Net.Socket}
    (hstep : c.startOpen params socket = some c') : c'.Accounted := by
  obtain ⟨⟨_, c₁⟩, hconnect, hstep⟩ := bind_eq_some_iff.1 hstep
  have h₁ : c₁.Accounted := by
    rw [connect] at hconnect
    split_ifs at hconnect <;> cases hconnect <;> exact { h with }
  dsimp only at hstep
  split_ifs at hstep
  · cases hstep
    exact h₁
  · exact h₁.endOpen hstep

/-- `Shutdown` completes the queries, unless it ends an open. -/
theorem Accounted.shutdown (hopening : c.is_opening = true → c.response_map = [])
    {signal : Option Nat} (hstep : c.shutdown signal = some c') : c'.Accounted := by
  rw [ClientConnectionTCP.shutdown] at hstep
  split_ifs at hstep with hop
  · refine Accounted.endOpen (c := c.forceClosed signal) { h with due := fun y hy => ⟨hy, ?_⟩ } hstep
    show y ∉ c.response_map
    rw [hopening hop]
    exact not_mem_nil
  · cases hstep
    refine { h with added := h.added.trans ?_, due := fun y hy => ⟨hy, not_mem_nil⟩ }
    show (c.response_map ++ (c.running ++ (c.ran ++ c.cancelled))).Perm
      ([] ++ (c.response_map ++ c.running ++ (c.ran ++ c.cancelled)))
    rw [List.nil_append, append_assoc]

theorem Accounted.connectionClosed (hopening : c.is_opening = true → c.response_map = [])
    (hstep : c.connectionClosed = some c') : c'.Accounted :=
  Accounted.shutdown (c := { c with net := .disconnected, resolving := false, inbuf := [] }) { h with } hopening hstep

end

section Handshake

variable {params : ClientParams} {socket : Net.Socket}

/-- What `DoHandshake` can do: send the request, wait for more of the answer, or end the open with the answer. -/
theorem doHandshake_cases (hstep : c.doHandshake params = some c') : c.net = .connected ∧
      ((c.handshake_state = .notInitialized ∧ c' = { c with handshake_state := .waitingResponse }) ∨
        (c.handshake_state = .waitingResponse ∧ c.inbuf.length < 70 ∧ c' = c) ∨
        (c.handshake_state = .waitingResponse ∧ 70 ≤ c.inbuf.length ∧ c.is_opening = true ∧
          ∃ state, c' = openEnded { c with inbuf := c.inbuf.drop 70, handshake_state := state })) := by
  by_cases hnet : c.net = .connected
  · refine ⟨hnet, ?_⟩
    rw [doHandshake, if_neg fun hne => hne hnet] at hstep
    cases hs : c.handshake_state with
    | notInitialized =>
      simp only [hs] at hstep
      exact Or.inl ⟨rfl, (Option.some.inj hstep).symm⟩
    | waitingResponse =>
      simp only [hs] at hstep
      by_cases hlen : c.inbuf.length < 70
      · rw [if_pos hlen] at hstep
        exact Or.inr (Or.inl ⟨rfl, hlen, (Option.some.inj hstep).symm⟩)
      · rw [if_neg hlen, endHandshake, if_neg (by simp), endOpen] at hstep
        by_cases hopening : c.is_opening = true
        · rw [if_pos hopening] at hstep
          exact Or.inr (Or.inr ⟨rfl, Nat.not_lt.1 hlen, hopening, _, (Option.some.inj hstep).symm⟩)
        · rw [if_neg hopening] at hstep
          cases hstep
    | connected => simp [hs] at hstep
    | failure => simp [hs] at hstep
  · rw [doHandshake, if_pos hnet] at hstep
    cases hstep

theorem Accounted.doHandshake (h : c.Accounted) (hstep : c.doHandshake params = some c') : c'.Accounted := by
  obtain ⟨-, ⟨-, rfl⟩ | ⟨-, -, rfl⟩ | ⟨-, -, -, -, rfl⟩⟩ := doHandshake_cases hstep
  · exact { h with }
  · exact h
  · exact { h with }

/-- A handshake that has failed has ended the open. -/
theorem doHandshake_failure (hstate : c.handshake_state ≠ .failure) (hstep : c.doHandshake params = some c')
    (hfail : c'.handshake_state = .failure) : c'.is_opening = false := by
  obtain ⟨-, ⟨-, rfl⟩ | ⟨-, -, rfl⟩ | ⟨-, -, -, -, rfl⟩⟩ := doHandshake_cases hstep
  · cases hfail
  · exact absurd hfail hstate
  · rfl

section

variable (h : c.Accounted)

include h

theorem Accounted.connectionReadHandler {data : Bytes}
    (hstep : c.connectionReadHandler params data = some c') : c'.Accounted := by
  have h₁ : Accounted { c with inbuf := c.inbuf ++ data } := { h with }
  rw [ClientConnectionTCP.connectionReadHandler] at hstep
  by_cases hstate : c.handshake_state ≠ .connected ∧ c.handshake_state ≠ .failure
  · rw [if_pos hstate] at hstep
    obtain ⟨_, hdo, hstep⟩ := bind_eq_some_iff.1 hstep
    have h₂ := h₁.doHandshake hdo
    split_ifs at hstep with hfail
    · refine h₂.connectionClosed (fun hopening => ?_) hstep
      rw [doHandshake_failure (c := { c with inbuf := c.inbuf ++ data }) hstate.2 hdo hfail] at hopening
      cases hopening
    · cases hstep
      exact h₂
  · rw [if_neg hstate] at hstep
    split_ifs at hstep
    cases hstep
    exact h₁

theorem Accounted.sendPacket (hstep : c.sendPacket params socket xid = some c') : c'.Accounted := by
  have h₁ : Accounted { c with queries := c.queries.orderedInsert (· ≤ ·) xid } := { h with }
  rw [ClientConnectionTCP.sendPacket] at hstep
  dsimp only at hstep
  split_ifs at hstep
  · cases hstep
    exact (h.completeQuery xid).1
  · exact h₁.startOpen hstep
  · cases hstep
    exact h₁

theorem Accounted.runClosure {closure : Closure}
    (hopening : ∀ event, closure = .shutdown event → c.is_opening = true → c.response_map = [])
    (hstep : c.runClosure params socket closure = some c') : c'.Accounted := by
  cases closure with
  | addTimeout xid => cases hstep; exact h.addTimeout xid true
  | clearTimeout xid => cases hstep; exact h.clearTimeout xid true
  | sendPacket xid => exact h.sendPacket hstep
  | startOpen => exact h.startOpen hstep
  | shutdown event => exact h.shutdown (hopening event rfl) hstep

theorem Accounted.open {callback b : Bool} (hstep : c.open params socket callback b = some c') :
    c'.Accounted := by
  rw [ClientConnectionTCP.open] at hstep
  split_ifs at hstep
  · obtain ⟨_, hstart, hstep⟩ := bind_eq_some_iff.1 hstep
    split_ifs at hstep
    cases hstep
    exact Accounted.startOpen (c := { c with open_callback := callback, opens := c.opens + callback.toNat })
      { h with } hstart
  · cases hstep
    exact { h with }

theorem Accounted.handleDnsResult {info : Option Net.Socket}
    (hopening : c.net = .resolving ∧ info ≠ some .pending → c.is_opening = true → c.response_map = [])
    (hstep : c.handleDnsResult info = some c') : c'.Accounted := by
  rw [ClientConnectionTCP.handleDnsResult] at hstep
  split_ifs at hstep with hnet hinfo
  · cases hstep
    exact { h with }
  · exact h.connectionClosed (hopening ⟨hnet, hinfo⟩) hstep

/-- What one step keeps. -/
theorem Accounted.step {e : ClientEvent} (hfew : e.Few c) (he : e.Undisturbed c)
    (hstep : c.step params e = some c') : c'.Accounted := by
  cases e with
  | generateNextXID => cases hstep; exact h.generateNextXID (hfew rfl)
  | addResponseCallback xid b =>
    rw [ClientConnectionTCP.step] at hstep
    split_ifs at hstep with hx
    · exact h.addResponseCallback hx hstep
    · cases hstep
      exact h
  | send xid =>
    rw [ClientConnectionTCP.step, Option.some.injEq] at hstep
    subst hstep
    split_ifs
    · exact { h with }
    · exact h
  | clearTimeout xid b => cases hstep; exact h.clearTimeout xid b
  | cancelQuery xid => cases hstep; exact h.cancelQuery xid
  | «open» callback b socket => exact Accounted.open h hstep
  | shutdown event => cases hstep; exact { h with }
  | shutdownInSelectThread signal => exact h.shutdown (he trivial) hstep
  | runResponseCallback =>
    rw [ClientConnectionTCP.step] at hstep
    cases hrunning : c.running with
    | nil =>
      rw [hrunning] at hstep
      cases hstep
      exact h
    | cons xid running =>
      rw [hrunning] at hstep
      cases hstep
      refine { h with added := h.added.trans ?_ }
      rw [hrunning]
      refine Perm.append_left _ ?_
      rw [append_assoc, ← append_assoc, ← append_assoc running]
      exact List.perm_middle.symm
  | runClosure socket =>
    rw [ClientConnectionTCP.step] at hstep
    cases hclosures : c.closures with
    | nil =>
      rw [hclosures] at hstep
      cases hstep
      exact h
    | cons closure closures =>
      rw [hclosures] at hstep
      refine Accounted.runClosure (c := { c with closures := closures }) { h with } (fun event hevent => ?_) hstep
      exact he ⟨event, closures, hevent ▸ hclosures⟩
  | dnsReturn =>
    rw [ClientConnectionTCP.step, Option.some.injEq] at hstep
    subst hstep
    split_ifs
    · exact { h with }
    · exact h
  | dnsResult info =>
    rw [ClientConnectionTCP.step] at hstep
    cases hanswers : c.answers with
    | zero =>
      rw [hanswers] at hstep
      cases hstep
      exact h
    | succ answers =>
      rw [hanswers] at hstep
      exact Accounted.handleDnsResult (c := { c with answers := answers }) { h with } he hstep
  | connected =>
    rw [ClientConnectionTCP.step] at hstep
    split_ifs at hstep
    · rw [connectionConnectHandler] at hstep
      split_ifs at hstep
      exact Accounted.doHandshake (c := { c with net := .connected }) { h with } hstep
    · cases hstep
      exact h
  | read data =>
    rw [ClientConnectionTCP.step] at hstep
    split_ifs at hstep
    · exact h.connectionReadHandler hstep
    · cases hstep
      exact h
  | received xid isReply =>
    rw [ClientConnectionTCP.step, Option.some.injEq] at hstep
    subst hstep
    rw [handleResponse]
    split_ifs
    · exact h.process xid
    · exact h
    · exact h
  | badData =>
    rw [ClientConnectionTCP.step] at hstep
    split_ifs at hstep with hreading
    · exact h.connectionClosed (he hreading) hstep
    · cases hstep
      exact h
  | write =>
    rw [ClientConnectionTCP.step, Option.some.injEq] at hstep
    subst hstep
    rw [connectionWriteHandler]
    split_ifs
    · exact { h with }
    · exact h
    · exact h
  | halfClosed =>
    rw [ClientConnectionTCP.step, Option.some.injEq] at hstep
    subst hstep
    split_ifs
    · exact { h with }
    · exact h
  | closed =>
    rw [ClientConnectionTCP.step] at hstep
    split_ifs at hstep with hlive
    · exact h.connectionClosed (he hlive) hstep
    · cases hstep
      exact h
  | timeout xid =>
    rw [ClientConnectionTCP.step, Option.some.injEq] at hstep
    subst hstep
    rw [notifyTimeout]
    split_ifs with htimeout
    · have h₁ : Accounted { c with timeouts := c.timeouts.erase xid, queries := c.queries.erase xid } := { h with }
      exact h₁.process xid
    · exact h
  | openTimeout =>
    rw [ClientConnectionTCP.step] at hstep
    split_ifs at hstep
    · exact Accounted.endOpen (c := { c with openTimeout := false }) { h with } hstep
    · cases hstep
      exact h

end

end Handshake

/-! ## Runs -/

theorem accounted_init : Accounted {} where
  next := rfl
  numbers _ h := (not_mem_nil h).elim
  distinct := nodup_nil
  calls := Perm.refl _
  added := Perm.refl _
  due _ h := (not_mem_nil h).elim

/-- Every query completes once in every run in which `Shutdown` leaves the opening of a connection with queries
undisturbed. -/
theorem queries_complete (params : ClientParams) {es : List ClientEvent}
    (hes : Along (step params) (fun c e => e.Few c ∧ e.Undisturbed c) {} es)
    (hrun : run (step params) {} es = some c) : c.Completes := by
  have hacc : c.Accounted := run_invariant_along
    (fun c e c' h he hstep => h.step he.1 he.2 hstep) accounted_init hes hrun
  exact hacc.completes

/-- A query whose timeout strikes. -/
theorem queries_complete_timeout :
    Completes { next_xid := 2, generated := [1], sending := [1], added := [1], ran := [1], due := [1] } := by
  have hes : Along (step ⟨true, 1, 10⟩) (fun c e => e.Few c ∧ e.Undisturbed c) {}
      [.generateNextXID, .addResponseCallback 1 true, .timeout 1, .runResponseCallback] := by
    refine ⟨⟨fun _ => show 0 + 1 < 2 ^ 32 by decide, fun h => h.elim⟩, fun c hc => ?_⟩
    cases hc
    refine ⟨⟨(nomatch ·), fun h => h.elim⟩, fun c hc => ?_⟩
    cases hc
    refine ⟨⟨(nomatch ·), fun h => h.elim⟩, fun c hc => ?_⟩
    cases hc
    exact ⟨⟨(nomatch ·), fun h => h.elim⟩, fun _ _ => trivial⟩
  exact queries_complete ⟨true, 1, 10⟩ hes rfl

/-- A query opens the connection, and `Shutdown` comes before the open has ended. -/
def shutdownWhileOpening : List ClientEvent :=
  [.generateNextXID, .addResponseCallback 1 false, .send 1, .runClosure .pending, .runClosure .pending,
    .shutdownInSelectThread none]

/-- The query of `shutdownWhileOpening` is left behind by `Shutdown`. -/
theorem query_does_not_complete :
    ∃ c, run (step ⟨true, 1, 10⟩) {} shutdownWhileOpening = some c ∧ 1 ∈ c.due ∧ c.cancelled = [] ∧ c.running = [] ∧
      c.ran = [] ∧ ¬ c.Completes := by
  refine ⟨_, rfl, mem_singleton.2 rfl, rfl, rfl, rfl, fun h => ?_⟩
  have hran := h.due 1 (mem_singleton.2 rfl) not_mem_nil not_mem_nil
  cases hran

end ClientConnectionTCP

end Whispercast.Rpc
