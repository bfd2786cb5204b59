import Whispercast.Io.DataBlock
import Whispercast.Library.Run
import Mathlib.Data.List.Perm.Basic
import Mathlib.Data.List.Nodup

/-!
# The DNS resolver

Model of `DnsResolver` (`net/base/dns_resolver.cc`): selector threads call `Resolve` and `Cancel`, the resolver thread
takes a query and delivers its result, and posted results run in the loops of their selectors. What the cache and the
blocking resolution give is part of the events. `awaiting` tells which handlers have a result to come.
-/

namespace Whispercast.Net

open Library Io Function List

namespace Dns

/-- `Query`, with its identity and the handler that it was made for. -/
structure Query (η : Type) where
  id : Nat
  owner : η
  selector_ : Nat
  hostname_ : Bytes
  result_handler_ : Option η

/-- A call of `Return` that is posted to a selector. -/
structure Posted (η ι : Type) where
  selector : Nat
  handler : η
  info : Option ι

structure DnsResolver (η ι : Type) where
  nextId : Nat
  query_queue_ : List (Query η)
  /-- The query that the resolver thread is resolving. -/
  taken : Option (Query η)
  query_map_ : η → Option Nat
  posted : List (Posted η ι)
  /-- The calls of handlers. -/
  results : List (η × Option ι)
  awaiting : η → Bool

inductive Event (η ι : Type) where
  | resolve (selector : Nat) (hostname : Bytes) (handler : η) (cached : Option ι)
  | cancel (handler : η)
  /-- The resolver thread gets a query. -/
  | take
  /-- The blocking resolution ends. -/
  | deliver (info : Option ι)
  /-- A posted result runs: no result before it is for its selector. -/
  | run (n : Nat)

def kQueryQueueMaxSize : Nat := 1000

variable {η ι : Type} [DecidableEq η]

namespace Query

/-- `Cancel` on the query that the map points to. -/
def clear (i : Nat) (q : Query η) : Query η := if q.id = i then { q with result_handler_ := none } else q

end Query

namespace DnsResolver

def initial : DnsResolver η ι := ⟨0, [], none, fun _ => none, [], [], fun _ => false⟩

/-- The queries that are not deleted. -/
def live (r : DnsResolver η ι) : List (Query η) := r.taken.toList ++ r.query_queue_

/-- `Return`. -/
def post (r : DnsResolver η ι) (selector : Nat) (handler : η) (info : Option ι) : DnsResolver η ι :=
  { r with posted := r.posted ++ [⟨selector, handler, info⟩] }

/-- `Resolve`. -/
def Resolve (r : DnsResolver η ι) (selector : Nat) (hostname : Bytes) (handler : η) (cached : Option ι) :
    DnsResolver η ι :=
  if kQueryQueueMaxSize ≤ r.query_queue_.length then r.post selector handler none
  else
    match cached with
    | some info => r.post selector handler (some info)
    | none =>
      { r with
        nextId := r.nextId + 1
        query_queue_ := r.query_queue_ ++ [⟨r.nextId, handler, selector, hostname, some handler⟩]
        query_map_ := Function.update r.query_map_ handler (some r.nextId) }

/-- `Cancel`; it is `none` where the query that the map points to is deleted. -/
def Cancel (r : DnsResolver η ι) (handler : η) : Option (DnsResolver η ι) :=
  match r.query_map_ handler with
  | none => some r
  | some i =>
    if r.live.any (·.id == i) then
      some { r with taken := r.taken.map (.clear i), query_queue_ := r.query_queue_.map (.clear i) }
    else none

/-- A step of one of the threads; it is `none` where it cannot happen or reads a deleted query. -/
def step (r : DnsResolver η ι) : Event η ι → Option (DnsResolver η ι)
  | .resolve selector hostname handler cached =>
    some { r.Resolve selector hostname handler cached with awaiting := Function.update r.awaiting handler true }
  | .cancel handler =>
    (r.Cancel handler).map fun r => { r with awaiting := Function.update r.awaiting handler false }
  | .take =>
    match r.taken, r.query_queue_ with
    | none, q :: queue =>
      some { r with taken := if q.result_handler_ = none then none else some q, query_queue_ := queue }
    | _, _ => none
  | .deliver info =>
    match r.taken with
    | none => none
    | some q =>
      match q.result_handler_ with
      | none => some { r with taken := none }
      | some h =>
        some (post { r with taken := none, query_map_ := Function.update r.query_map_ h none } q.selector_ h info)
  | .run n =>
    match r.posted[n]? with
    | none => none
    | some p =>
      if (r.posted.take n).any (·.selector == p.selector) then none
      else some { r with
        posted := r.posted.eraseIdx n
        results := r.results ++ [(p.handler, p.info)]
        awaiting := Function.update r.awaiting p.handler false }

/-- The results that a handler will be called with: the posted ones and those of queries. -/
def copies (r : DnsResolver η ι) (h : η) : Nat :=
  r.posted.countP (·.handler = h) + r.live.countP (·.result_handler_ = some h)

/-- A handler has one result to come if it is awaiting one, and else none; the map points to queries that are not
deleted. -/
def Delivers (r : DnsResolver η ι) : Prop :=
  (∀ h, r.copies h = (r.awaiting h).toNat) ∧ ∀ h i, r.query_map_ h = some i → ∃ q ∈ r.live, q.id = i

/-- A cancelled query that goes away is not what the map points to for its handler. -/
def Dropped (r : DnsResolver η ι) (q : Query η) : Prop := q.result_handler_ = none → r.query_map_ q.owner ≠ some q.id

/-- A handler resolves one name at a time, it is not cancelled once its result is posted, and a cancelled query goes
away behind a new one of its handler. -/
def Careful (r : DnsResolver η ι) : Event η ι → Prop
  | .resolve _ _ handler _ => r.awaiting handler = false
  | .cancel handler => ∀ p ∈ r.posted, p.handler ≠ handler
  | .take => ∀ q ∈ r.query_queue_.head?.toList, r.Dropped q
  | .deliver _ => ∀ q ∈ r.taken.toList, r.Dropped q
  | .run _ => True

instance (r : DnsResolver η ι) (q : Query η) : Decidable (r.Dropped q) := inferInstanceAs (Decidable (_ → _))

instance (r : DnsResolver η ι) : (e : Event η ι) → Decidable (r.Careful e)
  | .resolve .. => inferInstanceAs (Decidable (_ = _))
  | .cancel _ => inferInstanceAs (Decidable (∀ p ∈ r.posted, _))
  | .take => inferInstanceAs (Decidable (∀ q ∈ r.query_queue_.head?.toList, _))
  | .deliver _ => inferInstanceAs (Decidable (∀ q ∈ r.taken.toList, _))
  | .run _ => isTrue trivial

/-! ## The invariant -/

structure Inv (r : DnsResolver η ι) : Prop where
  nodup : (r.live.map Query.id).Nodup
  fresh : ∀ q ∈ r.live, q.id < r.nextId
  mapped : ∀ h i, r.query_map_ h = some i → ∃ q ∈ r.live, q.id = i ∧ q.owner = h
  owned : ∀ q ∈ r.live, ∀ h, q.result_handler_ = some h → q.owner = h ∧ r.query_map_ h = some q.id
  once : ∀ h, r.copies h = (r.awaiting h).toNat

variable {r : DnsResolver η ι}

variable {h : η}

/-- A handler that awaits nothing has no query. -/
theorem Inv.not_awaiting (hinv : Inv r) (hno : r.awaiting h = false) :
    r.posted.countP (·.handler = h) = 0 ∧ ∀ q ∈ r.live, q.result_handler_ ≠ some h := by
  have honce := hinv.once h
  rw [hno, copies] at honce
  obtain ⟨hposted, hlive⟩ := Nat.add_eq_zero_iff.1 honce
  exact ⟨hposted, fun q hq => by simpa using countP_eq_zero.1 hlive q hq⟩

variable {r' : DnsResolver η ι}

/-- A query goes away. -/
theorem Inv.drop {q : Query η} {queue : List (Query η)} (hinv : Inv r) (hlive : r.live = q :: queue)
    (hnone : q.result_handler_ = none) (hdropped : r.Dropped q) (hr' : r' = { r with
      taken := none
      query_queue_ := queue }) : Inv r' := by
  subst hr'
  have hmem : ∀ p ∈ queue, p ∈ r.live := fun p hp => hlive ▸ mem_cons_of_mem q hp
  refine ⟨?_, fun p hp => hinv.fresh p (hmem p hp), fun h i hi => ?_, fun p hp => hinv.owned p (hmem p hp), fun h => ?_⟩
  · have hnodup := hinv.nodup
    rw [hlive] at hnodup
    exact (nodup_cons.1 hnodup).2
  · obtain ⟨p, hp, hid, howner⟩ := hinv.mapped h i hi
    rw [hlive] at hp
    rcases mem_cons.1 hp with rfl | hp
    · exact absurd (by rw [howner, hid]; exact hi) (hdropped hnone)
    · exact ⟨p, hp, hid, howner⟩
  · have honce := hinv.once h
    rw [copies, hlive, countP_cons_of_neg (by simp [hnone])] at honce
    exact honce

/-- A step that is about one handler. -/
theorem Inv.once_update (hinv : Inv r) {b : Bool}
    (hawaiting : r'.awaiting = Function.update r.awaiting h b) (hself : r'.copies h = b.toNat)
    (hothers : ∀ h', h ≠ h' → r'.copies h' = r.copies h') (h' : η) : r'.copies h' = (r'.awaiting h').toNat := by
  rw [hawaiting]
  by_cases heq : h = h'
  · rw [← heq, hself, update_self]
  · rw [hothers h' heq, update_of_ne (Ne.symm heq), hinv.once h']

/-- A result is posted. -/
theorem Inv.post (hinv : Inv r) (hno : r.awaiting h = false) (selector : Nat) (info : Option ι) :
    Inv { r.post selector h info with awaiting := Function.update r.awaiting h true } := by
  have hcopies : ∀ h', copies { r.post selector h info with awaiting := update r.awaiting h true } h' =
      r.copies h' + if h = h' then 1 else 0 := by
    intro h'
    simp only [copies, DnsResolver.post, live, countP_append, countP_singleton, decide_eq_true_eq]
    omega
  refine ⟨hinv.nodup, hinv.fresh, hinv.mapped, hinv.owned, hinv.once_update rfl ?_ fun h' hne => ?_⟩
  · rw [hcopies, hinv.once h, hno, if_pos rfl]
    rfl
  · rw [hcopies, if_neg hne, Nat.add_zero]

/-- A query is put in the queue, and the map points to it. -/
theorem Inv.put (hinv : Inv r) (hno : r.awaiting h = false) {q : Query η} (hid : q.id = r.nextId)
    (howner : q.owner = h) (hhandler : q.result_handler_ = some h)
    (hnext : r'.nextId = r.nextId + 1) (hlive : r'.live = r.live ++ [q])
    (hmap : r'.query_map_ = Function.update r.query_map_ h (some r.nextId)) (hposted : r'.posted = r.posted)
    (hawaiting : r'.awaiting = Function.update r.awaiting h true) : Inv r' := by
  obtain ⟨-, hqueries⟩ := hinv.not_awaiting hno
  have hmem : ∀ {p}, p ∈ r'.live ↔ p ∈ r.live ∨ p = q := by simp [hlive]
  have hcopies : ∀ h', r'.copies h' = r.copies h' + if h = h' then 1 else 0 := by
    intro h'
    simp only [copies, hposted, hlive, countP_append, countP_singleton, hhandler, Option.some.injEq,
      decide_eq_true_eq]
    omega
  refine ⟨?_, fun p hp => ?_, fun h' i hi => ?_, fun p hp h' hh' => ?_, hinv.once_update hawaiting ?_ fun h' hne => ?_⟩
  · rw [hlive, map_append, nodup_append]
    refine ⟨hinv.nodup, by simp, ?_⟩
    rintro i hi j hj rfl
    obtain ⟨p, hp, rfl⟩ := mem_map.1 hi
    have hlt := hinv.fresh p hp
    rw [mem_singleton.1 hj, hid] at hlt
    exact Nat.lt_irrefl _ hlt
  · rw [hnext]
    rcases hmem.1 hp with hp | rfl
    · exact Nat.lt_succ_of_lt (hinv.fresh p hp)
    · exact hid ▸ Nat.lt_succ_self _
  · rw [hmap] at hi
    by_cases heq : h' = h
    · rw [heq, update_self] at hi
      exact ⟨q, hmem.2 (.inr rfl), hid.trans (Option.some.inj hi), howner.trans heq.symm⟩
    · rw [update_of_ne heq] at hi
      obtain ⟨p, hp, hpi⟩ := hinv.mapped h' i hi
      exact ⟨p, hmem.2 (.inl hp), hpi⟩
  · rw [hmap]
    rcases hmem.1 hp with hp | rfl
    · have hne : h' ≠ h := by
        rintro rfl
        exact hqueries p hp hh'
      rw [update_of_ne hne]
      exact hinv.owned p hp h' hh'
    · rw [hhandler] at hh'
      cases hh'
      rw [update_self, hid]
      exact ⟨howner, rfl⟩
  · rw [hcopies, hinv.once h, hno, if_pos rfl]
    rfl
  · rw [hcopies, if_neg hne, Nat.add_zero]

theorem Inv.resolve (hinv : Inv r) (hno : r.awaiting h = false) (selector : Nat) (hostname : Bytes)
    (cached : Option ι) :
    Inv { r.Resolve selector hostname h cached with awaiting := Function.update r.awaiting h true } := by
  unfold Resolve
  split
  · exact hinv.post hno selector none
  · cases cached with
    | some info => exact hinv.post hno selector (some info)
    | none => exact hinv.put hno rfl rfl rfl rfl (append_assoc ..).symm rfl rfl rfl

/-- What `Cancel` does to the query that the map points to. -/
theorem Inv.clear (hinv : Inv r) {i : Nat} (hi : r.query_map_ h = some i)
    (hzero : r.posted.countP (·.handler = h) = 0) (hnext : r'.nextId = r.nextId)
    (hlive : r'.live = r.live.map (Query.clear i)) (hmap : r'.query_map_ = r.query_map_)
    (hposted : r'.posted = r.posted) (hawaiting : r'.awaiting = Function.update r.awaiting h false) : Inv r' := by
  obtain ⟨q, hq, hqi, howner⟩ := hinv.mapped h i hi
  have hsame : ∀ p : Query η, (p.clear i).id = p.id ∧ (p.clear i).owner = p.owner := by
    intro p
    unfold Query.clear
    split <;> exact ⟨rfl, rfl⟩
  -- A query keeps its handler unless it is the one of the call.
  have hkept : ∀ p ∈ r.live, ∀ h', (p.clear i).result_handler_ = some h' ↔ p.result_handler_ = some h' ∧ h' ≠ h := by
    intro p hp h'
    unfold Query.clear
    split
    · next hpi =>
      refine ⟨nofun, fun ⟨hh', hne⟩ => absurd ?_ hne⟩
      have hpq : p = q := inj_on_of_nodup_map hinv.nodup hp hq (hpi.trans hqi.symm)
      rw [← (hinv.owned p hp h' hh').1, hpq, howner]
    · next hpi =>
      refine ⟨fun hh' => ⟨hh', ?_⟩, And.left⟩
      rintro rfl
      have hpoints := (hinv.owned p hp h' hh').2
      rw [hi] at hpoints
      exact hpi (Option.some.inj hpoints).symm
  refine ⟨?_, fun p hp => ?_, fun h' j hj => ?_, fun p hp h' hh' => ?_, hinv.once_update hawaiting ?_ fun h' hne => ?_⟩
  · rw [hlive, map_map, show Query.id ∘ Query.clear i = Query.id from funext fun p => (hsame p).1]
    exact hinv.nodup
  · rw [hlive] at hp
    obtain ⟨p, hmem, rfl⟩ := mem_map.1 hp
    rw [(hsame p).1, hnext]
    exact hinv.fresh p hmem
  · rw [hmap] at hj
    obtain ⟨p, hp, hpj, hpo⟩ := hinv.mapped h' j hj
    exact ⟨p.clear i, hlive ▸ mem_map_of_mem hp, (hsame p).1.trans hpj, (hsame p).2.trans hpo⟩
  · rw [hlive] at hp
    obtain ⟨p, hmem, rfl⟩ := mem_map.1 hp
    rw [(hsame p).1, (hsame p).2, hmap]
    exact hinv.owned p hmem h' ((hkept p hmem h').1 hh').1
  · rw [copies, hposted, hlive, hzero, Nat.zero_add, countP_map]
    refine countP_eq_zero.2 fun p hp => ?_
    rw [comp_apply, decide_eq_true_eq, hkept p hp h]
    exact fun hh => hh.2 rfl
  · rw [copies, copies, hposted, hlive, countP_map]
    refine congrArg _ (countP_congr fun p hp => ?_)
    rw [comp_apply, decide_eq_true_eq, decide_eq_true_eq, hkept p hp h']
    exact and_iff_left (Ne.symm hne)

theorem Inv.cancel (hinv : Inv r) (hposted : ∀ p ∈ r.posted, p.handler ≠ h) :
    ∃ r', r.Cancel h = some r' ∧ Inv { r' with awaiting := Function.update r'.awaiting h false } := by
  have hzero : r.posted.countP (·.handler = h) = 0 := countP_eq_zero.2 fun p hp => by simpa using hposted p hp
  unfold Cancel
  cases hmap : r.query_map_ h with
  | none =>
    refine ⟨r, rfl, hinv.nodup, hinv.fresh, hinv.mapped, hinv.owned, hinv.once_update rfl ?_ fun _ _ => rfl⟩
    have hnone : r.live.countP (·.result_handler_ = some h) = 0 := by
      refine countP_eq_zero.2 fun q hq => ?_
      rw [decide_eq_true_eq]
      intro hh
      have hpoints := (hinv.owned q hq h hh).2
      rw [hmap] at hpoints
      cases hpoints
    exact Nat.add_eq_zero_iff.2 ⟨hzero, hnone⟩
  | some i =>
    obtain ⟨q, hq, hqi, -⟩ := hinv.mapped h i hmap
    have hany : r.live.any (·.id == i) = true := any_eq_true.2 ⟨q, hq, by simpa using hqi⟩
    dsimp only
    rw [if_pos hany]
    refine ⟨_, rfl, hinv.clear hmap hzero rfl ?_ rfl rfl rfl⟩
    rw [live, live, map_append]
    cases r.taken <;> rfl

/-- The result of a query is posted. -/
theorem Inv.deliver (hinv : Inv r) {q : Query η} (htaken : r.taken = some q)
    (hhandler : q.result_handler_ = some h) (info : Option ι) :
    Inv (DnsResolver.post { r with taken := none, query_map_ := Function.update r.query_map_ h none } q.selector_ h info) := by
  have hlive : r.live = q :: r.query_queue_ := by rw [live, htaken]; rfl
  have hmem : ∀ p ∈ r.query_queue_, p ∈ r.live := fun p hp => hlive ▸ mem_cons_of_mem q hp
  obtain ⟨howner, hq⟩ := hinv.owned q (hlive ▸ mem_cons_self) h hhandler
  have hnodup := hinv.nodup
  rw [hlive] at hnodup
  obtain ⟨hother, htail⟩ := nodup_cons.1 hnodup
  refine ⟨htail, fun p hp => hinv.fresh p (hmem p hp), fun h' i hi => ?_, fun p hp h' hh' => ?_, fun h' => ?_⟩
  · have hne : h' ≠ h := by
      rintro rfl
      exact absurd hi (by simp [DnsResolver.post])
    obtain ⟨p, hp, hpi, hpo⟩ := hinv.mapped h' i ((update_of_ne hne ..).symm.trans hi)
    rw [hlive] at hp
    rcases mem_cons.1 hp with rfl | hp
    · exact absurd (hpo.symm.trans howner) hne
    · exact ⟨p, hp, hpi, hpo⟩
  · obtain ⟨hpo, hpi⟩ := hinv.owned p (hmem p hp) h' hh'
    have hne : h' ≠ h := by
      rintro rfl
      rw [hq] at hpi
      exact hother (Option.some.inj hpi ▸ mem_map_of_mem hp)
    exact ⟨hpo, (update_of_ne hne ..).trans hpi⟩
  · refine Eq.trans ?_ (hinv.once h')
    rw [copies, copies, hlive]
    simp only [DnsResolver.post, live, Option.toList_none, nil_append, countP_append, countP_cons,
      countP_nil, hhandler, Option.some.injEq, decide_eq_true_eq]
    omega

/-- A posted result runs. -/
theorem Inv.run (hinv : Inv r) {n : Nat} {p : Posted η ι} (hp : r.posted[n]? = some p) {results : List (η × Option ι)} :
    Inv { r with
      posted := r.posted.eraseIdx n
      results := results
      awaiting := Function.update r.awaiting p.handler false } := by
  obtain ⟨hn, hget⟩ := List.getElem?_eq_some_iff.1 hp
  have hperm := List.getElem_cons_eraseIdx_perm hn
  have hcopies : ∀ h', r.copies h' = (if p.handler = h' then 1 else 0) + ((r.posted.eraseIdx n).countP (·.handler = h') +
      r.live.countP (·.result_handler_ = some h')) := by
    intro h'
    rw [copies, ← hperm.countP_eq, countP_cons, hget]
    simp only [decide_eq_true_eq]
    omega
  refine ⟨hinv.nodup, hinv.fresh, hinv.mapped, hinv.owned, hinv.once_update rfl ?_ fun h' hne => ?_⟩
  · have honce := hinv.once p.handler
    rw [hcopies, if_pos rfl] at honce
    have hle := Bool.toNat_le (r.awaiting p.handler)
    have hzero : (r.posted.eraseIdx n).countP (·.handler = p.handler) +
        r.live.countP (·.result_handler_ = some p.handler) = 0 := by omega
    exact hzero
  · rw [hcopies h', if_neg hne, Nat.zero_add]
    rfl

theorem inv_initial : Inv (initial : DnsResolver η ι) := ⟨nodup_nil, nofun, nofun, nofun, fun _ => rfl⟩

theorem step_inv {e : Event η ι} (hinv : Inv r) (he : r.Careful e) (hstep : r.step e = some r') : Inv r' := by
  cases e with
  | resolve selector hostname handler cached =>
    cases hstep
    exact hinv.resolve he selector hostname cached
  | cancel handler =>
    obtain ⟨_, hcancel, hinv'⟩ := hinv.cancel he
    rw [step, hcancel] at hstep
    cases hstep
    exact hinv'
  | take =>
    cases htaken : r.taken with
    | some q =>
      rw [step, htaken] at hstep
      cases hstep
    | none =>
      cases hqueue : r.query_queue_ with
      | nil =>
        rw [step, htaken, hqueue] at hstep
        cases hstep
      | cons q queue =>
        have hlive : r.live = q :: queue := by
          rw [live, htaken, hqueue]
          rfl
        rw [step, htaken, hqueue] at hstep
        cases hstep
        cases hhandler : q.result_handler_ with
        | none => exact hinv.drop hlive hhandler (he q (by rw [hqueue]; exact mem_singleton_self q)) rfl
        | some h =>
          obtain ⟨hnodup, hfresh, hmapped, howned, honce⟩ := hinv
          unfold copies at honce
          rw [hlive] at hnodup hfresh hmapped howned honce
          exact ⟨hnodup, hfresh, hmapped, howned, honce⟩
  | deliver info =>
    cases htaken : r.taken with
    | none =>
      rw [step, htaken] at hstep
      cases hstep
    | some q =>
      have hlive : r.live = q :: r.query_queue_ := by
        rw [live, htaken]
        rfl
      cases hhandler : q.result_handler_ with
      | none =>
        rw [step, htaken] at hstep
        dsimp only at hstep
        rw [hhandler] at hstep
        cases hstep
        exact hinv.drop hlive hhandler (he q (by rw [htaken]; exact mem_singleton_self q)) rfl
      | some h =>
        rw [step, htaken] at hstep
        dsimp only at hstep
        rw [hhandler] at hstep
        cases hstep
        exact hinv.deliver htaken hhandler info
  | run n =>
    cases hp : r.posted[n]? with
    | none =>
      rw [step, hp] at hstep
      cases hstep
    | some p =>
      rw [step, hp] at hstep
      dsimp only at hstep
      split at hstep
      · cases hstep
      · cases hstep
        exact hinv.run hp

/-- In a careful run every handler gets one result for a resolution that is not cancelled, and none else. -/
theorem run_delivers {es : List (Event η ι)} {r : DnsResolver η ι} (hes : Along step Careful initial es)
    (hrun : Library.run step initial es = some r) : r.Delivers := by
  have hinv := run_invariant_along (fun s e s' hs he hstep => step_inv hs he hstep) inv_initial hes hrun
  refine ⟨hinv.once, fun h i hi => ?_⟩
  obtain ⟨q, hq, hqi, -⟩ := hinv.mapped h i hi
  exact ⟨q, hq, hqi⟩

/-- A query is cancelled, and is dropped behind a new one of its handler. -/
def again : List (Event Nat Nat) :=
  [.resolve 0 [] 7 none, .cancel 7, .resolve 0 [] 7 none, .take, .take, .deliver (some 1), .run 0]

theorem run_delivers_again : ∃ r, Library.run step initial again = some r ∧ r.Delivers :=
  ⟨_, rfl, run_delivers (show Along step Careful initial again by decide) rfl⟩

/-- A posted result is not cancelled. And a query that is cancelled while it is resolved stays in the map when it is
deleted. -/
theorem late_cancel_fails : (∃ r, Library.run step (initial : DnsResolver Nat Nat) [.resolve 0 [] 7 (some 1), .cancel 7] =
      some r ∧ ¬ r.Delivers) ∧
    Library.run step (initial : DnsResolver Nat Nat)
      [.resolve 0 [] 7 none, .take, .cancel 7, .deliver (some 1), .cancel 7] = none :=
  ⟨⟨_, rfl, fun h => absurd (h.1 7) (by decide)⟩, rfl⟩

end DnsResolver

end Dns

end Whispercast.Net
