import Mathlib.Algebra.GroupWithZero.Nat
import Mathlib.Algebra.Order.BigOperators.Group.Finset
import Mathlib.Data.Prod.Lex
import Whispercast.Http.FailSafeClient

/-!
# Runs of the fail-safe client

Every struct is counted in the places where it can be; each step moves it from one of them to another. A client that is
dead holds no request, so that a loop over the clients is not interrupted while it replaces one of them, and is always
the innermost thing to be done. The rank of a state counts the queues that are still to be requeued, then the retries
that are left, then the steps of the loops.
-/

namespace Whispercast.Http

open Library ClientProtocol Frame Function List

/-- What may wait below the innermost thing to be done, while the client is open. -/
def Frame.Rests : Frame → Prop
  | .moveLoop old_queue => old_queue = []
  | .scan .. | .reopen .. | .destroy _ | .deleteClient _ => False
  | _ => True

/-- The queues that a caller still lets be requeued. -/
def Caller.queues : Caller → Nat
  | .startRequest => 1
  | _ => 0

/-- The queues that are still to be requeued. -/
def Frame.queues : Frame → Nat
  | .internalStartRequest _ caller | .scan _ caller _ _ | .reopen _ caller _ _ | .result _ caller => caller.queues
  | .requeuePending => 1
  | _ => 0

/-- The steps of a loop over an old queue, with `n` clients. -/
def loopSteps (n : Nat) (old_queue : List Nat) : Nat := old_queue.length * (2 * n + 8) + 1

def Caller.steps (n : Nat) : Caller → Nat
  | .requeuePending old_queue => loopSteps n old_queue
  | _ => 0

/-- The steps that are left, with `n` clients. -/
def Frame.steps (n : Nat) : Frame → Nat
  | .internalStartRequest _ caller => 2 * n + 4 + caller.steps n
  | .scan _ caller i _ => 2 * (n - i) + 3 + caller.steps n
  | .reopen _ caller i _ => 2 * (n - (i + 1)) + 4 + caller.steps n
  | .result _ caller => 2 + caller.steps n
  | .completionCallback .. => 2 * n + 6
  | .requeuePending | .moveLoop _ => 1
  | .requeueLoop old_queue => loopSteps n old_queue
  | .destroy i => 2 * (n - i) + 2
  | .deleteClient i => 2 * (n - (i + 1)) + 3

namespace FailSafeClient

/-! ## The callbacks of several requests -/

section Callbacks

variable (requests : List Nat) (errors : Nat → ClientError)

@[simp] theorem callbacks_kept : (callbacks requests errors).flatMap Frame.kept = [] := by
  simp [callbacks, List.flatMap_map, Frame.kept]

@[simp] theorem callbacks_lent : (callbacks requests errors).flatMap Frame.lent = requests := by
  simp [callbacks, List.flatMap_map, Frame.lent]

@[simp] theorem callbacks_queues : ((callbacks requests errors).map Frame.queues).sum = 0 := by
  simp [callbacks, Function.comp_def, Frame.queues]

@[simp] theorem callbacks_steps (n : Nat) :
    ((callbacks requests errors).map (Frame.steps n)).sum = requests.length * (2 * n + 6) := by
  simp [callbacks, Function.comp_def, Frame.steps]

theorem mem_callbacks {f : Frame} (hf : f ∈ callbacks requests errors) : ∃ ps error, f = .completionCallback ps error := by
  obtain ⟨ps, -, rfl⟩ := mem_map.1 hf
  exact ⟨ps, errors ps, rfl⟩

end Callbacks

/-! ## Where the structs are -/

variable {clients : List ClientProtocol}

/-- The requests that are held, with those of one client apart. -/
theorem held_split {i : Nat} {client : ClientProtocol} (h : clients[i]? = some client) :
    ∃ before behind, clients.flatMap ClientProtocol.held = before ++ client.held ++ behind ∧
      ∀ client' : ClientProtocol,
        (clients.set i client').flatMap ClientProtocol.held = before ++ client'.held ++ behind := by
  obtain ⟨hi, rfl⟩ := List.getElem?_eq_some_iff.1 h
  refine ⟨(clients.take i).flatMap held, (clients.drop (i + 1)).flatMap held, ?_,
    fun client' => ?_⟩
  · conv_lhs => rw [← List.take_append_drop i clients, List.drop_eq_getElem_cons hi]
    rw [flatMap_append, flatMap_cons, List.append_assoc]
  · rw [List.set_eq_take_append_cons_drop, if_pos hi]
    simp

/-- The requests of a client that is replaced. -/
theorem count_set {i : Nat} {client : ClientProtocol} (h : clients[i]? = some client)
    (client' : ClientProtocol) (ps : Nat) :
    ((clients.set i client').flatMap ClientProtocol.held).count ps + client.held.count ps =
      (clients.flatMap ClientProtocol.held).count ps + client'.held.count ps := by
  obtain ⟨_, _, hheld, hset⟩ := held_split h
  rw [hheld, hset]
  simp only [count_append]
  omega

/-- A client that holds nothing is replaced by such a one. -/
theorem flatMap_held_set {i : Nat}
    (h : ∀ client, clients[i]? = some client → client.held = []) {client' : ClientProtocol} (h' : client'.held = []) :
    (clients.set i client').flatMap ClientProtocol.held = clients.flatMap ClientProtocol.held := by
  cases hi : clients[i]? with
  | none => rw [set_eq_of_length_le (getElem?_eq_none_iff.1 hi)]
  | some client =>
    obtain ⟨_, _, hheld, hset⟩ := held_split hi
    rw [hheld, hset, h', h client hi]

/-- In how many places a struct is, and whether it was deleted. -/
def places (s : FailSafeClient) (ps : Nat) : Nat :=
  s.kept.count ps + s.lent.count ps + (s.completed.map Prod.fst).count ps

/-- A step brings no struct to where its data matter, and leaves each in as many places. -/
def Moves (s s' : FailSafeClient) : Prop :=
  ∀ ps, s'.kept.count ps ≤ s.kept.count ps ∧ s'.lent.count ps ≤ s.lent.count ps ∧ s'.places ps = s.places ps

/-- The structs are each in one place, with the data of their requests. -/
structure Placed (s : FailSafeClient) : Prop where
  once : ∀ ps, s.places ps = if ps < s.added then 1 else 0
  kept_data : ∀ ps ∈ s.kept, (s.structs ps).client_data = s.data ps
  lent_data : ∀ ps ∈ s.lent, ∃ n, (s.structs ps).client_data = (s.data ps).markSet.pop n
  same_data : ∀ e ∈ s.sent, e.1 < s.added ∧ e.2 = (s.data e.1).readable

namespace Placed

variable {s s' : FailSafeClient}

theorem le_one (h : s.Placed) (ps : Nat) : s.places ps ≤ 1 := by
  rw [h.once]
  split <;> omega

theorem lt_added (h : s.Placed) {ps : Nat} (hpos : 0 < s.places ps) : ps < s.added := by
  rw [h.once] at hpos
  by_contra hps
  rw [if_neg hps] at hpos
  omega

/-- A struct that is somewhere was not deleted. -/
theorem deref (h : s.Placed) {ps : Nat} (hmem : ps ∈ s.kept ∨ ps ∈ s.lent) : s.deref ps = some (s.structs ps) := by
  have hle := h.le_one ps
  have hpos : 0 < s.kept.count ps + s.lent.count ps := by
    rcases hmem with hmem | hmem <;> have := count_pos_iff.2 hmem <;> omega
  rw [places] at hle
  exact if_neg fun hdone => by
    have := count_pos_iff.2 hdone
    omega

/-- A step that changes no struct and sends nothing. -/
theorem move (h : s.Placed) (hstructs : s'.structs = s.structs) (hdata : s'.data = s.data) (hsent : s'.sent = s.sent)
    (hadded : s'.added = s.added) (hcount : s.Moves s') : s'.Placed where
  once ps := by rw [(hcount ps).2.2, h.once, hadded]
  kept_data ps hps := by
    have := count_pos_iff.2 hps
    rw [hstructs, hdata]
    exact h.kept_data ps (count_pos_iff.1 (this.trans_le (hcount ps).1))
  lent_data ps hps := by
    have := count_pos_iff.2 hps
    rw [hstructs, hdata]
    exact h.lent_data ps (count_pos_iff.1 (this.trans_le (hcount ps).2.1))
  same_data e he := by
    rw [hsent] at he
    rw [hadded, hdata]
    exact h.same_data e he

/-- A step that changes one struct. -/
theorem change (h : s.Placed) {ps : Nat} {p : PendingStruct} (hstructs : s'.structs = Function.update s.structs ps p)
    (hdata : s'.data = s.data) (hadded : s'.added = s.added)
    (hsent : s'.sent = s.sent ∨ ps < s.added ∧ s'.sent = s.sent ++ [(ps, (s.data ps).readable)])
    (hcount : ∀ q, (q ≠ ps → s'.kept.count q ≤ s.kept.count q ∧ s'.lent.count q ≤ s.lent.count q) ∧
      s'.places q = s.places q)
    (hkept : ps ∈ s'.kept → p.client_data = s.data ps)
    (hlent : ps ∈ s'.lent → ∃ n, p.client_data = (s.data ps).markSet.pop n) : s'.Placed where
  once q := by rw [(hcount q).2, h.once, hadded]
  kept_data q hq := by
    rw [hstructs, hdata]
    by_cases hqp : q = ps
    · subst hqp
      rw [update_self]
      exact hkept hq
    · have := count_pos_iff.2 hq
      rw [update_of_ne hqp]
      exact h.kept_data q (count_pos_iff.1 (this.trans_le ((hcount q).1 hqp).1))
  lent_data q hq := by
    rw [hstructs, hdata]
    by_cases hqp : q = ps
    · subst hqp
      rw [update_self]
      exact hlent hq
    · have := count_pos_iff.2 hq
      rw [update_of_ne hqp]
      exact h.lent_data q (count_pos_iff.1 (this.trans_le ((hcount q).1 hqp).2))
  same_data e he := by
    rw [hadded, hdata]
    rcases hsent with hsent | ⟨hps, hsent⟩
    · exact h.same_data e (hsent ▸ he)
    · rw [hsent, mem_append, mem_singleton] at he
      rcases he with he | rfl
      · exact h.same_data e he
      · exact ⟨hps, rfl⟩

end Placed

/-! ## What is to be done -/

/-- What may be the innermost thing to be done, while the client is open. -/
def Legal (s : FailSafeClient) : Frame → Prop
  | .scan ps _ _ min => 0 < (s.structs ps).retries_left_ ∧ ∀ m ∈ min, m.1 < s.clients_.length
  | .reopen ps _ i min =>
    (0 < (s.structs ps).retries_left_ ∧ ∀ m ∈ min, m.1 < s.clients_.length) ∧
      ∃ client, s.clients_[i]? = some client ∧ client.held = []
  | f => f.Rests

/-- The client is open: only what is innermost may be in the middle of a loop over the clients. -/
structure Opened (s : FailSafeClient) : Prop where
  closing : s.closing_ = false
  destroyed : s.destroyed = false
  dead : ∀ client ∈ s.clients_, client.alive = false → client.held = []
  top : ∀ f ∈ s.stack.head?, s.Legal f
  below : ∀ f ∈ s.stack.tail, f.Rests

/-- The first `n` clients hold nothing. -/
def Emptied (s : FailSafeClient) (n : Nat) : Prop :=
  ∀ (i : Nat) (client : ClientProtocol), i < n → s.clients_[i]? = some client → client.held = []

/-- What is to be done in the destructor. -/
def Ends (s : FailSafeClient) : Frame → Prop
  | .completionCallback .. => True
  | .destroy i => s.Emptied i
  | .deleteClient i => s.Emptied (i + 1)
  | _ => False

/-- The destructor runs, or is behind. -/
structure Closed (s : FailSafeClient) : Prop where
  closing : s.closing_ = true
  deferred : s.deferred = []
  ends : ∀ f ∈ s.stack, s.Ends f
  destroyed : s.destroyed = true → s.pending_requests_ = [] ∧ ∀ client ∈ s.clients_, client.held = []

/-- The invariant. -/
structure Inv (s : FailSafeClient) : Prop where
  placed : s.Placed
  control : s.Opened ∨ s.Closed

theorem legal_of_rests {f : Frame} (h : f.Rests) (s : FailSafeClient) : s.Legal f := by
  cases f with
  | scan => exact h.elim
  | reopen => exact h.elim
  | _ => exact h

/-! ## The rank -/

/-- The queues that are still to be requeued. -/
def queues (s : FailSafeClient) : Nat := (s.stack.map Frame.queues).sum

/-- The retries that are left. -/
def retries (s : FailSafeClient) : Nat := ∑ ps ∈ Finset.range s.added, (s.structs ps).retries_left_.toNat

/-- The steps that are left. -/
def steps (s : FailSafeClient) : Nat :=
  (s.stack.map (Frame.steps s.clients_.length)).sum +
    (s.clients_.flatMap ClientProtocol.held).length * (2 * s.clients_.length + 6)

/-- The rank of a state. -/
def rank (s : FailSafeClient) : ℕ ×ₗ ℕ ×ₗ ℕ := toLex (s.queues, toLex (s.retries, s.steps))

section Rank

variable {s s' : FailSafeClient}

theorem rank_lt_of_queues (h : s'.queues < s.queues) : s'.rank < s.rank := Prod.Lex.toLex_lt_toLex.2 (.inl h)

theorem rank_lt_of_retries (hq : s'.queues = s.queues) (h : s'.retries < s.retries) : s'.rank < s.rank :=
  Prod.Lex.toLex_lt_toLex.2 (.inr ⟨hq, Prod.Lex.toLex_lt_toLex.2 (.inl h)⟩)

theorem rank_lt_of_steps (hq : s'.queues = s.queues) (hr : s'.retries = s.retries) (h : s'.steps < s.steps) :
    s'.rank < s.rank :=
  Prod.Lex.toLex_lt_toLex.2 (.inr ⟨hq, Prod.Lex.toLex_lt_toLex.2 (.inr ⟨hr, h⟩)⟩)

/-- A struct is changed, but not its retries. -/
theorem retries_update {ps : Nat} {p : PendingStruct} (hadded : s'.added = s.added)
    (hstructs : s'.structs = Function.update s.structs ps p) (hp : p.retries_left_ = (s.structs ps).retries_left_) :
    s'.retries = s.retries := by
  unfold retries
  rw [hadded, hstructs]
  refine Finset.sum_congr rfl fun q _ => ?_
  by_cases hq : q = ps
  · subst hq
    rw [update_self, hp]
  · rw [update_of_ne hq]

/-- A retry is used. -/
theorem retries_lt {ps : Nat} {p : PendingStruct} (hadded : s'.added = s.added) (hps : ps < s.added)
    (hstructs : s'.structs = Function.update s.structs ps p) (hpos : 0 < (s.structs ps).retries_left_)
    (hp : p.retries_left_ = (s.structs ps).retries_left_ - 1) : s'.retries < s.retries := by
  unfold retries
  rw [hadded, hstructs]
  refine Finset.sum_lt_sum (fun q _ => ?_) ⟨ps, Finset.mem_range.2 hps, ?_⟩
  · by_cases hq : q = ps
    · subst hq
      rw [update_self, hp]
      omega
    · rw [update_of_ne hq]
  · rw [update_self, hp]
    omega

end Rank

/-! ## The client is open -/

/-- With `n` clients, these frames are less than this one. -/
def Falls (n : Nat) (frame : Frame) (frames : List Frame) : Prop :=
  (frames.map Frame.queues).sum < frame.queues ∨ (frames.map Frame.queues).sum = frame.queues ∧
    (frames.map (Frame.steps n)).sum < frame.steps n

/-- A step goes on with the invariant, and the rank falls. -/
def GoesOn (config : FailSafeConfig) (answer : Answer) (t : FailSafeClient) (frame : Frame) : Prop :=
  ∃ s', t.exec config answer frame = some s' ∧ s'.Inv ∧ s'.rank < (t.push [frame]).rank

section Open

variable {config : FailSafeConfig} {answer : Answer} {t s' : FailSafeClient} {frame : Frame}

/-- A step that changes no struct. -/
theorem Inv.goesOn_of {u : FailSafeClient} (h : (t.push [frame]).Inv) (frames : List Frame)
    (hexec : t.exec config answer frame = some (u.push frames))
    (hsame : u.stack = t.stack ∧ u.structs = t.structs ∧ u.data = t.data ∧ u.sent = t.sent ∧ u.added = t.added ∧
      u.clients_.length = t.clients_.length)
    (hcount : (t.push [frame]).Moves (u.push frames))
    (hcontrol : (u.push frames).Opened ∨ (u.push frames).Closed)
    (hrank : (frames.map Frame.queues).sum < frame.queues ∨ (frames.map Frame.queues).sum = frame.queues ∧
      (frames.map (Frame.steps t.clients_.length)).sum +
          (u.clients_.flatMap ClientProtocol.held).length * (2 * t.clients_.length + 6) <
        frame.steps t.clients_.length +
          (t.clients_.flatMap ClientProtocol.held).length * (2 * t.clients_.length + 6)) :
    GoesOn config answer t frame := by
  obtain ⟨hstack, hstructs, hdata, hsent, hadded, hlength⟩ := hsame
  refine ⟨_, hexec, ⟨h.placed.move hstructs hdata hsent hadded hcount, hcontrol⟩, ?_⟩
  rcases hrank with hq | ⟨hq, _⟩
  · apply rank_lt_of_queues
    simp [queues, push, hstack]
    omega
  · apply rank_lt_of_steps
    · simp [queues, push, hstack]
      omega
    · simp only [retries, hadded, hstructs, push]
    · simp only [steps, push, hstack, hlength, map_append, sum_append, map_cons, map_nil,
        sum_cons, sum_nil]
      omega

theorem Opened.next (h : (t.push [frame]).Opened) {frames : List Frame} (hstack : s'.stack = frames ++ t.stack)
    (hclosing : s'.closing_ = t.closing_) (hdestroyed : s'.destroyed = t.destroyed)
    (hdead : ∀ client ∈ s'.clients_, client.alive = false → client.held = [])
    (hframes : (∀ f ∈ frames, f.Rests) ∨ ∃ f, frames = [f] ∧ s'.Legal f) : s'.Opened where
  closing := hclosing.trans h.closing
  destroyed := hdestroyed.trans h.destroyed
  dead := hdead
  top f hf := by
    have hbelow : ∀ f ∈ t.stack, f.Rests := h.below
    rw [hstack] at hf
    rcases hframes with hrests | ⟨f', rfl, hlegal⟩
    · have hmem := mem_of_head? hf
      rcases mem_append.1 hmem with hmem | hmem
      · exact legal_of_rests (hrests f hmem) s'
      · exact legal_of_rests (hbelow f hmem) s'
    · cases hf
      exact hlegal
  below f hf := by
    have hbelow : ∀ f ∈ t.stack, f.Rests := h.below
    rw [hstack] at hf
    rcases hframes with hrests | ⟨f', rfl, -⟩
    · rcases mem_append.1 (mem_of_mem_tail hf) with hmem | hmem
      · exact hrests f hmem
      · exact hbelow f hmem
    · exact hbelow f hf

/-- A client that is replaced. -/
theorem dead_set {clients : List ClientProtocol} (h : ∀ client ∈ clients, client.alive = false → client.held = [])
    (i : Nat) {client' : ClientProtocol} (h' : client'.alive = false → client'.held = []) :
    ∀ client ∈ clients.set i client', client.alive = false → client.held = [] := by
  intro client hclient
  rcases mem_or_eq_of_mem_set hclient with hmem | rfl
  · exact h client hmem
  · exact h'

/-- A step that changes no struct, and leaves the clients as they are. -/
theorem Inv.step_move {u : FailSafeClient} (h : (t.push [frame]).Inv) (hopen : (t.push [frame]).Opened)
    (frames : List Frame) (hexec : t.exec config answer frame = some (u.push frames))
    (hsame : u.stack = t.stack ∧ u.clients_ = t.clients_ ∧ u.structs = t.structs ∧ u.data = t.data ∧ u.sent = t.sent ∧
      u.added = t.added ∧ u.closing_ = t.closing_ ∧ u.destroyed = t.destroyed)
    (hcount : (t.push [frame]).Moves (u.push frames))
    (hframes : (∀ f ∈ frames, f.Rests) ∨ ∃ f, frames = [f] ∧ (u.push frames).Legal f)
    (hrank : Falls t.clients_.length frame frames) :
    GoesOn config answer t frame := by
  obtain ⟨hstack, hclients, hstructs, hdata, hsent, hadded, hclosing, hdestroyed⟩ := hsame
  have hdead : ∀ client ∈ u.clients_, client.alive = false → client.held = [] := by
    rw [hclients]
    exact hopen.dead
  refine h.goesOn_of frames hexec ⟨hstack, hstructs, hdata, hsent, hadded, congrArg length hclients⟩ hcount
    (.inl (hopen.next (congrArg (frames ++ ·) hstack) hclosing hdestroyed hdead hframes)) (hrank.imp_right ?_)
  rintro ⟨hq, _⟩
  refine ⟨hq, ?_⟩
  rw [hclients]
  omega

/-- A step that only says what is to be done next. -/
theorem Inv.step_only (h : (t.push [frame]).Inv) (hopen : (t.push [frame]).Opened) (frames : List Frame)
    (hexec : t.exec config answer frame = some (t.push frames))
    (hplaces : frames.flatMap Frame.kept = [frame].flatMap Frame.kept ∧
      frames.flatMap Frame.lent = [frame].flatMap Frame.lent)
    (hframes : (∀ f ∈ frames, f.Rests) ∨ ∃ f, frames = [f] ∧ (t.push frames).Legal f)
    (hrank : Falls t.clients_.length frame frames) :
    GoesOn config answer t frame := by
  refine h.step_move hopen frames hexec ⟨rfl, rfl, rfl, rfl, rfl, rfl, rfl, rfl⟩ (fun q => ?_) hframes hrank
  simp only [places, kept, lent, push, flatMap_append, hplaces.1, hplaces.2, le_refl, true_and]

/-! ### One lemma for each frame -/

variable {ps : Nat} {caller : Caller}

theorem internalStartRequest_goesOn
    (h : (t.push [.internalStartRequest ps caller]).Inv) (hopen : (t.push [.internalStartRequest ps caller]).Opened) :
    GoesOn config answer t (.internalStartRequest ps caller) := by
  have hderef : t.deref ps = some (t.structs ps) := h.placed.deref (.inl (by simp [kept, push, Frame.kept]))
  have hcomplete : ∀ error, t.exec config answer (.internalStartRequest ps caller) =
      some ((t.complete ps error).push [.result true caller]) →
      GoesOn config answer t (.internalStartRequest ps caller) := by
    intro error hexec
    refine h.step_move hopen _ hexec ⟨rfl, rfl, rfl, rfl, rfl, rfl, rfl, rfl⟩ (fun q => ?_)
      (.inl (by simp [Rests])) (.inr ⟨rfl, by simp [Frame.steps]⟩)
    simp [places, kept, lent, push, complete, Frame.kept, Frame.lent, count_cons]
    omega
  by_cases htime : t.timedOut config (t.structs ps)
  · exact hcomplete .requestTimeout (by simp [exec, hderef, htime])
  · by_cases hretries : (t.structs ps).retries_left_ ≤ 0
    · exact hcomplete .tooManyRetries (by simp [exec, hderef, htime, hretries])
    · refine h.step_only hopen [.scan ps caller 0 none] (by simp [exec, hderef, htime, hretries]) ⟨rfl, rfl⟩
        (.inr ⟨_, rfl, ?_⟩) (.inr ⟨rfl, by simp [Frame.steps]⟩)
      exact ⟨not_le.1 hretries, nofun⟩

theorem result_goesOn {sent : Bool} (h : (t.push [.result sent caller]).Inv)
    (hopen : (t.push [.result sent caller]).Opened)
    (hspared : (t.push [.result sent caller]).Spared (.go answer)) :
    GoesOn config answer t (.result sent caller) := by
  cases caller with
  | completionCallback =>
    exact h.step_only hopen [] rfl ⟨rfl, rfl⟩ (.inl (forall_mem_nil _)) (.inr ⟨rfl, by simp [Frame.steps]⟩)
  | startRequest =>
    cases sent with
    | true =>
      exact h.step_only hopen [.requeuePending] rfl ⟨rfl, rfl⟩ (.inl (by simp [Rests]))
        (.inr ⟨rfl, by simp [Frame.steps, Caller.steps]⟩)
    | false =>
      exact h.step_only hopen [] rfl ⟨rfl, rfl⟩ (.inl (forall_mem_nil _)) (.inl (by simp [Frame.queues, Caller.queues]))
  | requeuePending old_queue =>
    cases sent with
    | true =>
      exact h.step_only hopen [.requeueLoop old_queue] rfl ⟨rfl, rfl⟩ (.inl (by simp [Rests]))
        (.inr ⟨rfl, by simp [Frame.steps, Caller.steps]⟩)
    | false =>
      -- The loop that would not end is not entered.
      obtain rfl : old_queue = [] := by
        cases old_queue with
        | nil => rfl
        | cons ps old_queue => exact hspared.elim
      exact h.step_only hopen [.moveLoop []] rfl ⟨rfl, rfl⟩ (.inl (by simp [Rests]))
        (.inr ⟨rfl, by simp [Frame.steps, Caller.steps, loopSteps]⟩)

theorem requeuePending_goesOn (h : (t.push [.requeuePending]).Inv) (hopen : (t.push [.requeuePending]).Opened) :
    GoesOn config answer t .requeuePending := by
  by_cases hempty : t.pending_requests_ = []
  · refine h.step_only hopen [] ?_ ⟨rfl, rfl⟩ (.inl (forall_mem_nil _)) (.inl (by simp [Frame.queues]))
    rw [exec, if_pos hempty]
    rfl
  · refine h.step_move hopen [.requeueLoop t.pending_requests_] (if_neg hempty)
      ⟨rfl, rfl, rfl, rfl, rfl, rfl, rfl, rfl⟩ (fun q => ?_) (.inl (by simp [Rests]))
      (.inl (by simp [Frame.queues]))
    simp [places, kept, lent, push, Frame.kept, Frame.lent]
    omega

theorem requeueLoop_goesOn {old_queue : List Nat} (h : (t.push [.requeueLoop old_queue]).Inv)
    (hopen : (t.push [.requeueLoop old_queue]).Opened) : GoesOn config answer t (.requeueLoop old_queue) := by
  cases old_queue with
  | nil => exact h.step_only hopen [] rfl ⟨rfl, rfl⟩ (.inl (forall_mem_nil _)) (.inr ⟨rfl, by simp [Frame.steps, loopSteps]⟩)
  | cons ps old_queue =>
    refine h.step_only hopen [.internalStartRequest ps (.requeuePending old_queue)] rfl ⟨rfl, rfl⟩
      (.inl (by simp [Rests])) (.inr ⟨rfl, ?_⟩)
    simp only [Frame.steps, Caller.steps, loopSteps, List.length_cons, map_cons, map_nil, sum_cons,
      sum_nil, Nat.add_mul]
    omega

theorem moveLoop_goesOn {old_queue : List Nat} (h : (t.push [.moveLoop old_queue]).Inv)
    (hopen : (t.push [.moveLoop old_queue]).Opened) : GoesOn config answer t (.moveLoop old_queue) := by
  obtain rfl : old_queue = [] := hopen.top _ rfl
  exact h.step_only hopen [] rfl ⟨rfl, rfl⟩ (.inl (forall_mem_nil _)) (.inr ⟨rfl, by simp [Frame.steps]⟩)

variable {min : Option (Nat × Nat)}

/-- The client that is replaced holds nothing. -/
theorem reopen_goesOn {i : Nat}
    (h : (t.push [.reopen ps caller i min]).Inv) (hopen : (t.push [.reopen ps caller i min]).Opened) :
    GoesOn config answer t (.reopen ps caller i min) := by
  obtain ⟨⟨hretries, hmin⟩, _, hclient, hheld⟩ : (t.push [.reopen ps caller i min]).Legal _ := hopen.top _ rfl
  have hflat : (t.clients_.set i {}).flatMap held = t.clients_.flatMap held :=
    flatMap_held_set (fun client' hclient' => by
      cases hclient.symm.trans hclient'
      exact hheld) rfl
  refine h.goesOn_of [.scan ps caller (i + 1) min] rfl ⟨rfl, rfl, rfl, rfl, rfl, List.length_set⟩ (fun q => ?_)
    (.inl (hopen.next rfl rfl rfl (dead_set hopen.dead i nofun) (.inr ⟨_, rfl, hretries, ?_⟩))) (.inr ⟨rfl, ?_⟩)
  · simp [places, kept, lent, push, setClient, Frame.kept, Frame.lent, hflat]
  · simpa [push, setClient] using hmin
  · simp only [setClient, hflat]
    simp [Frame.steps]

/-- The client behind an attempt: `taken` bytes of the data are written. -/
def attempted (t : FailSafeClient) (ps taken : Nat) (clients_ : List ClientProtocol) (deferred : List Nat) :
    FailSafeClient :=
  { t with
    clients_ := clients_
    deferred := deferred
    sent := t.sent ++ [(ps, (t.structs ps).client_data.markSet.readable)]
    structs := Function.update t.structs ps ⟨(t.structs ps).start_time_, (t.structs ps).retries_left_ - 1,
      (t.structs ps).client_data.markSet.pop taken⟩ }

/-- In an attempt the struct goes from the client to a `ClientProtocol`. -/
theorem Inv.step_send {i : Nat}
    (h : (t.push [.scan ps caller i min]).Inv) (taken : Nat) (clients_ : List ClientProtocol) (deferred : List Nat)
    (hopen : (t.push [.scan ps caller i min]).Opened) (frames : List Frame)
    (hexec : t.exec config answer (.scan ps caller i min) =
      some ((t.attempted ps taken clients_ deferred).push frames))
    (hcount : ∀ q, (frames.flatMap Frame.kept).count q = caller.kept.count q ∧
      (frames.flatMap Frame.lent).count q + (clients_.flatMap ClientProtocol.held).count q + deferred.count q =
        (t.clients_.flatMap ClientProtocol.held).count q + t.deferred.count q + [ps].count q)
    (hdead : ∀ client ∈ clients_, client.alive = false → client.held = []) (hframes : ∀ f ∈ frames, f.Rests)
    (hqueues : (frames.map Frame.queues).sum = caller.queues) : GoesOn config answer t (.scan ps caller i min) := by
  obtain ⟨s', hs'⟩ : ∃ s', s' = (t.attempted ps taken clients_ deferred).push frames := ⟨_, rfl⟩
  have hcount' : ∀ q, s'.kept.count q + [ps].count q = (t.push [.scan ps caller i min]).kept.count q ∧
      s'.lent.count q = (t.push [.scan ps caller i min]).lent.count q + [ps].count q := by
    intro q
    have hq := hcount q
    rw [hs']
    simp only [kept, lent, push, attempted, Frame.kept, Frame.lent, flatMap_append, flatMap_cons,
      flatMap_nil, count_append, append_nil, nil_append, count_cons, count_nil] at hq ⊢
    omega
  obtain ⟨hretries, -⟩ : (t.push [.scan ps caller i min]).Legal _ := hopen.top _ rfl
  have hkept : ps ∈ (t.push [.scan ps caller i min]).kept := by simp [kept, push, Frame.kept]
  have hplaces : ∀ q, s'.places q = (t.push [.scan ps caller i min]).places q := by
    intro q
    have hq := hcount' q
    have : s'.completed = (t.push [.scan ps caller i min]).completed := by rw [hs']; rfl
    simp only [places, this]
    omega
  have hps : ps < t.added := h.placed.lt_added (by
    have := count_pos_iff.2 hkept
    simp only [places]
    omega)
  have hclient : (t.structs ps).client_data = t.data ps := h.placed.kept_data ps hkept
  refine ⟨_, hexec.trans (congrArg some hs'.symm), ⟨?_, .inl ?_⟩, ?_⟩
  · refine @Placed.change _ _ h.placed ps _ (by rw [hs']; rfl) (by rw [hs']; rfl) (by rw [hs']; rfl) (.inr ⟨hps, ?_⟩)
      (fun q => ⟨fun hq => ?_, hplaces q⟩) (fun hmem => ?_)
      fun _ => ⟨taken, congrArg (fun data => (MarkedQueue.markSet data).pop taken) hclient⟩
    · rw [hs']
      show t.sent ++ [_] = t.sent ++ [(ps, (t.data ps).readable)]
      rw [hclient, MarkedQueue.markSet_readable]
    · have hq' := hcount' q
      rw [count_singleton, beq_false_of_ne (Ne.symm hq)] at hq'
      simp only [Bool.false_eq_true, if_false] at hq'
      omega
    · -- The struct is no longer with the client itself.
      have hpos := count_pos_iff.2 hmem
      have hle := h.placed.le_one ps
      have hq' := hcount' ps
      rw [count_singleton_self] at hq'
      simp only [places] at hle
      omega
  · rw [hs']
    exact hopen.next rfl rfl rfl hdead (.inl hframes)
  · rw [hs']
    refine rank_lt_of_retries ?_ (retries_lt rfl hps rfl hretries rfl)
    simp only [queues, push, attempted, map_append, sum_append, map_cons, map_nil, sum_cons,
      sum_nil, hqueues, Frame.queues, Nat.add_zero]

theorem sendRequest_goesOn {i min_id min_load : Nat} (h : (t.push [.scan ps caller i (some (min_id, min_load))]).Inv)
    (hopen : (t.push [.scan ps caller i (some (min_id, min_load))]).Opened) (hend : t.clients_[i]? = none) :
    GoesOn config answer t (.scan ps caller i (some (min_id, min_load))) := by
  have hderef : t.deref ps = some (t.structs ps) := h.placed.deref (.inl (by simp [kept, push, Frame.kept]))
  obtain ⟨-, hmin⟩ : (t.push [.scan ps caller i (some (min_id, min_load))]).Legal _ := hopen.top _ rfl
  obtain ⟨client, hclient⟩ : ∃ client, t.clients_[min_id]? = some client :=
    ⟨_, List.getElem?_eq_getElem (hmin _ rfl)⟩
  have hdead : ∀ client ∈ t.clients_, client.alive = false → client.held = [] := hopen.dead
  by_cases halive : client.alive = true
  · cases hanswer : answer.sending with
    | hold =>
      refine h.step_send answer.taken (t.clients_.set min_id { client with held := client.held ++ [ps] }) t.deferred hopen
        [.result true caller]
        (by simp [exec, hend, sendRequest, hderef, hclient, halive, hanswer, attempted, setStruct, setClient])
        (fun q => ?_) (dead_set hdead min_id ?_) (by simp [Rests]) rfl
      · have := count_set hclient { client with held := client.held ++ [ps] } q
        simp [Frame.kept, Frame.lent] at this ⊢
        omega
      · intro hfalse
        rw [halive] at hfalse
        cases hfalse
    | full =>
      refine h.step_send 0 t.clients_ (t.deferred ++ [ps]) hopen [.result true caller]
        (by simp [exec, hend, sendRequest, hderef, hclient, halive, hanswer, attempted, setStruct])
        (fun q => ?_) hdead (by simp [Rests]) rfl
      simp [Frame.kept, Frame.lent]
      omega
    | lose =>
      refine h.step_send answer.taken (t.clients_.set min_id ⟨false, []⟩) t.deferred hopen
        (callbacks (client.held ++ [ps]) answer.errors ++ [.result true caller])
        (by simp [exec, hend, sendRequest, hderef, hclient, halive, hanswer, attempted, setStruct, setClient])
        (fun q => ?_) (dead_set hdead min_id fun _ => rfl) ?_ ?_
      · have := count_set hclient ⟨false, []⟩ q
        simp [Frame.kept, Frame.lent] at this ⊢
        omega
      · intro f hf
        rcases mem_append.1 hf with hf | hf
        · obtain ⟨q, -, rfl⟩ := mem_callbacks _ _ hf
          trivial
        · obtain rfl := mem_singleton.1 hf
          trivial
      · simp [Frame.queues]
  · refine h.step_send 0 t.clients_ t.deferred hopen [.completionCallback ps .connectionClosed, .result true caller]
      (by simp [exec, hend, sendRequest, hderef, hclient, halive, attempted, setStruct])
      (fun q => ?_) hdead (by simp [Rests]) ?_
    · simp [Frame.kept, Frame.lent]
      omega
    · simp [Frame.queues]

theorem scan_goesOn {i : Nat}
    (h : (t.push [.scan ps caller i min]).Inv) (hopen : (t.push [.scan ps caller i min]).Opened) :
    GoesOn config answer t (.scan ps caller i min) := by
  obtain ⟨hretries, hmin⟩ : (t.push [.scan ps caller i min]).Legal _ := hopen.top _ rfl
  cases hclient : t.clients_[i]? with
  | some client =>
    have hi : i < t.clients_.length := (List.getElem?_eq_some_iff.1 hclient).1
    by_cases halive : client.alive = true
    · refine h.step_only hopen
        [.scan ps caller (i + 1) (if min.all (fun m => client.held.length < m.2) then some (i, client.held.length)
          else min)]
        (by simp [exec, hclient, halive]) ⟨rfl, rfl⟩ (.inr ⟨_, rfl, hretries, ?_⟩) (.inr ⟨rfl, ?_⟩)
      · intro m hm
        split_ifs at hm with hall
        · cases hm
          exact hi
        · exact hmin m hm
      · simp [Frame.steps]
        omega
    · by_cases htime : config.reopen_connection_interval_ms_ < t.now - t.death_time_.getD i 0
      · -- The client that is replaced is dead, so that no callback is run.
        obtain rfl : client = ⟨false, []⟩ := by
          have hfalse := Bool.eq_false_iff.2 halive
          have hheld := hopen.dead client (mem_of_getElem? hclient) hfalse
          cases client
          subst hheld hfalse
          rfl
        have hset : t.setClient i ⟨false, []⟩ = t := by
          obtain ⟨_, hsame⟩ := List.getElem?_eq_some_iff.1 hclient
          rw [← hsame, setClient, List.set_getElem_self hi]
        refine h.step_only hopen [.reopen ps caller i min] ?_ ⟨rfl, rfl⟩
          (.inr ⟨_, rfl, ⟨hretries, hmin⟩, _, hclient, rfl⟩) (.inr ⟨rfl, ?_⟩)
        · simp only [exec, hclient, htime, if_true, Bool.false_eq_true, if_false, hset]
          rfl
        · simp [Frame.steps]
          omega
      · refine h.step_only hopen [.scan ps caller (i + 1) min]
          (by simp only [exec, hclient, halive, htime, Bool.false_eq_true, if_false]) ⟨rfl, rfl⟩
          (.inr ⟨_, rfl, hretries, hmin⟩) (.inr ⟨rfl, ?_⟩)
        simp [Frame.steps]
        omega
  | none =>
    cases min with
    | some m => exact sendRequest_goesOn h hopen hclient
    | none =>
      refine h.step_move (u := { t with pending_requests_ := t.pending_requests_ ++ [ps] }) hopen
        [.result false caller] (by simp only [exec, hclient]) ⟨rfl, rfl, rfl, rfl, rfl, rfl, rfl, rfl⟩
        (fun q => ?_) (.inl (by simp [Rests])) (.inr ⟨rfl, ?_⟩)
      · simp [places, kept, lent, push, Frame.kept, Frame.lent, count_cons]
        omega
      · simp [Frame.steps]

theorem completionCallback_goesOn {error : ClientError} (h : (t.push [.completionCallback ps error]).Inv)
    (hopen : (t.push [.completionCallback ps error]).Opened) :
    GoesOn config answer t (.completionCallback ps error) := by
  have hlent : ps ∈ (t.push [.completionCallback ps error]).lent := by simp [lent, push, Frame.lent]
  have hderef : t.deref ps = some (t.structs ps) := h.placed.deref (.inr hlent)
  have hclosing : t.closing_ = false := hopen.closing
  by_cases herror : error = .ok
  · refine h.step_move (u := t.complete ps error) hopen [] (by simp [exec, hderef, herror]; rfl)
      ⟨rfl, rfl, rfl, rfl, rfl, rfl, rfl, rfl⟩ (fun q => ?_) (.inl (forall_mem_nil _)) (.inr ⟨rfl, by simp [Frame.steps]⟩)
    simp [places, kept, lent, push, complete, Frame.kept, Frame.lent, count_cons]
    omega
  · obtain ⟨n, hn⟩ := h.placed.lent_data ps hlent
    have hrestore : (t.structs ps).client_data.markRestore = t.data ps := by
      rw [show (t.structs ps).client_data = _ from hn]
      exact MarkedQueue.markRestore_eq rfl rfl
    refine ⟨(t.setStruct ps { t.structs ps with client_data := (t.structs ps).client_data.markRestore }).push
      [.internalStartRequest ps .completionCallback], by simp [exec, hderef, herror, hclosing],
      ⟨h.placed.change rfl rfl rfl (.inl rfl) (fun q => ⟨fun hq => ?_, ?_⟩) (fun _ => hrestore) fun hmem => ?_,
        .inl (hopen.next rfl rfl rfl hopen.dead (.inl (by simp [Rests])))⟩, ?_⟩
    · simp [kept, lent, push, setStruct, Frame.kept, Frame.lent, Caller.kept, Ne.symm hq]
    · simp [places, kept, lent, push, setStruct, Frame.kept, Frame.lent, Caller.kept, count_cons]
      omega
    · -- The struct is no longer with a `ClientProtocol`.
      have hle := h.placed.le_one ps
      have hpos : 0 < t.lent.count ps := count_pos_iff.2 hmem
      have hcount : (t.push [.completionCallback ps error]).lent.count ps = t.lent.count ps + 1 := by
        simp [lent, push, Frame.lent]
      simp only [places] at hle
      omega
    · refine rank_lt_of_steps rfl (retries_update rfl rfl rfl) ?_
      simp [steps, push, setStruct, Frame.steps, Caller.steps]

end Open

/-! ## The destructor -/

section Destructor

variable {config : FailSafeConfig} {answer : Answer} {t : FailSafeClient} {frame : Frame}

/-- A client that is emptied empties no other one. -/
theorem held_set {i j : Nat} {client client' : ClientProtocol} (hheld : client'.held = [])
    (h : (t.clients_.set i client')[j]? = some client) :
    client.held = [] ∨ j ≠ i ∧ t.clients_[j]? = some client := by
  by_cases hj : i = j
  · subst hj
    rw [getElem?_set_self'] at h
    cases hi : t.clients_[i]? with
    | none =>
      rw [hi] at h
      cases h
    | some old =>
      rw [hi] at h
      cases h
      exact .inl hheld
  · rw [getElem?_set_ne hj] at h
    exact .inr ⟨Ne.symm hj, h⟩

/-- A step of the destructor. -/
theorem Inv.step_close {u : FailSafeClient} (h : (t.push [frame]).Inv) (hclosed : (t.push [frame]).Closed)
    (frames : List Frame) (hexec : t.exec config answer frame = some (u.push frames))
    (hsame : u.stack = t.stack ∧ u.structs = t.structs ∧ u.data = t.data ∧ u.sent = t.sent ∧ u.added = t.added ∧
      u.closing_ = t.closing_ ∧ u.deferred = t.deferred ∧ u.clients_.length = t.clients_.length)
    (hcount : (t.push [frame]).Moves (u.push frames))
    (hclients : ∀ (i : Nat) (client : ClientProtocol), u.clients_[i]? = some client →
      client.held = [] ∨ t.clients_[i]? = some client)
    (hframes : ∀ f ∈ frames, u.Ends f)
    (hdestroyed : u.destroyed = true → u.pending_requests_ = [] ∧ ∀ client ∈ u.clients_, client.held = [])
    (hqueues : (frames.map Frame.queues).sum = frame.queues)
    (hsteps : (frames.map (Frame.steps t.clients_.length)).sum +
      (u.clients_.flatMap ClientProtocol.held).length * (2 * t.clients_.length + 6) <
        frame.steps t.clients_.length +
          (t.clients_.flatMap ClientProtocol.held).length * (2 * t.clients_.length + 6)) :
    GoesOn config answer t frame := by
  obtain ⟨hstack, hstructs, hdata, hsent, hadded, hclosing, hdeferred, hlength⟩ := hsame
  refine h.goesOn_of frames hexec ⟨hstack, hstructs, hdata, hsent, hadded, hlength⟩ hcount
    (.inr ⟨hclosing.trans hclosed.closing, hdeferred.trans hclosed.deferred, fun f hf => ?_, hdestroyed⟩)
    (.inr ⟨hqueues, hsteps⟩)
  have hemptied : ∀ n, (t.push [frame]).Emptied n → u.Emptied n := by
    intro n hn i client hi hclient
    rcases hclients i client hclient with hheld | hold
    · exact hheld
    · exact hn i client hi hold
  rcases mem_append.1 hf with hf | hf
  · exact hframes f hf
  · have hend := hclosed.ends f (mem_cons_of_mem _ (hstack ▸ hf))
    cases f with
    | completionCallback => trivial
    | destroy i => exact hemptied i hend
    | deleteClient i => exact hemptied (i + 1) hend
    | _ => exact hend

theorem completionCallback_ends {ps : Nat} {error : ClientError} (h : (t.push [.completionCallback ps error]).Inv)
    (hclosed : (t.push [.completionCallback ps error]).Closed) :
    GoesOn config answer t (.completionCallback ps error) := by
  have hderef : t.deref ps = some (t.structs ps) := h.placed.deref (.inr (by simp [lent, push, Frame.lent]))
  have hclosing : t.closing_ = true := hclosed.closing
  refine h.step_close (u := t.complete ps error) hclosed [] (by simp [exec, hderef, hclosing]; rfl)
    ⟨rfl, rfl, rfl, rfl, rfl, rfl, rfl, rfl⟩ (fun q => ?_) (fun i client hclient => .inr hclient) (forall_mem_nil _)
    hclosed.destroyed rfl ?_
  · simp [places, kept, lent, push, complete, Frame.kept, Frame.lent, count_cons]
    omega
  · simp [Frame.steps, complete]

theorem destroy_ends {i : Nat} (h : (t.push [.destroy i]).Inv) (hclosed : (t.push [.destroy i]).Closed) :
    GoesOn config answer t (.destroy i) := by
  have hemptied : t.Emptied i := hclosed.ends _ mem_cons_self
  cases hclient : t.clients_[i]? with
  | some client =>
    have hi : i < t.clients_.length := (List.getElem?_eq_some_iff.1 hclient).1
    have hset : ∀ (j : Nat) (client' : ClientProtocol),
        (t.clients_.set i { client with held := [] })[j]? = some client' →
        client'.held = [] ∨ j ≠ i ∧ t.clients_[j]? = some client' := fun j client' hj => held_set rfl hj
    obtain ⟨_, _, hheld, hheld'⟩ := held_split hclient
    have hcount := count_set hclient { client with held := [] }
    refine h.step_close (u := t.setClient i { client with held := [] }) hclosed
      (callbacks client.held answer.errors ++ [.deleteClient i]) (by simp only [exec, hclient])
      ⟨rfl, rfl, rfl, rfl, rfl, rfl, rfl, List.length_set⟩ (fun q => ?_)
      (fun j client' hj => (hset j client' hj).imp_right And.right) (fun f hf => ?_) (fun hd => ?_)
      (by simp [Frame.queues]) ?_
    · have := hcount q
      simp [places, kept, lent, push, setClient, Frame.kept, Frame.lent] at this ⊢
      omega
    · rcases mem_append.1 hf with hf | hf
      · obtain ⟨q, _, rfl⟩ := mem_callbacks _ _ hf
        trivial
      · obtain rfl := mem_singleton.1 hf
        intro j client' hj hclient'
        rcases hset j client' hclient' with hheld | ⟨_, hold⟩
        · exact hheld
        · exact hemptied j client' (by omega) hold
    · obtain ⟨hpending, hheld⟩ := hclosed.destroyed hd
      refine ⟨hpending, fun client' hmem => ?_⟩
      rcases mem_or_eq_of_mem_set hmem with hmem | rfl
      · exact hheld client' hmem
      · rfl
    · simp only [setClient, hheld, hheld', List.length_append, map_append, sum_append, callbacks_steps,
        map_cons, map_nil, sum_cons, sum_nil, Frame.steps, Nat.add_mul]
      simp only [List.length_nil, Nat.zero_mul]
      omega
  | none =>
    have hnone : ∀ client ∈ t.clients_, client.held = [] := by
      intro client hmem
      obtain ⟨j, hj, rfl⟩ := List.mem_iff_getElem.1 hmem
      have := getElem?_eq_none_iff.1 hclient
      exact hemptied j _ (by omega) (List.getElem?_eq_getElem hj)
    refine h.step_close (u := { t with
        completed := t.completed ++ t.pending_requests_.map fun ps => (ps, .clientClose)
        pending_requests_ := []
        destroyed := true }) hclosed [] (by simp only [exec, hclient]; rfl)
      ⟨rfl, rfl, rfl, rfl, rfl, rfl, rfl, rfl⟩ (fun q => ?_) (fun j client hj => .inr hj) (forall_mem_nil _)
      (fun _ => ⟨rfl, hnone⟩) rfl (by simp [Frame.steps])
    simp [places, kept, lent, push, Frame.kept, Frame.lent, Function.comp_def]
    omega

theorem deleteClient_ends {i : Nat} (h : (t.push [.deleteClient i]).Inv) (hclosed : (t.push [.deleteClient i]).Closed) :
    GoesOn config answer t (.deleteClient i) := by
  have hemptied : t.Emptied (i + 1) := hclosed.ends _ mem_cons_self
  -- The client that is deleted holds nothing.
  have hflat := flatMap_held_set (fun client hclient => hemptied i client (Nat.lt_succ_self i) hclient)
    (show (⟨false, []⟩ : ClientProtocol).held = [] from rfl)
  refine h.step_close (u := t.setClient i ⟨false, []⟩) hclosed [.destroy (i + 1)] rfl
    ⟨rfl, rfl, rfl, rfl, rfl, rfl, rfl, List.length_set⟩ (fun q => ?_)
    (fun j client' hj => (held_set rfl hj).imp_right And.right) (fun f hf => ?_) (fun hd => ?_) rfl ?_
  · simp [places, kept, lent, push, setClient, Frame.kept, Frame.lent, hflat]
  · obtain rfl := mem_singleton.1 hf
    intro j client' hj hclient'
    rcases held_set rfl hclient' with hheld | ⟨-, hold⟩
    · exact hheld
    · exact hemptied j client' hj hold
  · obtain ⟨hpending, hheld⟩ := hclosed.destroyed hd
    refine ⟨hpending, fun client' hmem => ?_⟩
    rcases mem_or_eq_of_mem_set hmem with hmem | rfl
    · exact hheld client' hmem
    · rfl
  · simp [setClient, hflat, Frame.steps]

end Destructor

/-! ## Every step -/

section Steps

variable {config : FailSafeConfig} {answer : Answer} {s s' t : FailSafeClient} {frame : Frame}

/-- Whatever is to be done next, the client goes on. -/
theorem Inv.goesOn (h : (t.push [frame]).Inv) (hspared : (t.push [frame]).Spared (.go answer)) :
    GoesOn config answer t frame := by
  rcases h.control with hopen | hclosed
  · cases frame with
    | internalStartRequest ps caller => exact internalStartRequest_goesOn h hopen
    | scan ps caller i min => exact scan_goesOn h hopen
    | reopen ps caller i min => exact reopen_goesOn h hopen
    | result sent caller => exact result_goesOn h hopen hspared
    | completionCallback ps error => exact completionCallback_goesOn h hopen
    | requeuePending => exact requeuePending_goesOn h hopen
    | requeueLoop old_queue => exact requeueLoop_goesOn h hopen
    | moveLoop old_queue => exact moveLoop_goesOn h hopen
    | destroy i => exact (hopen.top _ rfl : False).elim
    | deleteClient i => exact (hopen.top _ rfl : False).elim
  · cases frame with
    | completionCallback ps error => exact completionCallback_ends h hclosed
    | destroy i => exact destroy_ends h hclosed
    | deleteClient i => exact deleteClient_ends h hclosed
    | _ => exact (hclosed.ends _ mem_cons_self : False).elim

/-- A step of what is to be done is possible, keeps the invariant, and lowers the rank. -/
theorem Inv.go (h : s.Inv) (hstack : s.stack ≠ []) (hspared : s.Spared (.go answer)) :
    ∃ s', s.step config (.go answer) = some s' ∧ s'.Inv ∧ s'.rank < s.rank := by
  obtain ⟨frame, rest, hrest⟩ := exists_cons_of_ne_nil hstack
  obtain ⟨t, rfl⟩ : ∃ t : FailSafeClient, s = t.push [frame] := by
    refine ⟨{ s with stack := rest }, ?_⟩
    rw [push, cons_append, nil_append, ← hrest]
  obtain rfl : t.stack = rest := (cons.inj hrest).2
  exact h.goesOn hspared

/-- A call, or a callback from outside. -/
theorem Inv.callNext {u : FailSafeClient} (h : s.Inv) (hopen : s.Opened) (frames : List Frame)
    (hsame : u.stack = [] ∧ u.structs = s.structs ∧ u.data = s.data ∧ u.sent = s.sent ∧ u.added = s.added ∧
      u.closing_ = s.closing_ ∧ u.destroyed = s.destroyed)
    (hcount : ∀ q, (u.push frames).kept.count q = s.kept.count q ∧ (u.push frames).lent.count q = s.lent.count q ∧
      u.completed = s.completed)
    (hdead : ∀ client ∈ u.clients_, client.alive = false → client.held = []) (hframes : ∀ f ∈ frames, f.Rests) :
    (u.push frames).Inv := by
  obtain ⟨hstack', hstructs, hdata, hsent, hadded, hclosing, hdestroyed⟩ := hsame
  refine ⟨h.placed.move hstructs hdata hsent hadded fun q => ?_, .inl ?_⟩
  · obtain ⟨hkept, hlent, hcompleted⟩ := hcount q
    refine ⟨hkept.le, hlent.le, ?_⟩
    have : (u.push frames).completed = s.completed := hcompleted
    rw [places, places, hkept, hlent, this]
  · have hframes' : ∀ f ∈ (u.push frames).stack, f.Rests := by
      rw [push, hstack', append_nil]
      exact hframes
    exact ⟨hclosing.trans hopen.closing, hdestroyed.trans hopen.destroyed, hdead,
      fun f hf => legal_of_rests (hframes' f (mem_of_head? hf)) _,
      fun f hf => hframes' f (mem_of_mem_tail hf)⟩

theorem Inv.startRequest (h : s.Inv) (hopen : s.Opened) (hstack : s.stack = []) {data : MarkedQueue UInt8}
    (hstep : s.call config (.startRequest data) = some s') : s'.Inv := by
  cases hstep
  have hnew : s.places s.added = 0 := (h.placed.once s.added).trans (if_neg (lt_irrefl _))
  have hne : ∀ q, 0 < s.places q → q ≠ s.added := by
    rintro q hq rfl
    omega
  refine ⟨⟨fun q => ?_, fun q hq => ?_, fun q hq => ?_, fun e he => ?_⟩, .inl ?_⟩
  · have hq := h.placed.once q
    simp only [places, kept, lent, push, hstack, Frame.kept, Frame.lent, Caller.kept, flatMap_cons,
      flatMap_nil, append_nil, nil_append, count_append, count_singleton, beq_iff_eq] at hq ⊢
    split_ifs at hq ⊢ <;> omega
  · by_cases hqs : q = s.added
    · subst hqs
      simp [push]
    · have hmem : q ∈ s.kept := by
        simpa [kept, push, hstack, Frame.kept, Caller.kept, hqs] using hq
      simpa [push, update_of_ne hqs] using h.placed.kept_data q hmem
  · have hmem : q ∈ s.lent := by
      simpa [lent, push, hstack, Frame.lent] using hq
    have hqs : q ≠ s.added := hne q (by
      have := count_pos_iff.2 hmem
      simp only [places]
      omega)
    simpa [push, update_of_ne hqs] using h.placed.lent_data q hmem
  · obtain ⟨hlt, heq⟩ := h.placed.same_data e he
    refine ⟨hlt.trans (Nat.lt_succ_self _), ?_⟩
    simpa [push, update_of_ne hlt.ne] using heq
  · refine ⟨hopen.closing, hopen.destroyed, hopen.dead, fun f hf => ?_, fun f hf => ?_⟩
    · cases hf
      trivial
    · simp [push, hstack] at hf

/-- What comes from outside keeps the invariant. -/
theorem Inv.call (h : s.Inv) (hstack : s.stack = []) (hclosing : s.closing_ = false) {event : Event}
    (hspared : s.Spared event) (hstep : s.call config event = some s') : s'.Inv := by
  have hopen : s.Opened := by
    rcases h.control with hopen | hclosed
    · exact hopen
    · rw [hclosed.closing] at hclosing
      cases hclosing
  cases event with
  | startRequest data => exact h.startRequest hopen hstack hstep
  | requeuePendingAlarm =>
    cases hstep
    refine h.callNext hopen [.requeuePending] ⟨hstack, rfl, rfl, rfl, rfl, rfl, rfl⟩ (fun q => ?_) hopen.dead
      (by simp [Rests])
    exact ⟨rfl, rfl, rfl⟩
  | completed i ps error =>
    obtain ⟨client, hclient, hstep⟩ := Option.bind_eq_some_iff.1 hstep
    obtain ⟨_, hguard, hstep⟩ := Option.bind_eq_some_iff.1 hstep
    have hmem : ps ∈ client.held := by
      by_contra hmem
      rw [guard_of_not hmem] at hguard
      cases hguard
    cases hstep
    refine h.callNext hopen [.completionCallback ps error] ⟨hstack, rfl, rfl, rfl, rfl, rfl, rfl⟩
      (fun q => ⟨rfl, ?_, rfl⟩) (dead_set hopen.dead i fun halive => ?_) (by simp [Rests])
    · have hset := count_set hclient { client with held := client.held.erase ps } q
      have hperm := (perm_cons_erase hmem).count_eq q
      simp [lent, push, setClient, hstack, Frame.lent, count_cons] at hset hperm ⊢
      omega
    · rw [hopen.dead client (mem_of_getElem? hclient) halive] at hmem
      cases hmem
  | died i errors =>
    obtain ⟨client, hclient, hstep⟩ := Option.bind_eq_some_iff.1 hstep
    cases hstep
    refine h.callNext hopen (callbacks client.held errors) ⟨hstack, rfl, rfl, rfl, rfl, rfl, rfl⟩
      (fun q => ⟨?_, ?_, rfl⟩) (dead_set hopen.dead i fun _ => rfl) fun f hf => ?_
    · simp [kept, push, setClient]
    · have hset := count_set hclient ⟨false, []⟩ q
      simp [lent, push, setClient] at hset ⊢
      omega
    · obtain ⟨q, error, rfl⟩ := mem_callbacks _ _ hf
      trivial
  | selectLoop ps =>
    obtain ⟨_, hguard, hstep⟩ := Option.bind_eq_some_iff.1 hstep
    have hmem : ps ∈ s.deferred := by
      by_contra hmem
      rw [guard_of_not hmem] at hguard
      cases hguard
    cases hstep
    refine h.callNext hopen [.completionCallback ps .tooManyRequests]
      ⟨hstack, rfl, rfl, rfl, rfl, rfl, rfl⟩ (fun q => ⟨rfl, ?_, rfl⟩) hopen.dead (by simp [Rests])
    have hperm := (perm_cons_erase hmem).count_eq q
    simp [lent, push, Frame.lent, count_cons] at hperm ⊢
    omega
  | tick now =>
    cases hstep
    exact h.callNext (u := { s with now := now }) hopen [] ⟨hstack, rfl, rfl, rfl, rfl, rfl, rfl⟩
      (fun q => ⟨rfl, rfl, rfl⟩) hopen.dead (forall_mem_nil _)
  | destructor =>
    cases hstep
    refine ⟨h.placed.move rfl rfl rfl rfl fun q => ⟨le_rfl, le_rfl, rfl⟩,
      .inr ⟨rfl, hspared, fun f hf => ?_, fun hd => ?_⟩⟩
    · rw [push, hstack] at hf
      obtain rfl := mem_singleton.1 hf
      exact fun i client hi => absurd hi (Nat.not_lt_zero i)
    · have : s.destroyed = true := hd
      rw [hopen.destroyed] at this
      cases this
  | go answer => cases hstep

theorem Inv.step (h : s.Inv) {event : Event} (hspared : s.Spared event) (hstep : s.step config event = some s') :
    s'.Inv := by
  cases hstack : s.stack with
  | nil =>
    cases hclosing : s.closing_ with
    | false =>
      have hcall : s.call config event = some s' := by
        simpa [FailSafeClient.step, hstack, hclosing] using hstep
      exact h.call hstack hclosing hspared hcall
    | true => simp [FailSafeClient.step, hstack, hclosing] at hstep
  | cons frame rest =>
    cases event with
    | go answer =>
      obtain ⟨s'', hs'', hinv, -⟩ : ∃ s'', s.step config (.go answer) = some s'' ∧ s''.Inv ∧ s''.rank < s.rank :=
        h.go (by simp [hstack]) hspared
      cases hstep.symm.trans hs''
      exact hinv
    | _ => simp [FailSafeClient.step, hstack] at hstep

theorem inv_new (servers : Nat) : (new servers).Inv where
  placed := by
    have hflat : (replicate servers ({} : ClientProtocol)).flatMap held = [] :=
      flatMap_eq_nil_iff.2 fun client hclient => by rw [eq_of_mem_replicate hclient]
    refine ⟨fun ps => ?_, nofun, fun ps hps => ?_, nofun⟩
    · simp [places, kept, lent, new, hflat]
    · simp [lent, new, hflat] at hps
  control := .inl ⟨rfl, rfl, fun client hclient _ => by rw [eq_of_mem_replicate hclient], nofun, nofun⟩

theorem Inv.fine (h : s.Inv) : s.Fine config where
  once := by
    rw [nodup_iff_count_le_one]
    intro ps
    rw [count_append, count_append]
    exact h.placed.le_one ps
  finished hd hstack ps hps := by
    rcases h.control with hopen | hclosed
    · rw [hopen.destroyed] at hd
      cases hd
    · obtain ⟨hpending, hheld⟩ := hclosed.destroyed hd
      have honce := h.placed.once ps
      have hflat : s.clients_.flatMap held = [] := flatMap_eq_nil_iff.2 hheld
      rw [if_pos hps, places, kept, lent, hstack, hpending, hclosed.deferred, hflat] at honce
      refine count_pos_iff.1 ?_
      simp at honce
      omega
  same_data e he := (h.placed.same_data e he).2
  goes_on hstack answer hspared := by
    obtain ⟨s', hs', -⟩ := h.go hstack hspared
    exact ⟨s', hs'⟩
  ends states answers hstart hsteps := by
    have hinv : ∀ n, (states n).Inv := by
      intro n
      induction n with
      | zero => exact hstart ▸ h
      | succ n ih => exact ih.step (hsteps n).1 (hsteps n).2
    obtain ⟨n, hn⟩ : ∃ n, ¬ (states (n + 1)).rank < (states n).rank :=
      WellFounded.not_rel_apply_succ fun n => (states n).rank
    obtain ⟨hspared, hstep⟩ := hsteps n
    have hstack : (states n).stack ≠ [] := by
      intro hstack
      simp [FailSafeClient.step, hstack, FailSafeClient.call] at hstep
    obtain ⟨s', hs', -, hlt⟩ : ∃ s', (states n).step config (.go (answers n)) = some s' ∧ s'.Inv ∧
      s'.rank < (states n).rank := (hinv n).go hstack hspared
    cases hstep.symm.trans hs'
    exact hn hlt

end Steps

/-- In every run that is spared the loop which does not end, and a destructor with callbacks in the selector's loop,
every state is a fine one. -/
theorem run_fine (config : FailSafeConfig) (servers : Nat) {events : List Event} {s : FailSafeClient}
    (hspared : Along (step config) Spared (new servers) events)
    (hrun : run (step config) (new servers) events = some s) : s.Fine config :=
  (run_invariant_along (I := Inv) (fun _ _ _ h hs hstep => h.step hs hstep) (inv_new servers) hspared hrun).fine

/-- What an idle environment answers: a request is held. -/
def idle : Answer := ⟨.hold, 0, fun _ => .connectionClosed⟩

/-- A request whose server dies is pending until another one is sent; both are there when the client is destroyed. -/
theorem run_fine_died : ∃ s, run (step ⟨3, 100, 10⟩) (new 1)
    ([.startRequest MarkedQueue.empty] ++ List.replicate 5 (.go idle) ++ [.tick 20, .died 0 fun _ => .readTimeout] ++
      List.replicate 6 (.go idle) ++ [.startRequest MarkedQueue.empty] ++ List.replicate 11 (.go idle) ++ [.destructor] ++
      List.replicate 5 (.go idle)) = some s ∧ s.Fine ⟨3, 100, 10⟩ :=
  (Option.isSome_iff_exists.1 (by decide +kernel)).imp fun _ hs => ⟨hs, run_fine ⟨3, 100, 10⟩ 1 (by decide +kernel) hs⟩

/-- Every server is dead and two requests are pending: the second one is put into the queue again and again. -/
theorem requeuePending_runs_on : ∃ s, run (step ⟨3, 100, 10⟩) (new 1)
    ([.died 0 fun _ => .readTimeout, .startRequest MarkedQueue.empty] ++ List.replicate 4 (.go idle) ++
      [.startRequest MarkedQueue.empty] ++ List.replicate 4 (.go idle) ++ [.requeuePendingAlarm] ++
      List.replicate 8 (.go idle)) = some s ∧ ¬ s.Fine ⟨3, 100, 10⟩ := by
  refine ⟨_, rfl, fun h => absurd h.once ?_⟩
  decide +kernel

end FailSafeClient

end Whispercast.Http
