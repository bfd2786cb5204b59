import Whispercast.Io.BufferPlaces
import Whispercast.Io.BufferUsers

/-!
# Runs of shared buffers

The invariant has the maps (`Placed`), the buffers with their users (`Served`), and the callbacks that were called
(`Called`). It survives two steps only under a condition: a buffer that is re-designated keeps the callbacks that it has,
so there must be none, and a user that leaves must not be among those that `MarkValidData` has copied already.
-/

namespace Whispercast.Io

open Library BufferManager List AssocList

/-- Whether a user has got the data, or left. -/
def UsagePhase.past : UsagePhase → Bool
  | useData _ => true
  | ending => true
  | _ => false

namespace BufferManager

variable {K : Type}

/-- What should hold of the callbacks and of the maps.

* Every callback that was called is that of a user that waited for the data, and none is called twice.
* The users that wait for a buffer are those in its `done_callbacks_` while the data are looked up, and those that
  `MarkValidData` has still to call behind it.
* A buffer is in one of `active_buffers_` and `free_buffers_`, under its key.
* `usage_set_` has the buffers of `free_buffers_`.
* A buffer of `free_buffers_` has valid data that were produced for the key. -/
structure Consistent (s : BufferManager K) : Prop where
  called : ∀ r ∈ s.runs, r.waiting = true
  once : (s.runs.map CallbackRun.callback).Nodup
  waiting : ∀ e ∈ s.buffers, e.2.state_ = .inLookup → e.2.done_callbacks_.Perm (waitingUsers (usersOn e.1 s.users))
  due : ∀ e ∈ s.buffers, e.2.state_ = .validData →
    (dueCallbacks (usersOn e.1 s.users)).Perm (waitingUsers (usersOn e.1 s.users))
  placed : ∀ e ∈ s.buffers, Xor ((e.2.data_key_, e.1) ∈ s.active_buffers_) ((e.2.data_key_, e.1) ∈ s.free_buffers_)
  allocated : ∀ entry, entry ∈ s.active_buffers_ ∨ entry ∈ s.free_buffers_ →
    ∃ buf, (entry.2, buf) ∈ s.buffers ∧ buf.data_key_ = entry.1
  keys : (AssocList.keys (s.active_buffers_ ++ s.free_buffers_)).Nodup
  usage : s.usage_set_.Perm (s.free_buffers_.filterMap fun entry =>
    (s.buffers.lookup entry.2).map fun buf => (buf.last_release_time_, entry.2))
  valid : ∀ entry ∈ s.free_buffers_, ∀ buf, (entry.2, buf) ∈ s.buffers →
    buf.state_ = .validData ∧ buf.producedFor = some entry.1

/-- The callbacks that were called: each once, for a user that waited, and that does not wait any more. -/
structure Called (runs : List CallbackRun) (users : List (Nat × Usage K)) (nextUser : Nat) : Prop where
  waiting : ∀ r ∈ runs, r.waiting = true
  nodup : (runs.map CallbackRun.callback).Nodup
  past : ∀ r ∈ runs, r.callback < nextUser ∧ ∀ usage, (r.callback, usage) ∈ users → usage.phase.past = true

/-- The invariant. -/
structure Inv (s : BufferManager K) : Prop where
  placed : Placed s.buffers s.active_buffers_ s.free_buffers_ s.usage_set_
  served : Served s.buffers s.users
  called : Called s.runs s.users s.nextUser
  freshBuffer : ∀ address ∈ AssocList.keys s.buffers, address < s.nextBuffer
  freshUser : ∀ user ∈ AssocList.keys s.users, user < s.nextUser

theorem init_inv : ({} : BufferManager K).Inv where
  placed := ⟨List.nodup_nil, List.nodup_nil, List.Perm.refl _, List.Perm.refl _, List.Perm.refl _⟩
  served := ⟨fun _ h => absurd h List.not_mem_nil, fun _ h => absurd h List.not_mem_nil, List.nodup_nil⟩
  called := ⟨fun _ h => absurd h List.not_mem_nil, List.nodup_nil, fun _ h => absurd h List.not_mem_nil⟩
  freshBuffer := fun _ h => absurd h List.not_mem_nil
  freshUser := fun _ h => absurd h List.not_mem_nil

variable {s : BufferManager K} {buffer user : Nat} {buf buf' : SharedBuffer K} {key : K} {phase phase' : UsagePhase}

/-- A buffer is used when it has users. -/
theorem Inv.used (h : s.Inv) (hmem : (buffer, buf) ∈ s.buffers) :
    0 < buf.use_count_ ↔ usersOn buffer s.users ≠ [] := by
  have hcount := (h.served.ok _ hmem).count
  dsimp only at hcount
  rw [hcount, ← length_pos_iff]
  omega

/-- A buffer that nobody uses has valid data for its key. -/
theorem Inv.unused (h : s.Inv) (hmem : (buffer, buf) ∈ s.buffers) (hunused : ¬ 0 < buf.use_count_) :
    usersOn buffer s.users = [] ∧ buf.state_ = .validData ∧ buf.producedFor = some buf.data_key_ := by
  have hnone : usersOn buffer s.users = [] := by
    by_contra hne
    exact hunused ((h.used hmem).2 hne)
  have hok := h.served.ok _ hmem
  have hvalid := (hok.free hnone).1
  exact ⟨hnone, hvalid, (hok.valid hvalid).2.2⟩

theorem Called.mono {runs : List CallbackRun} {users users' : List (Nat × Usage K)} {nextUser nextUser' : Nat}
    (h : Called runs users nextUser) (hnext : nextUser ≤ nextUser')
    (husers : ∀ u usage, (u, usage) ∈ users' → u < nextUser → usage.phase.past = false →
      ∃ usage', (u, usage') ∈ users ∧ usage'.phase.past = false) :
    Called runs users' nextUser' := by
  refine ⟨h.waiting, h.nodup, fun r hr => ⟨Nat.lt_of_lt_of_le (h.past r hr).1 hnext, fun usage hu => ?_⟩⟩
  cases hpast : usage.phase.past with
  | true => rfl
  | false =>
    obtain ⟨usage', hu', hpast'⟩ := husers _ _ hu (h.past r hr).1 hpast
    rw [(h.past r hr).2 usage' hu'] at hpast'
    exact hpast'.symm

/-- A callback more, of a user that waits and that does not wait behind it. -/
theorem Called.run {runs : List CallbackRun} {users users' : List (Nat × Usage K)} {nextUser callback : Nat}
    {usage : Usage K} (h : Called runs users nextUser) (hlt : callback < nextUser) (hmem : (callback, usage) ∈ users)
    (hwaits : usage.phase.past = false)
    (husers : ∀ u usage, (u, usage) ∈ users' → usage.phase.past = false → u ≠ callback ∧ (u, usage) ∈ users) :
    Called (runs ++ [⟨callback, true⟩]) users' nextUser := by
  have hnew : ∀ r ∈ runs, r.callback ≠ callback := by
    rintro r hr rfl
    exact absurd ((h.past r hr).2 usage hmem) (by rw [hwaits]; decide)
  refine ⟨?_, ?_, ?_⟩
  · intro r hr
    rcases mem_append.1 hr with hold | hlast
    · exact h.waiting r hold
    · rw [mem_singleton.1 hlast]
  · rw [map_append, nodup_append']
    refine ⟨h.nodup, nodup_singleton _, ?_⟩
    intro c hc hlast
    obtain ⟨r, hr, rfl⟩ := mem_map.1 hc
    exact hnew r hr (mem_singleton.1 hlast)
  · intro r hr
    have hlt' : r.callback < nextUser := by
      rcases mem_append.1 hr with hold | hlast
      · exact (h.past r hold).1
      · rw [mem_singleton.1 hlast]
        exact hlt
    refine ⟨hlt', fun usage' hu => ?_⟩
    cases hpast : usage'.phase.past with
    | true => rfl
    | false =>
      obtain ⟨hne, hu'⟩ := husers _ _ hu hpast
      rcases mem_append.1 hr with hold | hlast
      · rw [(h.past r hold).2 usage' hu'] at hpast
        exact hpast.symm
      · exact absurd (by rw [mem_singleton.1 hlast]) hne

section

variable (h : s.Inv)

include h

/-- The maps and the callbacks under the invariant. -/
theorem Inv.consistent : s.Consistent := by
  have hsame : ∀ {a b b'}, (a, b) ∈ s.buffers → (a, b') ∈ s.buffers → b = b' := by
    intro a b b' hb hb'
    have heq := (lookup_of_mem h.placed.addresses hb).symm.trans
      (lookup_of_mem h.placed.addresses hb')
    exact Option.some.inj heq
  refine ⟨h.called.waiting, h.called.nodup, ?_, ?_, ?_, ?_, ?_, ?_, ?_⟩
  · intro e he hstate
    exact ((h.served.ok e he).lookup hstate).2.2
  · intro e he hstate
    exact ((h.served.ok e he).valid hstate).2.1
  · intro e he
    by_cases hused : 0 < e.2.use_count_
    · refine Or.inl ⟨?_, ?_⟩
      · exact h.placed.active.symm.subset (mem_map_of_mem (List.mem_filter.2 ⟨he, by simpa using hused⟩))
      · intro hfree
        obtain ⟨b, hb, -, hunused⟩ := h.placed.of_free hfree
        rw [hsame hb he] at hunused
        exact hunused hused
    · refine Or.inr ⟨?_, ?_⟩
      · exact h.placed.free.symm.subset (mem_map_of_mem (List.mem_filter.2 ⟨he, by simpa using hused⟩))
      · intro hactive
        obtain ⟨b, hb, -, hused'⟩ := h.placed.of_active hactive
        rw [hsame hb he] at hused'
        exact hused hused'
  · rintro ⟨key, a⟩ (hactive | hfree)
    · obtain ⟨b, hb, hkey, -⟩ := h.placed.of_active hactive
      exact ⟨b, hb, hkey⟩
    · obtain ⟨b, hb, hkey, -⟩ := h.placed.of_free hfree
      exact ⟨b, hb, hkey⟩
  · rw [AssocList.keys_append, nodup_append']
    refine ⟨h.placed.nodup_active, h.placed.nodup_free, ?_⟩
    intro key hactive hfree
    obtain ⟨⟨k, a⟩, ha, rfl⟩ := mem_map.1 hactive
    obtain ⟨⟨_, _⟩, ha', hk⟩ := mem_map.1 hfree
    obtain ⟨b, hb, hkey, hused⟩ := h.placed.of_active ha
    obtain ⟨b', hb', hkey', hunused⟩ := h.placed.of_free ha'
    -- two buffers with one key are the same
    have heq := List.inj_on_of_nodup_map h.placed.keys hb hb' (hkey.trans (hk.symm.trans hkey'.symm))
    cases heq
    exact hunused hused
  · have husage := h.placed.usage
    have hfree := h.placed.free.filterMap fun entry : K × Nat =>
      (s.buffers.lookup entry.2).map fun buf => (buf.last_release_time_, entry.2)
    refine husage.trans (List.Perm.trans (List.Perm.of_eq ?_) hfree.symm)
    rw [List.filterMap_map, ← List.filterMap_eq_map]
    refine List.filterMap_congr ?_
    intro e he
    have hmem := (List.mem_filter.1 he).1
    rw [Function.comp_apply, Function.comp_apply, mapEntry, lookup_of_mem h.placed.addresses hmem]
    rfl
  · rintro ⟨key, a⟩ hfree buf hbuf
    obtain ⟨b, hb, rfl, hunused⟩ := h.placed.of_free hfree
    obtain rfl := hsame hb hbuf
    exact (h.unused hb hunused).2

/-! ## Users that go on -/

/-- A user and its buffer. -/
theorem Inv.at (hlookup : s.users.lookup user = some ⟨buffer, key, phase⟩) :
    ∃ buf, s.buffers.lookup buffer = some buf ∧ s.buffers.Perm ((buffer, buf) :: s.buffersWithout buffer) ∧
      s.users.Perm ((user, ⟨buffer, key, phase⟩) :: s.usersWithout user) ∧
      BufferOk buf ((user, ⟨buffer, key, phase⟩) :: usersOn buffer (s.usersWithout user)) := by
  have husers := perm_of_lookup hlookup
  obtain ⟨⟨a, buf⟩, hmem, ha⟩ := mem_map.1 (h.served.live _ (mem_of_lookup hlookup))
  obtain rfl : a = buffer := ha
  have hbuf := lookup_of_mem h.placed.addresses hmem
  refine ⟨buf, hbuf, perm_of_lookup hbuf, husers, ?_⟩
  have hok := (h.served.ok _ hmem).perm (usersOn_perm husers _)
  rw [usersOn_cons_self] at hok
  exact hok

theorem Inv.not_mem_usersWithout {usage : Usage K} (husers : s.users.Perm ((user, usage) :: s.usersWithout user)) :
    user ∉ AssocList.keys (s.usersWithout user) ∧ (AssocList.keys (s.usersWithout user)).Nodup :=
  nodup_cons.1 ((husers.map Prod.fst).nodup_iff.1 h.served.nodup)

/-- A user goes on, and its buffer changes. -/
theorem Inv.update (hlookup : s.users.lookup user = some ⟨buffer, key, phase⟩)
    (hbuf : s.buffers.lookup buffer = some buf)
    (hok : BufferOk buf' ((user, ⟨buffer, key, phase'⟩) :: usersOn buffer (s.usersWithout user)))
    (hkey : buf'.data_key_ = buf.data_key_) (hpast : phase.past = true → phase'.past = true) {buffers' : List (Nat × SharedBuffer K)}
    (hbuffers' : buffers'.Perm ((buffer, buf') :: s.buffersWithout buffer)) :
    ({ s with buffers := buffers' }.setUser user ⟨buffer, key, phase'⟩).Inv := by
  obtain ⟨b, hb, hbuffers, husers, hold⟩ := h.at hlookup
  obtain rfl := Option.some.inj (hbuf.symm.trans hb)
  have hused : 0 < buf.use_count_ := by
    rw [hold.count, List.length_cons]
    omega
  have hused' : 0 < buf'.use_count_ := by
    rw [hok.count, List.length_cons]
    omega
  have hplaced := h.placed.perm hbuffers
  have hkeys : (keys s.buffers).Perm (keys buffers') :=
    (hbuffers.map Prod.fst).trans (hbuffers'.map Prod.fst).symm
  have huserKeys : (keys s.users).Perm (user :: keys (s.usersWithout user)) :=
    husers.map Prod.fst
  have hserved : Served ((buffer, buf') :: s.buffersWithout buffer)
      ((user, ⟨buffer, key, phase'⟩) :: s.usersWithout user) := by
    refine (h.served.perm hbuffers husers).set (fun e he => List.mem_cons_of_mem _ he)
      (fun a ha => mem_cons.1 ha) hplaced.rest_addresses ?_ ?_ (huserKeys.nodup_iff.1 h.served.nodup)
    · intro b hne
      rw [usersOn_cons_ne hne, usersOn_cons_ne hne]
    · rw [usersOn_cons_self]
      exact hok
  refine ⟨(hplaced.update hused hused' hkey).perm hbuffers'.symm, hserved.perm hbuffers'.symm (List.Perm.refl _), ?_,
    fun a ha => h.freshBuffer a (hkeys.symm.subset ha), fun u hu => h.freshUser u (huserKeys.symm.subset hu)⟩
  refine h.called.mono (Nat.le_refl _) ?_
  intro u usage hu _ hnot
  rcases mem_cons.1 hu with heq | hmem
  · cases heq
    refine ⟨⟨buffer, key, phase⟩, husers.symm.subset List.mem_cons_self, ?_⟩
    cases hp : phase.past with
    | false => rfl
    | true => exact absurd (hpast hp) (by rw [hnot]; decide)
  · exact ⟨usage, husers.symm.subset (List.mem_cons_of_mem _ hmem), hnot⟩

theorem Inv.endUsage (hlookup : s.users.lookup user = some ⟨buffer, key, .useData []⟩) :
    (s.setUser user ⟨buffer, key, .ending⟩).Inv := by
  obtain ⟨_, hbuf, hbuffers, _, hok⟩ := h.at hlookup
  exact h.update hlookup hbuf hok.endUsage rfl (fun _ => rfl) hbuffers

theorem Inv.beginUsage (hlookup : s.users.lookup user = some ⟨buffer, key, .got⟩) :
    ∃ s', s.beginUsage user ⟨buffer, key, .got⟩ = some s' ∧ s'.Inv := by
  obtain ⟨buf, hbuf, hbuffers, husers, hok⟩ := h.at hlookup
  have hnew := (h.not_mem_usersWithout husers).1
  have hnewOn : user ∉ keys (usersOn buffer (s.usersWithout user)) :=
    fun hmem => hnew ((List.filter_sublist.map Prod.fst).subset hmem)
  rw [BufferManager.beginUsage, hbuf, Option.bind_eq_bind, Option.bind_some]
  cases hstate : buf.state_ with
  | new => exact ⟨_, rfl, h.update hlookup hbuf (hok.begin_new hstate) rfl nofun (List.Perm.refl _)⟩
  | inLookup =>
    have hok' := hok.begin_lookup hstate hnewOn
    rw [hstate] at hok'
    exact ⟨_, rfl, h.update hlookup hbuf hok' rfl nofun (List.Perm.refl _)⟩
  | validData => exact ⟨_, rfl, h.update hlookup hbuf (hok.begin_valid hstate) rfl nofun hbuffers⟩

/-- The producer finds its buffer in lookup. -/
theorem Inv.markValidData (hlookup : s.users.lookup user = some ⟨buffer, key, .producing⟩) (size : Nat)
    (to_call : List Nat) : ∃ s', s.markValidData user ⟨buffer, key, .producing⟩ size to_call = some s' ∧ s'.Inv := by
  obtain ⟨buf, hbuf, -, -, hok⟩ := h.at hlookup
  have hstate : buf.state_ = .inLookup := by
    cases hs : buf.state_ with
    | inLookup => rfl
    | new =>
      have hzero := (hok.new hs).1
      simp at hzero
    | validData =>
      have hzero := (hok.valid hs).1
      simp at hzero
  rw [BufferManager.markValidData, hbuf, Option.bind_eq_bind, Option.bind_some, guard_of hstate]
  by_cases hcall : to_call.Perm buf.done_callbacks_
  · refine ⟨_, if_pos hcall, h.update hlookup hbuf (hok.mark hstate size hcall) rfl nofun (List.Perm.refl _)⟩
  · exact ⟨s, if_neg hcall, h⟩

/-- A user leaves while its data are looked up. -/
theorem Inv.leave (hlookup : s.users.lookup user = some ⟨buffer, key, .waiting⟩)
    (hstate : ∀ buf ∈ s.buffers.lookup buffer, buf.state_ = .inLookup) :
    ∃ s', s.leave user ⟨buffer, key, .waiting⟩ = some s' ∧ s'.Inv := by
  obtain ⟨buf, hbuf, -, -, hok⟩ := h.at hlookup
  rw [BufferManager.leave, hbuf, Option.bind_eq_bind, Option.bind_some]
  exact ⟨_, rfl, h.update hlookup hbuf (hok.leave (hstate buf hbuf)) rfl nofun (List.Perm.refl _)⟩

/-- The user of a callback that is called waits for the buffer, and has the data then. -/
theorem Inv.runCallback {callback : Nat} {to_call : List Nat}
    (hlookup : s.users.lookup user = some ⟨buffer, key, .useData (callback :: to_call)⟩) :
    (s.runCallback user ⟨buffer, key, .useData (callback :: to_call)⟩ callback to_call).Inv := by
  obtain ⟨buf, -, hbuffers, husers, hok⟩ := h.at hlookup
  obtain ⟨hnew, hnodup⟩ := h.not_mem_usersWithout husers
  obtain ⟨⟨b, key', phase'⟩, hother, hphase⟩ := hok.waits
  obtain ⟨hmem, hon⟩ := List.mem_filter.1 hother
  obtain rfl : b = buffer := by simpa using hon
  obtain rfl : phase' = .waiting := hphase
  have hne : callback ≠ user := fun heq => hnew (heq ▸ mem_map_of_mem (f := Prod.fst) hmem)
  have hlookup' := lookup_of_mem hnodup hmem
  -- the two users, and the others
  have hrest := perm_of_lookup hlookup'
  have hperm := husers.trans (hrest.cons _)
  have hfound : (s.setUser user ⟨b, key, .useData to_call⟩).users.lookup callback = some ⟨b, key', .waiting⟩ := by
    rw [setUser, List.lookup_cons, beq_false_of_ne hne]
    exact hlookup'
  have hwithout : (s.setUser user ⟨b, key, .useData to_call⟩).usersWithout callback =
      (user, ⟨b, key, .useData to_call⟩) :: (s.usersWithout user).eraseP fun e => e.1 == callback :=
    List.eraseP_cons_of_neg (by simpa using Ne.symm hne)
  have hkeys : (keys s.users).Perm
      (callback :: user :: keys ((s.usersWithout user).eraseP fun e => e.1 == callback)) :=
    (hperm.map Prod.fst).trans (List.Perm.swap _ _ _)
  rw [BufferManager.runCallback, hfound]
  dsimp only
  rw [if_pos ⟨rfl, rfl⟩, setUser, hwithout]
  refine ⟨h.placed, ?_, ?_, h.freshBuffer, fun u hu => h.freshUser u (hkeys.symm.subset hu)⟩
  · have hserved : Served ((b, buf) :: s.buffersWithout b) ((callback, ⟨b, key', .useData []⟩) ::
        (user, ⟨b, key, .useData to_call⟩) :: (s.usersWithout user).eraseP fun e => e.1 == callback) := by
      refine (h.served.perm hbuffers hperm).set (fun e he => List.mem_cons_of_mem _ he)
        (fun a ha => mem_cons.1 ha) (h.placed.perm hbuffers).rest_addresses ?_ ?_
        (hkeys.nodup_iff.1 h.served.nodup)
      · intro b' hne'
        rw [usersOn_cons_ne hne', usersOn_cons_ne hne', usersOn_cons_ne hne', usersOn_cons_ne hne']
      · rw [usersOn_cons_self, usersOn_cons_self]
        have hon' := usersOn_perm hrest b
        rw [usersOn_cons_self] at hon'
        exact (hok.perm (hon'.cons _)).run
    exact hserved.perm hbuffers.symm (List.Perm.refl _)
  · refine h.called.run (h.freshUser _ (mem_map_of_mem (f := Prod.fst) (husers.symm.subset
      (List.mem_cons_of_mem _ hmem)))) (husers.symm.subset (List.mem_cons_of_mem _ hmem)) rfl ?_
    intro u usage hu hpast
    rcases mem_cons.1 hu with heq | hu
    · cases heq
      cases hpast
    · rcases mem_cons.1 hu with heq | hu
      · cases heq
        cases hpast
      · have hin : (u, usage) ∈ s.users := hperm.symm.subset (List.mem_cons_of_mem _ (List.mem_cons_of_mem _ hu))
        refine ⟨?_, hin⟩
        rintro rfl
        have hkeys' := (nodup_cons.1 (hkeys.nodup_iff.1 h.served.nodup)).1
        exact hkeys' (List.mem_cons_of_mem _ (mem_map_of_mem (f := Prod.fst) hu))

/-! ## Buffers that are got and given back -/

/-- A new user gets a buffer. -/
theorem Inv.gave {rest : List (Nat × SharedBuffer K)} {active free : List (K × Nat)}
    {usage : List (Int × Nat)} {next : Nat} (hrest : ∀ e ∈ rest, e ∈ s.buffers)
    (hkeys : ∀ b ∈ AssocList.keys s.buffers, b = buffer ∨ b ∈ AssocList.keys rest)
    (hok : BufferOk buf' ((s.nextUser, ⟨buffer, key, .got⟩) :: usersOn buffer s.users))
    (hplaced : Placed ((buffer, buf') :: rest) active free usage) (hlt : buffer < next) (hnext : s.nextBuffer ≤ next) :
    ({ s with
      buffers := (buffer, buf') :: rest
      active_buffers_ := active
      free_buffers_ := free
      usage_set_ := usage
      nextBuffer := next
      users := (s.nextUser, ⟨buffer, key, .got⟩) :: s.users
      nextUser := s.nextUser + 1 } : BufferManager K).Inv := by
  have hnew : s.nextUser ∉ keys s.users := fun hmem => Nat.lt_irrefl _ (h.freshUser _ hmem)
  refine ⟨hplaced, ?_, ?_, ?_, ?_⟩
  · refine h.served.set hrest hkeys hplaced.rest_addresses ?_ ?_ (nodup_cons.2 ⟨hnew, h.served.nodup⟩)
    · intro b hne
      rw [usersOn_cons_ne hne]
    · rw [usersOn_cons_self]
      exact hok
  · refine h.called.mono (Nat.le_succ _) ?_
    intro u usage hu hlt' hpast
    rcases mem_cons.1 hu with heq | hmem
    · cases heq
      exact absurd hlt' (Nat.lt_irrefl _)
    · exact ⟨usage, hmem, hpast⟩
  · intro b hb
    rcases mem_cons.1 hb with rfl | hmem
    · exact hlt
    · obtain ⟨e, he, rfl⟩ := mem_map.1 hmem
      exact Nat.lt_of_lt_of_le (h.freshBuffer _ (mem_map_of_mem (hrest e he))) hnext
  · intro u hu
    rcases mem_cons.1 hu with rfl | hmem
    · exact Nat.lt_succ_self _
    · exact Nat.lt_succ_of_lt (h.freshUser u hmem)

end

theorem buffersWithout_subset : ∀ e ∈ s.buffersWithout buffer, e ∈ s.buffers :=
  fun _ he => eraseP_sublist.subset he

section

variable (h : s.Inv) (hmem : (buffer, buf) ∈ s.buffers)

include h hmem

theorem Inv.mem_buffersWithout {b : Nat}
    (hb : b ∈ AssocList.keys s.buffers) : b = buffer ∨ b ∈ AssocList.keys (s.buffersWithout buffer) := by
  have hperm := perm_of_lookup (lookup_of_mem h.placed.addresses hmem)
  exact mem_cons.1 ((hperm.map Prod.fst).subset hb)

theorem Inv.placed_of_mem :
    Placed ((buffer, buf) :: s.buffersWithout buffer) s.active_buffers_ s.free_buffers_ s.usage_set_ :=
  h.placed.perm (perm_of_lookup (lookup_of_mem h.placed.addresses hmem))

/-- An active buffer has a user more. -/
theorem Inv.getActive (hused : 0 < buf.use_count_) :
    ((s.setBuffer buffer { buf with use_count_ := buf.use_count_ + 1 }).give buf.data_key_ buffer).Inv := by
  have hplaced := h.placed_of_mem hmem
  exact h.gave buffersWithout_subset (fun b hb => h.mem_buffersWithout hmem hb) ((h.served.ok _ hmem).give _ _)
    (hplaced.update hused (by dsimp only; omega) rfl) (h.freshBuffer _ (mem_map_of_mem (f := Prod.fst) hmem))
    (Nat.le_refl _)

end

section Get

variable [DecidableEq K]

/-- A free buffer is used again. -/
theorem Inv.reuseFreeBuffer (h : s.Inv) (hmem : (buffer, buf) ∈ s.buffers) (hunused : ¬ 0 < buf.use_count_) :
    ∃ s', s.reuseFreeBuffer buf.data_key_ buffer = some s' ∧ (s'.give buf.data_key_ buffer).Inv := by
  have hplaced := h.placed_of_mem hmem
  have hcount : buf.use_count_ = 0 := by
    have hok := h.served.ok _ hmem
    rw [(h.unused hmem hunused).1] at hok
    exact hok.count
  rw [BufferManager.reuseFreeBuffer, lookup_of_mem h.placed.addresses hmem, Option.bind_eq_bind,
    Option.bind_some]
  refine ⟨_, rfl, ?_⟩
  have hinsert := (hplaced.removeFree hunused).insertActive { buf with use_count_ := buf.use_count_ + 1 }
    hplaced.rest_addresses hplaced.rest_keys (by dsimp only; omega)
  exact h.gave buffersWithout_subset (fun b hb => h.mem_buffersWithout hmem hb) ((h.served.ok _ hmem).give _ _)
    hinsert (h.freshBuffer _ (mem_map_of_mem (f := Prod.fst) hmem)) (Nat.le_refl _)

/-- A buffer is created for a key that has none. -/
theorem Inv.createNewBuffer (h : s.Inv) (hkey : key ∉ dataKeys s.buffers) :
    ((s.createNewBuffer key).give key s.nextBuffer).Inv := by
  have hnew : s.nextBuffer ∉ keys s.buffers := fun hmem => Nat.lt_irrefl _ (h.freshBuffer _ hmem)
  have hok : BufferOk ({ data_key_ := key, use_count_ := 1 } : SharedBuffer K)
      ((s.nextUser, ⟨s.nextBuffer, key, .got⟩) :: usersOn s.nextBuffer s.users) := by
    rw [h.served.usersOn_eq_nil hnew]
    exact BufferOk.fresh rfl rfl rfl _ _
  exact h.gave (fun _ he => he) (fun b hb => Or.inr hb) hok (h.placed.insertActive _ hnew hkey Int.one_pos)
    (Nat.lt_succ_self _) (Nat.le_succ _)

/-- The oldest free buffer, without callbacks, is used for a key that has none. -/
theorem Inv.reDesignate (h : s.Inv) (hkey : key ∉ dataKeys s.buffers) {time : Int} {usage : List (Int × Nat)}
    (husage : s.usage_set_ = (time, buffer) :: usage)
    (hdone : ∀ buf ∈ s.buffers.lookup buffer, buf.done_callbacks_ = []) :
    ∃ s', s.reDesignate key buffer = some s' ∧ (s'.give key buffer).Inv := by
  obtain ⟨buf, hmem, rfl, hunused⟩ := h.placed.of_usage (by rw [husage]; exact List.mem_cons_self)
  have hlookup := lookup_of_mem h.placed.addresses hmem
  have hplaced := h.placed_of_mem hmem
  have hkey' : key ∉ dataKeys (s.buffersWithout buffer) :=
    fun hin => hkey ((eraseP_sublist.map _).subset hin)
  have hremoved := hplaced.removeFree hunused
  rw [husage, List.erase_cons_head] at hremoved
  have hok : BufferOk ({ buf with
        data_key_ := key
        state_ := .new
        use_count_ := 1 } : SharedBuffer K) ((s.nextUser, ⟨buffer, key, .got⟩) :: usersOn buffer s.users) := by
    rw [(h.unused hmem hunused).1]
    refine BufferOk.fresh rfl ?_ rfl _ _
    exact hdone buf hlookup
  have hinsert := hremoved.insertActive { buf with
    data_key_ := key
    state_ := .new
    use_count_ := 1 } hplaced.rest_addresses hkey' Int.one_pos
  rw [BufferManager.reDesignate, hlookup, Option.bind_eq_bind, Option.bind_some, husage]
  exact ⟨_, rfl, h.gave buffersWithout_subset (fun b hb => h.mem_buffersWithout hmem hb) hok hinsert
    (h.freshBuffer _ (mem_map_of_mem (f := Prod.fst) hmem)) (Nat.le_refl _)⟩

/-- What keeps the callbacks those of the users that wait: a buffer is re-designated without callbacks, and a user leaves
while its data are looked up. -/
def CallbacksCurrent (s : BufferManager K) : Event K → Prop
  | .getBuffer key false => s.active_buffers_.lookup key = none → s.free_buffers_.lookup key = none →
      ∀ oldest ∈ s.usage_set_.head?, ∀ buf ∈ s.buffers.lookup oldest.2, buf.done_callbacks_ = []
  | .leave user => ∀ usage ∈ s.users.lookup user, usage.phase = .waiting →
      ∀ buf ∈ s.buffers.lookup usage.buffer, buf.state_ = .inLookup
  | _ => True

instance decidableCallbacksCurrent (s : BufferManager K) : ∀ e : Event K, Decidable (s.CallbacksCurrent e)
  | .getBuffer _ false => inferInstanceAs (Decidable (_ → _ → ∀ oldest ∈ s.usage_set_.head?, _))
  | .getBuffer _ true => isTrue trivial
  | .leave user => inferInstanceAs (Decidable (∀ usage ∈ s.users.lookup user, _))
  | .beginUsage _ => isTrue trivial
  | .markValidData _ _ _ => isTrue trivial
  | .runCallback _ => isTrue trivial
  | .endUsage _ => isTrue trivial
  | .doneBuffer _ _ => isTrue trivial

theorem Inv.getBuffer (h : s.Inv) {allocates : Bool} (hcurrent : s.CallbacksCurrent (.getBuffer key allocates)) :
    ∃ s', s.getBuffer key allocates = some s' ∧ s'.Inv := by
  rw [BufferManager.getBuffer]
  cases hactive : s.active_buffers_.lookup key with
  | some address =>
    obtain ⟨buf, hmem, rfl, hused⟩ := h.placed.of_active (mem_of_lookup hactive)
    dsimp only
    rw [lookup_of_mem h.placed.addresses hmem]
    exact ⟨_, rfl, h.getActive hmem hused⟩
  | none =>
    cases hfree : s.free_buffers_.lookup key with
    | some address =>
      obtain ⟨buf, hmem, rfl, hunused⟩ := h.placed.of_free (mem_of_lookup hfree)
      obtain ⟨s', hreuse, hinv⟩ := h.reuseFreeBuffer hmem hunused
      dsimp only
      rw [hreuse]
      exact ⟨_, rfl, hinv⟩
    | none =>
      have hkey := h.placed.not_mem_dataKeys (AssocList.lookup_eq_none.1 hactive) (AssocList.lookup_eq_none.1 hfree)
      cases allocates with
      | true => exact ⟨_, rfl, h.createNewBuffer hkey⟩
      | false =>
        rw [if_neg (by decide)]
        split_ifs with hnone
        · exact ⟨s, rfl, h⟩
        · cases husage : s.usage_set_ with
          | nil => exact ⟨s, rfl, h⟩
          | cons oldest usage =>
            obtain ⟨s', hre, hinv⟩ := h.reDesignate hkey husage
              (hcurrent hactive hfree oldest (by rw [husage]; rfl))
            dsimp only
            rw [hre]
            exact ⟨_, rfl, hinv⟩

/-- The last user of a buffer gives it back. -/
theorem Inv.doneBuffer (h : s.Inv) (hlookup : s.users.lookup user = some ⟨buffer, key, .ending⟩) (now : Int) :
    ∃ s', s.doneBuffer user ⟨buffer, key, .ending⟩ now = some s' ∧ s'.Inv := by
  obtain ⟨buf, hbuf, hbuffers, husers, hok⟩ := h.at hlookup
  obtain ⟨-, hnodup⟩ := h.not_mem_usersWithout husers
  have hmem := mem_of_lookup hbuf
  have hplaced := h.placed_of_mem hmem
  have hserved := h.served.perm hbuffers husers
  have hused : 0 < buf.use_count_ := by
    rw [hok.count, List.length_cons]
    omega
  have hother : ∀ b, b ≠ buffer → (usersOn b ((user, ⟨buffer, key, .ending⟩) :: s.usersWithout user)).Perm
      (usersOn b (s.usersWithout user)) := by
    intro b hne
    rw [usersOn_cons_ne hne]
  have hsub : ∀ e ∈ s.usersWithout user, e ∈ s.users := fun e he => eraseP_sublist.subset he
  have hcalled : Called s.runs (s.usersWithout user) s.nextUser :=
    h.called.mono (Nat.le_refl _) fun u usage hu _ hpast => ⟨usage, hsub _ hu, hpast⟩
  have hfresh : ∀ u ∈ keys (s.usersWithout user), u < s.nextUser :=
    fun u hu => h.freshUser u ((eraseP_sublist.map _).subset hu)
  have hfreshBuffer : ∀ b ∈ buffer :: keys (s.buffersWithout buffer), b < s.nextBuffer :=
    fun b hb => h.freshBuffer b ((hbuffers.map Prod.fst).symm.subset hb)
  rw [BufferManager.doneBuffer, Option.bind_eq_bind]
  rw [hbuf, Option.bind_some]
  by_cases hmore : 0 < buf.use_count_ - 1
  · rw [if_pos hmore]
    have hne : usersOn buffer (s.usersWithout user) ≠ [] := by
      intro hnil
      have hcount := hok.count
      rw [hnil, List.length_singleton] at hcount
      rw [hcount] at hmore
      exact absurd hmore (by decide)
    refine ⟨_, rfl, hplaced.update hused hmore rfl, ?_, hcalled, hfreshBuffer, hfresh⟩
    exact hserved.set (fun e he => List.mem_cons_of_mem _ he) (fun b hb => mem_cons.1 hb) hplaced.rest_addresses
      hother (hok.done hne) hnodup
  · rw [if_neg hmore]
    have hnil : usersOn buffer (s.usersWithout user) = [] := by
      have hcount := hok.count
      rw [List.length_cons] at hcount
      refine List.eq_nil_of_length_eq_zero ?_
      omega
    have hin : (buf.data_key_, buffer) ∈ s.active_buffers_ :=
      hplaced.active.symm.subset (by rw [usedBuffers_cons, if_pos hused]; exact List.mem_cons_self)
    have hfound : s.active_buffers_.lookup buf.data_key_ ≠ none :=
      fun hnone => AssocList.lookup_eq_none.1 hnone (mem_map_of_mem (f := Prod.fst) hin)
    have hremoved := hplaced.removeActive hused
    rw [hnil] at hok
    rw [guard_of hfound, Option.bind_eq_bind, Option.bind_some]
    by_cases hsize : buf.data_size_ = 0
    · rw [if_pos hsize]
      exact ⟨_, rfl, hremoved, hserved.delete hplaced.rest_addresses hother hnil hnodup, hcalled,
        fun b hb => hfreshBuffer b (List.mem_cons_of_mem _ hb), hfresh⟩
    · rw [if_neg hsize]
      have hfreed := hok.freed hsize now
      rw [← hnil] at hfreed
      refine ⟨_, rfl, hremoved.insertFree { buf with
        use_count_ := buf.use_count_ - 1
        last_release_time_ := now } hplaced.rest_addresses hplaced.rest_keys hmore, ?_, hcalled, hfreshBuffer, hfresh⟩
      exact hserved.set (fun e he => List.mem_cons_of_mem _ he) (fun b hb => mem_cons.1 hb) hplaced.rest_addresses
        hother hfreed hnodup

/-! ## Runs -/

/-- One step. -/
theorem Inv.step (h : s.Inv) (e : Event K) (hcurrent : s.CallbacksCurrent e) : ∃ s', s.step e = some s' ∧ s'.Inv := by
  cases e with
  | getBuffer key allocates => exact h.getBuffer hcurrent
  | beginUsage user =>
    rw [BufferManager.step]
    split
    · next hlookup => exact h.beginUsage hlookup
    · exact ⟨s, rfl, h⟩
  | markValidData user size to_call =>
    rw [BufferManager.step]
    split
    · next hlookup => exact h.markValidData hlookup size to_call
    · exact ⟨s, rfl, h⟩
  | runCallback user =>
    rw [BufferManager.step]
    split
    · next hlookup => exact ⟨_, rfl, h.runCallback hlookup⟩
    · exact ⟨s, rfl, h⟩
  | endUsage user =>
    rw [BufferManager.step]
    split
    · next hlookup => exact ⟨_, rfl, h.endUsage hlookup⟩
    · exact ⟨s, rfl, h⟩
  | leave user =>
    rw [BufferManager.step]
    split
    · next hlookup => exact h.leave hlookup (hcurrent _ hlookup rfl)
    · exact ⟨s, rfl, h⟩
  | doneBuffer user now =>
    rw [BufferManager.step]
    split
    · next hlookup => exact h.doneBuffer hlookup now
    · exact ⟨s, rfl, h⟩

/-- A run in which the callbacks stay current passes every check, and the maps are consistent behind it. -/
theorem consistent_while_current (events : List (Event K)) (hcurrent : Along BufferManager.step CallbacksCurrent {} events) :
    ∃ s, Library.run (BufferManager.step (K := K)) {} events = some s ∧ s.Consistent := by
  obtain ⟨s, hrun, hinv⟩ := run_along (I := Inv) (fun s e h hcurrent => h.step e hcurrent) init_inv hcurrent
  exact ⟨s, hrun, hinv.consistent⟩

end Get

/-- One user produces the data of a buffer, a second one waits for them, and a third one leaves; the buffer is used again
by a fourth one. -/
def oneLookup : List (Event Nat) :=
  [.getBuffer 1 true, .beginUsage 0, .getBuffer 1 true, .beginUsage 1, .getBuffer 1 true, .beginUsage 2, .leave 2,
    .doneBuffer 2 5, .markValidData 0 100 [1], .runCallback 0, .endUsage 0, .endUsage 1, .doneBuffer 0 6, .doneBuffer 1 7,
    .getBuffer 1 true, .beginUsage 3, .endUsage 3, .doneBuffer 3 8, .getBuffer 1 false]

theorem oneLookup_consistent : ∃ s, Library.run (BufferManager.step (K := Nat)) {} oneLookup = some s ∧ s.Consistent :=
  consistent_while_current oneLookup (by decide +kernel)

/-- A buffer that had a user waiting is re-designated. -/
def waitedFor : List (Event Nat) :=
  [.getBuffer 1 true, .beginUsage 0, .getBuffer 1 true, .beginUsage 1, .markValidData 0 5 [1], .runCallback 0,
    .endUsage 0, .doneBuffer 0 10, .endUsage 1, .doneBuffer 1 11, .getBuffer 2 false, .beginUsage 2,
    .markValidData 2 5 [1], .runCallback 2]

/-- The `MarkValidData` of the second key calls the user of the first one. -/
theorem reDesignate_keeps_callbacks :
    ¬ ∀ (events : List (Event Nat)), ∃ s, Library.run (BufferManager.step (K := Nat)) {} events = some s ∧ s.Consistent := by
  intro h
  obtain ⟨s, hrun, hconsistent⟩ := h waitedFor
  have hruns : (Library.run (step (K := Nat)) {} waitedFor).map runs = some [⟨1, true⟩, ⟨1, false⟩] := by
    decide +kernel
  rw [hrun] at hruns
  have hcalled := hconsistent.called ⟨1, false⟩ (by rw [Option.some.inj hruns]; simp)
  exact absurd hcalled (by decide)

end BufferManager

end Whispercast.Io
