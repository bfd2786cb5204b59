import Whispercast.Rtmp.ImporterProtocol

/-!
# What an importer gets

Every step of a publishing stream keeps the invariant, where the stream is used with care.
-/

namespace Whispercast.Rtmp

open Io Library Amf Flv List Option PublishStream List MediaClosure NetClosure Phase PublishStream Silent Stage

namespace PublishStream

variable {ι : Type} {n : Nat} {s : PublishStream ι} {g : Stage ι} {env : Surroundings}

/-! ## References -/

/-- While a reference is held, there is a stream. -/
theorem Refs.alive (h : Refs n s) (hn : 0 < s.ref_count_) : s.deleted = false := by
  cases hd : s.deleted with
  | false => rfl
  | true =>
    have := h.deleted hd
    omega

/-- References come and go while one is held. -/
theorem Refs.changed {m : Nat} {s' : PublishStream ι} (h : Refs n s) (hn : 0 < s.ref_count_)
    (hn' : 0 < s'.ref_count_) (hd : s'.deleted = s.deleted)
    (hq : s'.net_queue.count .deleteStream = s.net_queue.count .deleteStream)
    (hrefs : s'.ref_count_ + s'.closed.toNat = 1 + s'.media_queue.length + s'.net_queue.countP NetClosure.Holds +
      s'.owed.length + s'.dropped.length + m) : Refs m s' where
  refs := hrefs
  deletion := by
    rw [hq, h.deletion, if_neg (by omega), if_neg (by omega)]
  deleted := by
    rw [hd, h.alive hn]
    nofun

theorem Refs.pos (h : Refs (n + 1) s) : 0 < s.ref_count_ := by
  have := h.refs
  cases hc : s.closed <;> simp [hc] at this <;> omega

theorem Refs.pos_of_open (h : Refs n s) (hc : s.closed = false) : 0 < s.ref_count_ := by
  have := h.refs
  simp [hc] at this
  omega

/-- A running closure lets its reference go. -/
theorem Refs.decRef (h : Refs 1 s) : ∃ s', decRef s = some s' ∧ Refs 0 s' ∧
      (s' = { s with ref_count_ := s.ref_count_ - 1 } ∨
        s' = { s with ref_count_ := s.ref_count_ - 1, net_queue := s.net_queue ++ [.deleteStream] }) := by
  have hpos := h.pos
  have hrefs := h.refs
  have hcount := h.deletion
  rw [if_neg (by omega)] at hcount
  unfold PublishStream.decRef
  rw [if_neg (by omega)]
  by_cases hone : s.ref_count_ = 1
  · refine ⟨_, if_pos hone, ⟨?_, ?_, fun _ => rfl⟩, .inr (by rw [hone])⟩
    · dsimp only
      rw [countP_append]
      simp only [List.countP_singleton, NetClosure.Holds, Bool.false_eq_true, if_false]
      omega
    · rw [List.count_append, hcount, if_pos ⟨rfl, h.alive hpos⟩]
      rfl
  · refine ⟨_, if_neg hone, ?_, .inl rfl⟩
    refine h.changed hpos ?_ rfl rfl ?_
    · dsimp only
      omega
    · dsimp only
      omega

/-- The network selector has taken its first closure, which holds a reference. -/
theorem Refs.popNet (h : Refs n s) {c : NetClosure} {rest : List NetClosure} (hq : s.net_queue = c :: rest)
    (hc : c ≠ .deleteStream) : Refs (n + 1) { s with net_queue := rest } := by
  have hholds : Holds c = true := by
    cases c with
    | deleteStream => exact absurd rfl hc
    | startCompleted success => rfl
    | internalStop send_eos forced => rfl
  have hrefs := h.refs
  rw [hq, countP_cons_of_pos hholds] at hrefs
  have hpos : 0 < s.ref_count_ := by
    cases hc : s.closed <;> simp [hc] at hrefs <;> omega
  refine h.changed hpos hpos rfl ?_ ?_
  · rw [hq, count_cons_of_ne hc]
  · dsimp only
    omega

/-- In one thread the network selector has nothing to run while a reference is held. -/
theorem Refs.no_closure (h : Refs n s) (hn : 0 < s.ref_count_) (hd : ∀ c ∈ s.net_queue, c = .deleteStream) :
    s.net_queue = [] := by
  have hdeletion := h.deletion
  rw [if_neg (by omega), count_eq_zero] at hdeletion
  refine eq_nil_iff_forall_not_mem.2 fun c hc => ?_
  obtain rfl := hd c hc
  exact hdeletion hc

/-- The media selector has taken its first closure. -/
theorem Refs.popMedia (h : Refs n s) {c : MediaClosure} {rest : List MediaClosure} (hq : s.media_queue = c :: rest) :
    Refs (n + 1) { s with media_queue := rest } := by
  have hrefs := h.refs
  rw [hq, length_cons] at hrefs
  have hpos : 0 < s.ref_count_ := by
    cases hc : s.closed <;> simp [hc] at hrefs <;> omega
  refine h.changed hpos hpos rfl rfl ?_
  dsimp only
  omega

/-- A closure that waits has a stream. -/
theorem Refs.alive_of_net (h : Refs n s) {c : NetClosure} {rest : List NetClosure} (hq : s.net_queue = c :: rest) :
    s.deleted = false := by
  by_cases hc : c = .deleteStream
  · have hdeletion := h.deletion
    rw [hq, hc, count_cons_self] at hdeletion
    by_contra hne
    rw [if_neg (fun hand => hne hand.2)] at hdeletion
    cases hdeletion
  · exact h.alive (h.popNet hq hc).pos

theorem Refs.alive_of_media (h : Refs n s) {c : MediaClosure} {rest : List MediaClosure}
    (hq : s.media_queue = c :: rest) : s.deleted = false :=
  h.alive (h.popMedia hq).pos

/-- A closure with a reference of its own is queued. -/
theorem Refs.runInMedia (h : Refs n s) (hn : 0 < s.ref_count_) (c : MediaClosure) :
    Refs n (runInMedia c s.incRef) := by
  refine h.changed hn (Nat.succ_pos _) rfl rfl ?_
  have := h.refs
  dsimp only [PublishStream.runInMedia, incRef]
  rw [length_append, length_singleton]
  omega

theorem given_of_not_start {calls : List (Call ι)} {i : ι} {tag : Tag} {ts : Int} (h : tag.IsEos) :
    given (calls ++ [.processTag i tag ts]) = given calls := by
  cases tag with
  | eos forced => rw [given_append]; rfl
  | flv tag => cases h
  | mediaInfo m a v => cases h

section Steps

variable [DecidableEq ι]

theorem inv_new : Inv 0 ({} : PublishStream ι) .quiet where
  refs := rfl
  deletion := rfl
  deleted := nofun
  closed := nofun
  opens := rfl
  stops := fun _ => not_mem_nil
  starts := rfl
  completions := rfl
  accepted := nofun
  importer := rfl
  pending := rfl
  owed := rfl
  dropped := rfl
  attached := rfl
  phase := rfl
  unopened := by simp [isPending]
  opened := nofun
  quiet := trivial
  ordered := ⟨prefix_rfl, nofun⟩

/-- A closure that is not the end of the stream is queued. -/
theorem Inv.stops_append (h : Inv n s g) {c : NetClosure} (hc : ∀ forced, c ≠ .internalStop true forced) (forced : Bool) :
    NetClosure.internalStop true forced ∉ s.net_queue ++ [c] := by
  intro hmem
  rcases mem_append.1 hmem with hmem | hmem
  · exact h.stops forced hmem
  · exact hc forced (mem_singleton.1 hmem).symm

theorem Inv.accepted_append (h : Inv n s g) {c : NetClosure} (hc : c ≠ .startCompleted false) (i : ι)
    (hi : g = .answered (some i)) : NetClosure.startCompleted false ∉ s.net_queue ++ [c] := by
  intro hmem
  rcases mem_append.1 hmem with hmem | hmem
  · exact h.accepted i hi hmem
  · exact hc (mem_singleton.1 hmem).symm

theorem Inv.decRef (h : Inv 1 s g) : ∃ s', decRef s = some s' ∧ Inv 0 s' g := by
  obtain ⟨s', hs', hrefs, rfl | rfl⟩ := h.toRefs.decRef
  · exact ⟨_, hs', { h with toRefs := hrefs }⟩
  · refine ⟨_, hs', { h with
      toRefs := hrefs, stops := h.stops_append nofun, completions := ?_, accepted := h.accepted_append nofun }⟩
    rw [countP_append, h.completions]
    rfl

/-- An EOS for the importer is queued. -/
theorem Inv.pushEos (h : Inv n s g) (hn : 0 < s.ref_count_) (forced : Bool) (ts : Int) :
    Inv n (runInMedia (.sendTag (.eos forced) ts) { s.incRef with ended := true }) g := by
  refine { h with
    toRefs := ⟨(h.toRefs.runInMedia hn (.sendTag (.eos forced) ts)).refs, (h.toRefs.runInMedia hn (.sendTag (.eos forced) ts)).deletion, (h.toRefs.runInMedia hn (.sendTag (.eos forced) ts)).deleted⟩
    closed := fun _ => rfl, opens := ?_, starts := ?_, opened := nofun,
    quiet := ?_, ordered := ?_ }
  · show openAfter s.importer_.isSome (s.media_queue ++ [_]) = !true
    rw [openAfter_append]
    rfl
  · show (s.media_queue ++ [_]).countP IsStart = g.starts
    rw [countP_append, h.starts]
    rfl
  · have := h.quiet
    cases g with
    | quiet => trivial
    | queued => exact SilentBehind.append this forced ts
    | pending i => exact append this forced ts
    | stopped i => exact append this forced ts
    | answered on => exact append this forced ts
    | publishing i => trivial
  · have hord := h.ordered
    have hwait := congrArg (given s.calls ++ ·) (waitingTags_append_eos s.media_queue forced ts)
    cases g with
    | quiet => exact hord
    | queued => exact hord
    | answered on =>
      cases on with
      | none => exact hord
      | some i => exact hwait.trans hord
    | pending i => exact hwait.trans hord
    | stopped i => exact hwait.trans hord
    | publishing i => exact hwait.trans hord

/-! ## The media thread -/

theorem Silent.not_flv {tag : Tag} {ts : Int} {rest : List MediaClosure} (h : Silent (.sendTag tag ts :: rest)) :
    tag.IsEos := by
  obtain ⟨_, _, heq⟩ := h _ mem_cons_self
  cases heq
  trivial

theorem waitingTags_of_isEos {tag : Tag} (h : tag.IsEos) (ts : Int) (rest : List MediaClosure) :
    waitingTags (.sendTag tag ts :: rest) = [] := by
  cases tag with
  | eos forced => rfl
  | flv tag => cases h
  | mediaInfo m a v => cases h

theorem opens_of_isEos {tag : Tag} (h : tag.IsEos) (ts : Int) (b : Bool) : opens b (.sendTag tag ts) = false := by
  cases tag with
  | eos forced => rfl
  | flv tag => cases h
  | mediaInfo m a v => cases h

theorem opens_of_not_isEos {tag : Tag} (h : ¬ tag.IsEos) (ts : Int) (b : Bool) : opens b (.sendTag tag ts) = b := by
  cases tag with
  | eos forced => exact absurd trivial h
  | flv tag => rfl
  | mediaInfo m a v => rfl

section

variable (h : Inv n s g) {tag : Tag} {ts : Int} {rest : List MediaClosure}
    (hq : s.media_queue = .sendTag tag ts :: rest)

include h hq

/-- A tag that is sent while there is no importer is dropped. -/
theorem Inv.dropTag (himp : s.importer_ = none) : Inv (n + 1) { s with media_queue := rest } g := by
  have hopens := h.opens
  have hstarts := h.starts
  have hquiet := h.quiet
  have hord := h.ordered
  rw [hq] at hopens hstarts hquiet
  refine { h with
    toRefs := h.toRefs.popMedia hq, opens := ?_, starts := by simpa [IsStart] using hstarts,
    quiet := ?_, ordered := ?_ }
  · rw [himp] at hopens
    rw [himp, ← hopens]
    cases tag <;> rfl
  · cases g with
    | quiet => trivial
    | queued => exact hquiet
    | pending i => exact tail hquiet
    | stopped i => exact tail hquiet
    | answered on => exact tail hquiet
    | publishing i => trivial
  · cases g with
    | quiet => exact hord
    | queued => exact hord
    | pending i | publishing i => exact absurd (himp.symm.trans h.importer) (by simp [Stage.importer])
    | stopped i =>
      show given s.calls ++ waitingTags rest = kept s.fed
      rw [(tail hquiet).waitingTags_eq, ← hord, hq, waitingTags_of_isEos hquiet.not_flv]
    | answered on =>
      cases on with
      | none => exact hord
      | some i => exact absurd (himp.symm.trans h.importer) (by simp [Stage.importer])

/-- A tag of the client is given to the importer. -/
theorem Inv.giveTag {i : ι} (himp : s.importer_ = some i) (htag : ¬ tag.IsEos) :
    Inv (n + 1) { s with media_queue := rest, calls := s.calls ++ [.processTag i tag ts] } g := by
  have hopens := h.opens
  have hstarts := h.starts
  have hquiet := h.quiet
  have hord := h.ordered
  rw [hq] at hopens hstarts hquiet
  -- Only a stream that publishes has more than EOS in its queue.
  have hg : g = .publishing i := by
    have hi := himp.symm.trans h.importer
    cases g with
    | quiet => cases hi
    | queued => cases hi
    | stopped j => cases hi
    | pending j => exact absurd (not_flv hquiet) htag
    | answered on => exact absurd (not_flv hquiet) htag
    | publishing j =>
      obtain rfl := Option.some.inj hi
      rfl
  subst hg
  refine { h with
    toRefs := ⟨(h.toRefs.popMedia hq).refs, (h.toRefs.popMedia hq).deletion, (h.toRefs.popMedia hq).deleted⟩,
    opens := ?_, starts := by simpa [IsStart] using hstarts, phase := ?_, quiet := trivial, ordered := ?_ }
  · rw [openAfter_cons, opens_of_not_isEos htag] at hopens
    exact hopens
  · exact run_append_eq_some.2 ⟨_, h.phase, by simp [Phase.next, Stage.phase, htag, run_cons]⟩
  · show given (s.calls ++ [.processTag i tag ts]) ++ waitingTags rest = kept s.fed
    have hord : given s.calls ++ waitingTags s.media_queue = kept s.fed := hord
    rw [← hord, hq, given_append]
    cases tag with
    | eos forced => exact absurd trivial htag
    | flv tag => simp [giveTag, waitingTags]
    | mediaInfo m a v => rfl

/-- An EOS is given to the importer that has answered. -/
theorem Inv.giveEos {i : ι} (himp : s.importer_ = some i) (htag : tag.IsEos) (hw : ¬ s.Waiting) :
    ∃ g', Inv (n + 1) { s with
      media_queue := rest, calls := s.calls ++ [.processTag i tag ts], importer_ := none,
      attached := s.attached.erase i } g' := by
  have hopens := h.opens
  have hstarts := h.starts
  have hquiet := h.quiet
  have hord := h.ordered
  rw [hq] at hopens hstarts hquiet
  have hrefs := h.toRefs.popMedia hq
  have hopens' : openAfter false rest = !s.ended := by
    rw [openAfter_cons, opens_of_isEos htag] at hopens
    exact hopens
  have hgiven : given (s.calls ++ [.processTag i tag ts]) = given s.calls := given_of_not_start htag
  have hi := himp.symm.trans h.importer
  have hcomplete : given s.calls = kept s.fed → given (s.calls ++ [Call.processTag i tag ts]) <+: kept s.fed ∧
      ∀ j forced ts', (s.calls ++ [Call.processTag i tag ts]).getLast? = some (.processTag j (.eos forced) ts') →
        given (s.calls ++ [Call.processTag i tag ts]) = kept s.fed := by
    intro heq
    rw [hgiven, heq]
    exact ⟨prefix_rfl, fun _ _ _ _ => rfl⟩
  have hnext : run next .idle s.calls = some (.publishing i) →
      run next .idle (s.calls ++ [Call.processTag i tag ts]) = some .idle := fun hphase =>
    run_append_eq_some.2 ⟨_, hphase, by simp [Phase.next, htag, run_cons]⟩
  cases g with
  | quiet => cases hi
  | queued => cases hi
  | stopped j => cases hi
  | pending j => exact absurd ⟨by rw [himp]; rfl, by rw [h.owed]; exact cons_ne_nil _ _⟩ hw
  | answered on =>
    obtain rfl : on = some i := hi.symm
    refine ⟨.answered none, { h with
      toRefs := ⟨hrefs.refs, hrefs.deletion, hrefs.deleted⟩, opens := hopens', accepted := by rintro _ ⟨⟩,
      importer := rfl, attached := ?_, phase := hnext h.phase, unopened := fun _ => h.unopened (.inl rfl),
      opened := by rintro _ ⟨⟩, starts := by simpa [IsStart, Stage.starts] using hstarts,
      quiet := tail hquiet, ordered := ?_ }⟩
    · rw [h.attached]
      simp [Stage.attached]
    · refine hcomplete ?_
      have hord : given s.calls ++ waitingTags s.media_queue = kept s.fed := hord
      rw [← hord, hq, waitingTags_of_isEos htag, append_nil]
  | publishing j =>
    obtain rfl := Option.some.inj hi
    refine ⟨.quiet, { h with
      toRefs := ⟨hrefs.refs, hrefs.deletion, hrefs.deleted⟩, opens := hopens', accepted := by rintro _ ⟨⟩,
      importer := rfl, attached := ?_, phase := hnext h.phase, unopened := by simp [isPending],
      opened := by rintro _ ⟨⟩, starts := by simpa [IsStart, Stage.starts] using hstarts, quiet := trivial,
      ordered := ?_ }⟩
    · rw [h.attached]
      simp [Stage.attached]
    · refine hcomplete ?_
      have hord : given s.calls ++ waitingTags s.media_queue = kept s.fed := hord
      rw [← hord, hq, waitingTags_of_isEos htag, append_nil]

end

theorem sendTagHere_none (himp : s.importer_ = none) (tag : Tag) (ts : Int) : sendTagHere tag ts s = s := by
  unfold PublishStream.sendTagHere
  rw [himp]

theorem sendTagHere_eos {i : ι} (himp : s.importer_ = some i) {tag : Tag} (htag : tag.IsEos) (ts : Int) :
    sendTagHere tag ts s = { s with
      calls := s.calls ++ [.processTag i tag ts], importer_ := none, attached := s.attached.erase i } := by
  unfold PublishStream.sendTagHere
  rw [himp]
  exact if_pos htag

theorem sendTagHere_tag {i : ι} (himp : s.importer_ = some i) {tag : Tag} (htag : ¬ tag.IsEos) (ts : Int) :
    sendTagHere tag ts s = { s with calls := s.calls ++ [.processTag i tag ts] } := by
  unfold PublishStream.sendTagHere
  rw [himp]
  exact if_neg htag

section

variable (h : Inv n s g) {rest : List MediaClosure}

include h

/-- The media selector runs a `SendTag`. -/
theorem Inv.sendTagHere {tag : Tag} {ts : Int}
    (hq : s.media_queue = .sendTag tag ts :: rest) (hw : tag.IsEos → ¬ s.Waiting) :
    ∃ g', Inv (n + 1) (sendTagHere tag ts { s with media_queue := rest }) g' ∧ (¬ tag.IsEos → g' = g) := by
  rcases eq_none_or_eq_some s.importer_ with himp | ⟨i, himp⟩
  · rw [sendTagHere_none (by exact himp)]
    exact ⟨g, h.dropTag hq himp, fun _ => rfl⟩
  · by_cases htag : tag.IsEos
    · rw [sendTagHere_eos (by exact himp) htag]
      obtain ⟨g', hg'⟩ := h.giveEos hq himp htag (hw htag)
      exact ⟨g', hg', fun hn => absurd htag hn⟩
    · rw [sendTagHere_tag (by exact himp) htag]
      exact ⟨g, h.giveTag hq himp htag, fun _ => rfl⟩

/-- The one start of a queue has been taken out of it. -/
theorem Inv.queued {auth : AuthorizerRequest} (hq : s.media_queue = .startPublishing auth :: rest) :
    g = .queued ∧ Silent rest ∧ rest.countP MediaClosure.IsStart = 0 := by
  have hstarts := h.starts
  have hquiet := h.quiet
  rw [hq, countP_cons_of_pos rfl] at hstarts
  rw [hq] at hquiet
  cases g with
  | queued => exact ⟨rfl, hquiet, Nat.succ.inj hstarts⟩
  | _ => cases hstarts

/-- A start finds its importer. -/
theorem Inv.start {auth : AuthorizerRequest} (hq : s.media_queue = .startPublishing auth :: rest) (i : ι) :
    Inv (n + 1) (startPublishingHere env auth (some i) { s with media_queue := rest }) (.pending i) := by
  obtain ⟨rfl, hsilent, hrest⟩ := h.queued hq
  have hopens := h.opens
  have hrefs := h.toRefs.popMedia hq
  rw [hq] at hopens
  have howed : s.owed = [] := h.owed
  refine { h with
    toRefs := ?_, opens := hopens, starts := hrest, accepted := nofun, importer := rfl, pending := rfl, owed := ?_,
    phase := ?_, unopened := fun _ => h.unopened (.inr rfl), opened := nofun, quiet := hsilent, ordered := ?_ }
  · refine h.toRefs.changed hrefs.pos (Nat.succ_pos _) rfl rfl ?_
    have := hrefs.refs
    simp only [PublishStream.startPublishingHere, incRef, length_append, length_singleton] at this ⊢
    omega
  · show s.owed ++ [i] = [i]
    rw [howed, nil_append]
  · exact run_append_eq_some.2 ⟨_, h.phase, rfl⟩
  · show given (s.calls ++ [.start i auth s.publish_command_]) ++ waitingTags rest = []
    rw [given_append, hsilent.waitingTags_eq]
    rfl

end

/-- `InternalStop` without an EOS, called in the media thread. -/
theorem Inv.internalStopInMedia (h : Inv n { s with ended := true } g) (hn : 0 < s.ref_count_) (forced : Bool) :
    Inv n (internalStopInMedia env false forced s) g := by
  unfold PublishStream.internalStopInMedia
  split_ifs with hone
  · exact h
  · refine { h with
      toRefs := ?_, stops := h.stops_append nofun, completions := ?_, accepted := h.accepted_append nofun }
    · refine h.toRefs.changed hn (Nat.succ_pos _) rfl ?_ ?_
      · dsimp only [runInNet, incRef]
        rw [List.count_append]
        rfl
      · have := h.refs
        simp only [runInNet, incRef, countP_append, List.countP_singleton, NetClosure.Holds] at this ⊢
        simp only [if_true]
        omega
    · show (s.net_queue ++ [_]).countP NetClosure.IsCompletion = _
      rw [countP_append, h.completions]
      rfl

/-- A start finds no importer. -/
theorem Inv.noStart (h : Inv n s g) {auth : AuthorizerRequest} {rest : List MediaClosure}
    (hq : s.media_queue = .startPublishing auth :: rest) :
    Inv (n + 1) (startPublishingHere env auth none { s with media_queue := rest }) .quiet := by
  obtain ⟨rfl, -, hrest⟩ := h.queued hq
  have hrefs := h.toRefs.popMedia hq
  have himp : s.importer_ = none := h.importer
  refine Inv.internalStopInMedia ?_ hrefs.pos false
  refine { h with
    toRefs := ⟨hrefs.refs, hrefs.deletion, hrefs.deleted⟩, closed := fun _ => rfl, opens := ?_, starts := hrest,
    accepted := nofun, unopened := by simp [isPending], opened := nofun, quiet := trivial, ordered := h.ordered }
  rw [himp]
  exact openAfter_false hrest

/-- The media selector runs its next closure. -/
theorem Inv.runMedia (h : Inv 0 s g) {c : MediaClosure} {rest : List MediaClosure} (hq : s.media_queue = c :: rest)
    (hw : s.EosNext → ¬ s.Waiting) (importer : Option ι) :
    ∃ s', runMediaClosure env c importer { s with media_queue := rest } = some s' ∧ ∃ g', Inv 0 s' g' := by
  cases c with
  | startPublishing auth =>
    cases importer with
    | none =>
      obtain ⟨s', hs', hinv⟩ := (h.noStart hq).decRef
      exact ⟨s', hs', _, hinv⟩
    | some i =>
      obtain ⟨s', hs', hinv⟩ := (h.start hq i).decRef
      exact ⟨s', hs', _, hinv⟩
  | sendTag tag ts =>
    have hnext : tag.IsEos → s.EosNext := by
      unfold EosNext
      rw [hq]
      exact id
    obtain ⟨g', hg', -⟩ := h.sendTagHere hq fun htag => hw (hnext htag)
    obtain ⟨s', hs', hinv⟩ := hg'.decRef
    exact ⟨s', hs', g', hinv⟩

/-! ## The network thread -/

variable (tag : Tag) (ts : Int)

section

variable (s : PublishStream ι)

/-- `SendTag` looks at the importer, and changes what it was told, whether it is held and where the stream is attached. -/
theorem sendTagHere_eq :
    PublishStream.sendTagHere tag ts s = { s with
      calls := s.calls ++ s.importer_.toList.map (.processTag · tag ts)
      importer_ := if tag.IsEos then none else s.importer_
      attached := if tag.IsEos then s.importer_.elim s.attached s.attached.erase else s.attached } := by
  rcases eq_none_or_eq_some s.importer_ with himp | ⟨i, himp⟩
  · cases s
    obtain rfl : _ = none := himp
    simp [sendTagHere_none]
  · by_cases htag : tag.IsEos
    · simp [sendTagHere_eos himp htag, himp, htag]
    · simp [sendTagHere_tag himp htag, himp, htag]

@[simp] theorem sendTagHere_media_queue : (PublishStream.sendTagHere tag ts s).media_queue = s.media_queue := by
  rw [sendTagHere_eq]

@[simp] theorem sendTagHere_net_queue : (PublishStream.sendTagHere tag ts s).net_queue = s.net_queue := by
  rw [sendTagHere_eq]

@[simp] theorem sendTagHere_closed : (PublishStream.sendTagHere tag ts s).closed = s.closed := by
  rw [sendTagHere_eq]

theorem sendTagHere_incRef :
    PublishStream.sendTagHere tag ts s.incRef = (PublishStream.sendTagHere tag ts s).incRef := by
  rw [sendTagHere_eq, sendTagHere_eq]
  rfl

end

theorem Inv.released (h : Inv (n + 1) s.incRef g) (hn : 0 < s.ref_count_) : Inv n s g := by
  refine { h with toRefs := h.toRefs.changed h.toRefs.pos hn rfl rfl ?_ }
  have := h.refs
  simp only [incRef] at this
  omega

/-- Where the media selector is the network selector, a queued tag is the one that is sent at once. -/
theorem Inv.sendTag {tag : Tag} {ts : Int} (h : Inv n (runInMedia (.sendTag tag ts) s.incRef) g)
    (hn : 0 < s.ref_count_) (hq : env.one_thread = true → s.media_queue = [])
    (hw : env.one_thread = true → tag.IsEos → ¬ s.Waiting) :
    ∃ g', Inv n (sendTag env tag ts s) g' ∧ (¬ tag.IsEos → g' = g) := by
  unfold PublishStream.sendTag
  split_ifs with hone
  · have hqueue : (runInMedia (.sendTag tag ts) s.incRef).media_queue = [.sendTag tag ts] := by
      show s.media_queue ++ [_] = _
      rw [hq hone, nil_append]
    obtain ⟨g', hg', heq⟩ := h.sendTagHere hqueue (hw hone)
    refine ⟨g', ?_, heq⟩
    have hsame : { runInMedia (.sendTag tag ts) s.incRef with media_queue := [] } = s.incRef := by
      have := hq hone
      cases s
      subst this
      rfl
    rw [hsame, sendTagHere_incRef] at hg'
    refine hg'.released ?_
    rwa [sendTagHere_eq]
  · exact ⟨g, h, fun _ => rfl⟩

/-- `InternalStop` with an EOS, called in the network thread. -/
theorem Inv.internalStop (h : Inv n s g) (hn : 0 < s.ref_count_) (hq : env.one_thread = true → s.media_queue = [])
    (hw : env.one_thread = true → ¬ s.Waiting) (forced : Bool) :
    ∃ g', Inv n (internalStop env true forced s) g' := by
  obtain ⟨g', hg', -⟩ := Inv.sendTag (s := { s with ended := true }) (h.pushEos hn forced 0) hn hq fun hone _ => hw hone
  exact ⟨g', hg'⟩

variable (send_eos forced : Bool)

/-- `InternalStop` changes neither the connection nor, in one thread, the queues. -/
theorem internalStop_closed (s : PublishStream ι) :
    (PublishStream.internalStop env send_eos forced s).closed = s.closed := by
  unfold internalStop internalStopHere sendTag
  split_ifs
  · exact sendTagHere_closed _ _ _
  · rfl
  · rfl

theorem internalStop_ended (s : PublishStream ι) :
    (PublishStream.internalStop env send_eos forced s).ended = true := by
  unfold internalStop internalStopHere sendTag
  split_ifs
  · rw [sendTagHere_eq]
  · rfl
  · rfl

theorem sendTagHere_setClosed (s : PublishStream ι) : PublishStream.sendTagHere tag ts { s with closed := true } =
      { PublishStream.sendTagHere tag ts s with closed := true } := by
  rw [sendTagHere_eq, sendTagHere_eq]

theorem internalStop_setClosed (s : PublishStream ι) :
    PublishStream.internalStop env send_eos forced { s with closed := true } =
      { PublishStream.internalStop env send_eos forced s with closed := true } := by
  unfold internalStop internalStopHere sendTag
  split_ifs
  · exact sendTagHere_setClosed _ _ { s with ended := true }
  · rfl
  · rfl

/-- The connection is closed: the stream is told so, and the connection lets its reference go. -/
theorem Inv.connectionCloseHandler (h : Inv 0 s g) (hc : s.closed = false)
    (hq : env.one_thread = true → s.media_queue = []) (hw : env.one_thread = true → ¬ s.Waiting) :
    ∃ s', connectionCloseHandler env s = some s' ∧ ∃ g', Inv 0 s' g' := by
  obtain ⟨g', hg'⟩ := h.internalStop (h.toRefs.pos_of_open hc) hq hw true
  have hclosed : (PublishStream.internalStop env true true s).closed = false :=
    (internalStop_closed true true s).trans hc
  have hone : Inv 1 { PublishStream.internalStop env true true s with closed := true } g' := by
    refine { hg' with toRefs := ?_, closed := fun _ => internalStop_ended true true s }
    have hpos := hg'.toRefs.pos_of_open hclosed
    refine hg'.toRefs.changed hpos hpos rfl rfl ?_
    have := hg'.refs
    rw [hclosed] at this
    simp only [Bool.toNat_false, Bool.toNat_true] at this ⊢
    omega
  unfold PublishStream.connectionCloseHandler close
  rw [internalStop_setClosed]
  obtain ⟨s', hs', hinv⟩ := hone.decRef
  exact ⟨s', hs', g', hinv⟩

/-! ## Media events -/

/-- A tag is queued while the stream publishes. -/
theorem Inv.pushTag {i : ι} (h : Inv n s (.publishing i)) (hn : 0 < s.ref_count_) {tag : Tag} (htag : ¬ tag.IsEos)
    (ts : Int) {fed : List FlvTag}
    (hord : given s.calls ++ waitingTags (s.media_queue ++ [.sendTag tag ts]) = kept fed) :
    Inv n (runInMedia (.sendTag tag ts) { s with fed := fed }.incRef) (.publishing i) := by
  have hrefs := h.toRefs.runInMedia hn (.sendTag tag ts)
  refine { h with
    toRefs := ⟨hrefs.refs, hrefs.deletion, hrefs.deleted⟩, opens := ?_, starts := ?_, quiet := trivial,
    ordered := hord }
  · show openAfter s.importer_.isSome (s.media_queue ++ [.sendTag tag ts]) = !s.ended
    rw [openAfter_append, h.opens, openAfter_cons, opens_of_not_isEos htag]
    rfl
  · show (s.media_queue ++ [_]).countP IsStart = 0
    rw [countP_append, h.starts]
    rfl

theorem Inv.waitingTags_append {i : ι} (h : Inv n s (.publishing i)) (queue : List MediaClosure) :
    waitingTags (s.media_queue ++ queue) =
      waitingTags s.media_queue ++ if s.ended then [] else waitingTags queue := by
  have hopens := h.opens
  rw [h.importer] at hopens
  rw [waitingTags_append_queue queue h.starts, show openAfter true s.media_queue = !s.ended from hopens]
  cases s.ended <;> rfl

/-- What the loop over the tags of an event keeps. -/
structure Running (env : Surroundings) (n : Nat) (s : PublishStream ι) (i : ι) : Prop extends Inv n s (.publishing i) where
  positive : 0 < s.ref_count_
  direct : env.one_thread = true → s.media_queue = []

theorem Running.sendTag {i : ι} (h : Running env n s i) {tag : Tag} (htag : ¬ tag.IsEos) (ts : Int) {fed : List FlvTag}
    (hord : given s.calls ++ waitingTags (s.media_queue ++ [.sendTag tag ts]) = kept fed) :
    Running env n (sendTag env tag ts { s with fed := fed }) i := by
  obtain ⟨_, hg', heq⟩ := (h.toInv.pushTag h.positive htag ts hord).sendTag h.positive h.direct
    fun _ hn => absurd hn htag
  obtain rfl := heq htag
  refine ⟨hg', ?_, ?_⟩
  · unfold PublishStream.sendTag
    split_ifs
    · rw [sendTagHere_eq]
      exact h.positive
    · exact Nat.succ_pos _
  · intro hone
    unfold PublishStream.sendTag
    rw [if_pos hone, sendTagHere_media_queue]
    exact h.direct hone

/-- Media info on its own does not count among the tags of the client. -/
theorem Running.sendInfo {i : ι} (h : Running env n s i) (metadata : FlvTag) (audio video : Option FlvTag) (ts : Int) :
    Running env n (PublishStream.sendTag env (.mediaInfo metadata audio video) ts s) i := by
  refine Running.sendTag h (by nofun) ts ?_
  have hord : given s.calls ++ waitingTags s.media_queue = kept s.fed := h.ordered
  rw [h.toInv.waitingTags_append, ← hord]
  simp [waitingTags]

theorem kept_append (tags : List FlvTag) (tag : FlvTag) :
    kept (tags ++ [tag]) = kept tags ++ if Eaten tag then [] else [tag] := by
  by_cases h : Eaten tag <;> simp [kept, h]

theorem record_sendTag (tags : List FlvTag) (s : PublishStream ι) : record tags (PublishStream.sendTag env tag ts s) =
      PublishStream.sendTag env tag ts { s with fed := (record tags s).fed } := by
  have hfed : (record tags s).fed = if s.opened ∧ s.ended = false then s.fed ++ tags else s.fed := by
    unfold record
    split_ifs <;> rfl
  rw [hfed]
  unfold sendTag
  split_ifs with hone hcond hcond
  · rw [sendTagHere_eq, sendTagHere_eq]
    exact if_pos hcond
  · rw [sendTagHere_eq]
    exact if_neg hcond
  · exact if_pos hcond
  · exact if_neg hcond

section

variable {i : ι} (h : Running env n s i)

include h

/-- A tag of the client is recorded and sent, or it is metadata, and is only recorded. -/
theorem Running.sendFlv (flv_tag : FlvTag) :
    Running env n (record [flv_tag]
      (if Eaten flv_tag then s else PublishStream.sendTag env (.flv flv_tag) flv_tag.timestamp_ms_ s)) i := by
  have hord : given s.calls ++ waitingTags s.media_queue = kept s.fed := h.ordered
  have hfed : kept (record [flv_tag] s).fed =
      kept s.fed ++ if s.ended then [] else if Eaten flv_tag then [] else [flv_tag] := by
    unfold record
    cases hended : s.ended with
    | true => simp
    | false =>
      rw [if_pos ⟨h.opened i rfl hended, rfl⟩, kept_append]
      simp
  split_ifs with heaten
  · have hsame : record [flv_tag] s = { s with fed := (record [flv_tag] s).fed } := by
      unfold record
      split_ifs <;> rfl
    rw [hsame]
    refine ⟨{ h.toInv with toRefs := ⟨h.refs, h.deletion, h.deleted⟩, ordered := ?_ }, h.positive, h.direct⟩
    show given s.calls ++ waitingTags s.media_queue = kept (record [flv_tag] s).fed
    rw [hfed, hord]
    simp [heaten]
  · rw [record_sendTag]
    refine h.sendTag (by nofun) _ ?_
    rw [hfed, h.toInv.waitingTags_append, ← hord]
    simp [heaten, waitingTags]

/-- What is learned of the media is no matter of the importer. -/
theorem Running.learned (a v : Bool) (fa fv fm : Option FlvTag) (e : Bool) :
    Running env n { s with
      has_audio_ := a, has_video_ := v, first_audio_ := fa, first_video_ := fv, first_metadata_ := fm,
      media_info_extracted_ := e } i :=
  ⟨{ h.toInv with toRefs := ⟨h.refs, h.deletion, h.deleted⟩, ordered := h.ordered }, h.positive, h.direct⟩

theorem Running.noteFirst (flv_tag : FlvTag) : Running env n (noteFirst flv_tag s) i := by
  unfold PublishStream.noteFirst
  split
  · exact h.learned _ _ _ _ _ _
  · exact h.learned _ _ _ _ _ _
  · split_ifs
    · exact h
    · exact h.learned _ _ _ _ _ _

theorem Running.extractMediaInfo : Running env n (extractMediaInfo s).2 i ∧
      ∀ tag, (PublishStream.extractMediaInfo s).1 = some tag → ∃ m a v, tag = .mediaInfo m a v := by
  unfold PublishStream.extractMediaInfo
  split
  · exact ⟨h, by simp⟩
  · split_ifs
    · exact ⟨h.learned _ _ _ _ _ _, fun tag htag => ⟨_, _, _, (Option.some.inj htag).symm⟩⟩
    · exact ⟨h, by simp⟩

theorem Running.learnMediaInfo (flv_tag : FlvTag) : Running env n (learnMediaInfo flv_tag s).2 i ∧
      ∀ tag, (PublishStream.learnMediaInfo flv_tag s).1 = some tag → ∃ m a v, tag = .mediaInfo m a v := by
  unfold PublishStream.learnMediaInfo
  split_ifs
  · exact ⟨h, by simp⟩
  · exact (h.noteFirst flv_tag).extractMediaInfo

/-- One turn of the loop of `ProcessEvent`. -/
theorem Running.processFlvTag (flv_tag : FlvTag) :
    Running env n (record [flv_tag] (processFlvTag env flv_tag s)) i := by
  unfold PublishStream.processFlvTag
  obtain ⟨hlearned, hinfo⟩ := h.learnMediaInfo flv_tag
  generalize PublishStream.learnMediaInfo flv_tag s = learned at hlearned hinfo
  obtain ⟨info, _⟩ := learned
  cases info with
  | none => exact hlearned.sendFlv flv_tag
  | some tag =>
    obtain ⟨m, a, v, rfl⟩ := hinfo tag rfl
    exact (hlearned.sendInfo m a v flv_tag.timestamp_ms_).sendFlv flv_tag

theorem Running.processFlvTags (tags : List FlvTag) :
    Running env n (tags.foldl (fun s flv_tag => record [flv_tag] (PublishStream.processFlvTag env flv_tag s)) s) i := by
  induction tags generalizing s with
  | nil => exact h
  | cons tag tags ih => exact ih (h.processFlvTag tag)

end

/-- Tags that are ignored are not among those that an importer is to be given. -/
theorem Inv.ignore (h : Inv n s g) (hign : s.importer_.isNone = true ∨ s.pending_start_ = true) (tags : List FlvTag) :
    record tags s = s := by
  refine if_neg fun ⟨hopened, hended⟩ => ?_
  have hopens := h.opens
  rw [h.importer, hended] at hopens
  rw [h.importer, h.pending] at hign
  have hstarts := h.starts
  cases g with
  | quiet => simp [Stage.importer, openAfter_false hstarts] at hopens
  | queued => exact absurd ((h.unopened (.inr rfl)).symm.trans hopened) Bool.false_ne_true
  | pending i | stopped i => exact absurd ((h.unopened (.inl rfl)).symm.trans hopened) Bool.false_ne_true
  | answered on => exact absurd ((h.unopened (.inl rfl)).symm.trans hopened) Bool.false_ne_true
  | publishing i => simp [Stage.importer, isPending] at hign

/-! ## Requests of the client -/

/-- A start is queued. -/
theorem Inv.pushStart (h : Inv n s .quiet) (hn : 0 < s.ref_count_) (hc : s.closed = false) (auth : AuthorizerRequest) (command : Bytes) :
    Inv n (runInMedia (.startPublishing auth)
      { s with publish_command_ := command, opened := false, ended := false }.incRef) .queued := by
  have hrefs := h.toRefs.runInMedia hn (.startPublishing auth)
  refine { h with
    toRefs := ⟨hrefs.refs, hrefs.deletion, hrefs.deleted⟩, closed := ?_, opens := ?_, starts := ?_, accepted := nofun,
    unopened := fun _ => rfl, opened := nofun, quiet := SilentBehind.append_start h.starts auth, ordered := h.ordered }
  · intro hclosed
    exact absurd (hc.symm.trans hclosed) Bool.false_ne_true
  · show openAfter s.importer_.isSome (s.media_queue ++ [_]) = !false
    rw [openAfter_append]
    rfl
  · show (s.media_queue ++ [_]).countP IsStart = 1
    rw [countP_append, h.starts]
    rfl

theorem internalStopInMedia_incRef (s : PublishStream ι) :
    PublishStream.internalStopInMedia env false forced s.incRef =
      (PublishStream.internalStopInMedia env false forced s).incRef := by
  unfold internalStopInMedia
  split_ifs <;> rfl

theorem startPublishingHere_incRef (auth : AuthorizerRequest) (importer : Option ι) (s : PublishStream ι) :
    startPublishingHere env auth importer s.incRef = (startPublishingHere env auth importer s).incRef := by
  cases importer with
  | none => exact internalStopInMedia_incRef false s
  | some i => rfl

theorem internalStopInMedia_positive (hn : 0 < s.ref_count_) (forced : Bool) :
    0 < (PublishStream.internalStopInMedia env false forced s).ref_count_ := by
  unfold internalStopInMedia
  split_ifs
  · exact hn
  · exact Nat.succ_pos _

/-- A good `publish` of a quiet stream. -/
theorem Inv.startPublishing (h : Inv n s .quiet) (hn : 0 < s.ref_count_) (hc : s.closed = false)
    (hq : env.one_thread = true → s.media_queue = []) (auth : AuthorizerRequest) (command : Bytes)
    (importer : Option ι) :
    ∃ g', Inv n (startPublishing env auth importer
      { s with publish_command_ := command, opened := false, ended := false }) g' := by
  have hpush := h.pushStart hn hc auth command
  unfold PublishStream.startPublishing
  split_ifs with hone
  · have hqueue : (runInMedia (.startPublishing auth)
        { s with publish_command_ := command, opened := false, ended := false }.incRef).media_queue =
          [.startPublishing auth] := by
      show s.media_queue ++ [_] = _
      rw [hq hone, nil_append]
    have hsame : { runInMedia (.startPublishing auth)
        { s with publish_command_ := command, opened := false, ended := false }.incRef with media_queue := [] } =
          { s with publish_command_ := command, opened := false, ended := false }.incRef := by
      have := hq hone
      cases s
      subst this
      rfl
    cases importer with
    | none =>
      have hstart : Inv _ (startPublishingHere env _ none _) .quiet := hpush.noStart hqueue
      rw [hsame, startPublishingHere_incRef] at hstart
      exact ⟨_, hstart.released (by exact internalStopInMedia_positive (by exact hn) false)⟩
    | some i =>
      have hstart : Inv _ (startPublishingHere env _ (some i) _) (.pending i) := hpush.start hqueue i
      rw [hsame, startPublishingHere_incRef] at hstart
      exact ⟨_, hstart.released (Nat.succ_pos _)⟩
  · exact ⟨_, hpush⟩

/-- While no start is queued and none is to be answered, a stream without an importer is quiet. -/
theorem Inv.quiet_of_not_inFlight (h : Inv n s g) (himp : s.importer_ = none) (hfly : ¬ s.InFlight) : g = .quiet := by
  have hi := himp.symm.trans h.importer
  simp only [InFlight, not_or, not_not] at hfly
  obtain ⟨hstart, -, hdropped, hcompletion⟩ := hfly
  cases g with
  | quiet => rfl
  | queued =>
    have hstarts : s.media_queue.countP IsStart = 1 := h.starts
    refine absurd ?_ hstart
    obtain ⟨c, hc, hs⟩ := countP_pos_iff.1 (hstarts ▸ Nat.one_pos)
    exact any_eq_true.2 ⟨c, hc, hs⟩
  | pending i => cases hi
  | stopped i => cases h.dropped.symm.trans hdropped
  | answered on =>
    have hcompletions : s.net_queue.countP IsCompletion = 1 := h.completions
    refine absurd ?_ hcompletion
    obtain ⟨c, hc, hs⟩ := countP_pos_iff.1 (hcompletions ▸ Nat.one_pos)
    exact any_eq_true.2 ⟨c, hc, hs⟩
  | publishing i => cases hi

/-- The publish command is no matter of the invariant. -/
theorem Inv.command (h : Inv n s g) (command : Bytes) : Inv n { s with publish_command_ := command } g :=
  { h with toRefs := ⟨h.refs, h.deletion, h.deleted⟩, ordered := h.ordered }

/-- An event of the client, and the end of the connection where it is refused. -/
theorem Inv.event (h : Inv 0 s g) (hq : env.one_thread = true → s.media_queue = []) (hc : s.closed = false)
    (event : Event) (timestamp_ms : Int) (importer : Option ι)
    (hcareful : Careful env s (.event event timestamp_ms importer)) :
    ∃ s', step env s (.event event timestamp_ms importer) = some s' ∧ ∃ g', Inv 0 s' g' := by
  obtain ⟨hfly, hwait⟩ := hcareful
  have hn := h.toRefs.pos_of_open hc
  -- Where the client is refused, the connection is closed.
  have hrefused : ∀ command : Bytes, (env.one_thread = true → ¬ s.Waiting) →
      ∃ s', PublishStream.connectionCloseHandler env { s with publish_command_ := command } = some s' ∧
        ∃ g', Inv 0 s' g' := fun command hw => (h.command command).connectionCloseHandler hc hq hw
  unfold step
  dsimp only
  rw [if_neg (by simp [hc])]
  unfold processEvent
  split_ifs with hpublish hunpublish hignored
  · have hw : env.one_thread = true → ¬ s.Waiting := fun hone => hwait hone (.inl hpublish)
    unfold invokePublish
    split_ifs with hbusy
    · exact hrefused s.publish_command_ hw
    · cases hreq : publishRequest env event.body with
      | none => exact hrefused _ hw
      | some req =>
        obtain ⟨auth, command⟩ := req
        have himp : s.importer_ = none := by simpa using hbusy
        obtain rfl := h.quiet_of_not_inFlight himp (hfly hpublish (by rw [hreq]; rfl) (by rw [himp]; rfl))
        obtain ⟨g', hg'⟩ := h.startPublishing hn hc hq auth command importer
        exact ⟨_, rfl, g', hg'⟩
  · have hw : env.one_thread = true → ¬ s.Waiting := fun hone => hwait hone (.inr hunpublish)
    unfold invokeUnpublish
    split_ifs with hidle hbad
    · exact hrefused s.publish_command_ hw
    · exact hrefused s.publish_command_ hw
    · obtain ⟨g', hg'⟩ := h.internalStop hn hq hw false
      exact ⟨_, rfl, g', hg'⟩
  · refine ⟨_, rfl, g, ?_⟩
    rw [h.ignore hignored]
    exact h
  · have hg : ∃ i, g = .publishing i := by
      rw [h.importer, h.pending] at hignored
      cases g with
      | publishing i => exact ⟨i, rfl⟩
      | _ => simp [Stage.importer, isPending] at hignored
    obtain ⟨i, rfl⟩ := hg
    have hrun : Running env 0 s i := ⟨h, hn, hq⟩
    exact ⟨_, rfl, _, (hrun.processFlvTags (extractFlvTags event timestamp_ms)).toInv⟩

/-! ## Answers of the importer -/

/-- Where a stream is when its start has been completed. -/
def Stage.completed : Option ι → Stage ι
  | some i => .publishing i
  | none => .quiet

section

variable {success : Bool} {rest : List NetClosure}

theorem Inv.answered (h : Inv n s g)
    (hq : s.net_queue = .startCompleted success :: rest) : ∃ on, g = .answered on ∧ (success = false → on = none) := by
  have hcompletions := h.completions
  rw [hq, countP_cons_of_pos rfl] at hcompletions
  cases g with
  | answered on =>
    refine ⟨on, rfl, fun hs => ?_⟩
    cases on with
    | none => rfl
    | some i =>
      refine absurd ?_ (h.accepted i rfl)
      rw [hq, hs]
      exact mem_cons_self
  | _ => cases hcompletions

/-- The answer of the importer has arrived. -/
theorem Inv.complete (h : Inv n s g) {on : Option ι}
    (hq : s.net_queue = .startCompleted success :: rest) (hg : g = .answered on) (opened : Bool)
    (hopened : on.isSome = true → s.ended = false → opened = true) :
    Inv (n + 1) { s with net_queue := rest, pending_start_ := false, opened := opened } (Stage.completed on) := by
  subst hg
  have hrefs := h.toRefs.popNet hq (by nofun)
  have hcompletions := h.completions
  have hstops := h.stops
  rw [hq, countP_cons_of_pos rfl] at hcompletions
  simp only [hq, mem_cons, not_or] at hstops
  cases on with
  | none =>
    exact { h with
      toRefs := ⟨hrefs.refs, hrefs.deletion, hrefs.deleted⟩, stops := fun forced => (hstops forced).2,
      completions := Nat.succ.inj hcompletions, accepted := nofun, pending := rfl,
      unopened := by simp [completed, isPending], opened := nofun, quiet := trivial,
      ordered := h.ordered }
  | some i =>
    exact { h with
      toRefs := ⟨hrefs.refs, hrefs.deletion, hrefs.deleted⟩, stops := fun forced => (hstops forced).2,
      completions := Nat.succ.inj hcompletions, accepted := nofun, pending := rfl,
      unopened := by simp [completed, isPending], opened := fun _ _ => hopened rfl, quiet := trivial,
      ordered := h.ordered }

/-- `StartCompleted` in the network thread. -/
theorem Inv.startCompletedHere (h : Inv 0 s g)
    (hq : s.net_queue = .startCompleted success :: rest) (hm : env.one_thread = true → s.media_queue = []) :
    ∃ s', startCompletedHere env success { s with net_queue := rest } = some s' ∧ ∃ g', Inv 0 s' g' := by
  obtain ⟨_, rfl, hon⟩ := h.answered hq
  have howed : s.owed = [] := h.owed
  unfold PublishStream.startCompletedHere
  dsimp only
  split_ifs with hclosed hfailed
  · have hbase := h.complete hq rfl s.opened fun _ hended => by simp [h.closed hclosed] at hended
    obtain ⟨g', hg'⟩ := hbase.internalStop hbase.toRefs.pos hm
      (fun _ hw => hw.2 howed) false
    obtain ⟨s', hs', hinv⟩ := hg'.decRef
    exact ⟨s', hs', g', hinv⟩
  · -- Only an importer that has stopped the publisher refuses it.
    obtain rfl := hon hfailed
    have hbase := h.complete hq rfl s.opened (by nofun)
    have hended : Inv 1 { s with net_queue := rest, pending_start_ := false, ended := true } .quiet :=
      { hbase with
        toRefs := ⟨hbase.refs, hbase.deletion, hbase.deleted⟩, closed := fun _ => rfl, opened := nofun,
        opens := by
          have himp : s.importer_ = none := h.importer
          rw [himp]
          exact openAfter_false h.starts
        ordered := hbase.ordered }
    obtain ⟨s', hs', hinv⟩ := hended.decRef
    exact ⟨s', hs', _, hinv⟩
  · have hbase := h.complete hq rfl true fun _ _ => rfl
    obtain ⟨s', hs', hinv⟩ := hbase.decRef
    exact ⟨s', hs', _, hinv⟩

end

/-- With the last reference, the importer has been left. -/
theorem Inv.left (h : Inv 0 s g) (hr : s.ref_count_ = 0) : g = .quiet := by
  have hrefs := h.refs
  have hclosed : s.closed = true := by
    cases hc : s.closed with
    | true => rfl
    | false => simp [hc] at hrefs; omega
  have hbool : s.closed.toNat = 1 := by rw [hclosed]; rfl
  have hqueue : s.media_queue = [] := List.length_eq_zero_iff.1 (by omega)
  have hopens := h.opens
  have hstarts := h.starts
  have howed := h.owed
  have hdropped := h.dropped
  have hcompletions := h.completions
  rw [h.closed hclosed, hqueue, h.importer] at hopens
  rw [hqueue] at hstarts
  rw [List.length_eq_zero_iff.1 (show s.owed.length = 0 by omega)] at howed
  rw [List.length_eq_zero_iff.1 (show s.dropped.length = 0 by omega)] at hdropped
  cases g with
  | quiet => rfl
  | queued => cases hstarts
  | pending i => cases howed
  | stopped i => cases hdropped
  | publishing i => cases hopens
  | answered on =>
    -- A completion holds a reference.
    have hle : s.net_queue.countP IsCompletion ≤ s.net_queue.countP Holds := by
      refine List.countP_mono_left fun c _ hc => ?_
      cases c with
      | deleteStream => cases hc
      | _ => rfl
    rw [hcompletions] at hle
    simp only [Stage.completions] at hle
    omega

/-- The network selector runs its next closure. -/
theorem Inv.runNet (h : Inv 0 s g) {c : NetClosure} {rest : List NetClosure} (hq : s.net_queue = c :: rest)
    (hm : env.one_thread = true → s.media_queue = []) :
    ∃ s', runNetClosure env c { s with net_queue := rest } = some s' ∧ ∃ g', Inv 0 s' g' := by
  cases c with
  | startCompleted success => exact h.startCompletedHere hq hm
  | internalStop send_eos forced =>
    have hstops := h.stops
    obtain rfl : send_eos = false := by
      cases send_eos with
      | false => rfl
      | true => exact absurd (hq ▸ mem_cons_self) (hstops forced)
    simp only [hq, mem_cons, not_or] at hstops
    have hrefs := h.toRefs.popNet hq (by nofun)
    have hcompletions := h.completions
    have haccepted := h.accepted
    rw [hq, countP_cons_of_neg (by nofun)] at hcompletions
    simp only [hq, mem_cons, not_or] at haccepted
    have hpop : Inv 1 { s with net_queue := rest } g := { h with
      toRefs := ⟨hrefs.refs, hrefs.deletion, hrefs.deleted⟩, stops := fun forced => (hstops forced).2,
      completions := hcompletions, accepted := fun i hi => (haccepted i hi).2, ordered := h.ordered }
    obtain ⟨s', hs', hinv⟩ := hpop.decRef
    exact ⟨s', hs', g, hinv⟩
  | deleteStream =>
    have hdeletion := h.deletion
    rw [hq, count_cons_self] at hdeletion
    have hzero : s.ref_count_ = 0 ∧ s.deleted = false := by
      by_contra hne
      rw [if_neg hne] at hdeletion
      cases hdeletion
    obtain rfl := h.left hzero.1
    have himp : s.importer_ = none := h.importer
    refine ⟨_, if_pos ⟨by rw [himp]; rfl, hzero.1⟩, .quiet, ?_⟩
    have hrefs := h.refs
    have hstops := h.stops
    have hcompletions := h.completions
    rw [hq, countP_cons_of_neg (by nofun)] at hrefs hcompletions
    simp only [hq, mem_cons, not_or] at hstops
    rw [if_pos hzero] at hdeletion
    exact { h with
      toRefs := ⟨hrefs, by rw [if_neg (by simp)]; exact Nat.succ.inj hdeletion, fun _ => hzero.1⟩
      stops := fun forced => (hstops forced).2, completions := hcompletions, accepted := nofun,
      ordered := h.ordered }

/-- `StartCompleted`, called in the media thread: the answer has been noted. -/
theorem Inv.startCompleted {t : PublishStream ι} {success : Bool}
    (h : Inv 0 (runInNet (.startCompleted success) t) g) (hnet : env.one_thread = true → t.net_queue = [])
    (hm : env.one_thread = true → t.media_queue = []) :
    ∃ s', startCompleted env success t = some s' ∧ ∃ g', Inv 0 s' g' := by
  unfold PublishStream.startCompleted
  split_ifs with hone
  · have hqueue : (runInNet (.startCompleted success) t).net_queue = [.startCompleted success] := by
      show t.net_queue ++ [_] = _
      rw [hnet hone, nil_append]
    obtain ⟨s', hs', hinv⟩ := h.startCompletedHere hqueue hm
    refine ⟨s', ?_, hinv⟩
    rw [← hs']
    have := hnet hone
    cases t
    subst this
    rfl
  · exact ⟨_, rfl, g, h⟩

/-- In one thread no closure waits but for the deletion. -/
structure Direct (env : Surroundings) (s : PublishStream ι) : Prop where
  media : env.one_thread = true → s.media_queue = []
  net : env.one_thread = true → ∀ c ∈ s.net_queue, c = .deleteStream

/-- The importer accepts the publisher. -/
theorem Inv.accept {i : ι} (h : Inv 0 s (.pending i)) :
    Inv 0 (runInNet (.startCompleted true) { s with
      owed := s.owed.erase i, attached := s.attached ++ [i], calls := s.calls ++ [.startCompleted i true] })
      (.answered (some i)) := by
  have howed : s.owed = [i] := h.owed
  have hattached : s.attached = [] := h.attached
  have hrefs := h.refs
  have hcompletions : s.net_queue.countP NetClosure.IsCompletion = 0 := h.completions
  have hpos : 0 < s.ref_count_ := by
    rw [howed] at hrefs
    cases hc : s.closed <;> simp [hc] at hrefs <;> omega
  refine { h with
    toRefs := ?_, stops := h.stops_append nofun, completions := ?_, accepted := ?_, owed := ?_, attached := ?_, phase := ?_,
    opened := nofun, unopened := fun _ => h.unopened (.inl rfl), ordered := ?_ }
  · refine h.toRefs.changed hpos hpos rfl ?_ ?_
    · show (s.net_queue ++ [_]).count _ = _
      rw [List.count_append]
      rfl
    · simp only [runInNet, countP_append, List.countP_singleton, NetClosure.Holds, howed, erase_cons_head,
        length_nil, length_singleton] at hrefs ⊢
      simp only [if_true]
      omega
  · show (s.net_queue ++ [_]).countP NetClosure.IsCompletion = 1
    rw [countP_append, hcompletions]
    rfl
  · intro j _ hmem
    rcases mem_append.1 hmem with hmem | hmem
    · exact List.countP_eq_zero.1 hcompletions _ hmem rfl
    · cases mem_singleton.1 hmem
  · show s.owed.erase i = []
    rw [howed]
    simp
  · show s.attached ++ [i] = [i]
    rw [hattached, nil_append]
  · exact run_append_eq_some.2 ⟨_, h.phase, by simp [Phase.next, Stage.phase, run_cons]⟩
  · have hord : given s.calls ++ waitingTags s.media_queue = kept s.fed := h.ordered
    show given (s.calls ++ [_]) ++ waitingTags s.media_queue = kept s.fed
    rw [given_append]
    exact hord

/-- The importer that has stopped the publisher answers its start. -/
theorem Inv.answerStopped {i : ι} (h : Inv 0 s (.stopped i)) (success : Bool) :
    Inv 0 (runInNet (.startCompleted success) { s with
      dropped := s.dropped.erase i, calls := s.calls ++ [.startCompleted i success] }) (.answered none) := by
  have hdropped : s.dropped = [i] := h.dropped
  have hrefs := h.refs
  have hcompletions : s.net_queue.countP NetClosure.IsCompletion = 0 := h.completions
  have hpos : 0 < s.ref_count_ := by
    rw [hdropped] at hrefs
    cases hc : s.closed <;> simp [hc] at hrefs <;> omega
  refine { h with
    toRefs := ?_, stops := h.stops_append nofun, completions := ?_, accepted := nofun, dropped := ?_, phase := ?_,
    opened := nofun, unopened := fun _ => h.unopened (.inl rfl), ordered := ?_ }
  · refine h.toRefs.changed hpos hpos rfl ?_ ?_
    · show (s.net_queue ++ [_]).count _ = _
      rw [List.count_append]
      rfl
    · simp only [runInNet, countP_append, List.countP_singleton, NetClosure.Holds, hdropped,
        erase_cons_head, length_nil, length_singleton] at hrefs ⊢
      simp only [if_true]
      omega
  · show (s.net_queue ++ [_]).countP NetClosure.IsCompletion = 1
    rw [countP_append, hcompletions]
    rfl
  · show s.dropped.erase i = []
    rw [hdropped]
    simp
  · exact run_append_eq_some.2 ⟨_, h.phase, by simp [Phase.next, Stage.phase, run_cons]⟩
  · have hord : given s.calls ++ waitingTags s.media_queue = kept s.fed := h.ordered
    have hsilent : Silent s.media_queue := h.quiet
    rw [hsilent.waitingTags_eq, List.append_nil] at hord
    have hgiven : given (s.calls ++ [Call.startCompleted i success]) = given s.calls := given_append _ _
    refine ⟨?_, fun _ _ _ _ => ?_⟩
    · show given (s.calls ++ [_]) <+: kept s.fed
      rw [hgiven, hord]
    · show given (s.calls ++ [_]) = kept s.fed
      rw [hgiven, hord]

theorem Inv.pending_of_mem {i : ι} (h : Inv n s g) (hi : i ∈ s.owed) : g = .pending i := by
  rw [h.owed] at hi
  cases g with
  | pending j => rw [mem_singleton.1 hi]
  | _ => cases hi

theorem Inv.stopped_of_mem {i : ι} (h : Inv n s g) (hi : i ∈ s.dropped) : g = .stopped i := by
  rw [h.dropped] at hi
  cases g with
  | stopped j => rw [mem_singleton.1 hi]
  | _ => cases hi

theorem Inv.positive_of_mem {i : ι} (h : Inv n s g) (hi : i ∈ s.owed ∨ i ∈ s.dropped) : 0 < s.ref_count_ := by
  have hrefs := h.refs
  have hlen : 0 < s.owed.length + s.dropped.length := by
    rcases hi with hi | hi
    · exact Nat.add_pos_left (length_pos_of_mem hi) _
    · exact Nat.add_pos_right _ (length_pos_of_mem hi)
  cases hc : s.closed <;> simp [hc] at hrefs <;> omega

/-- An importer answers a start. -/
theorem Inv.importerCompletes (h : Inv 0 s g) (hdirect : Direct env s) (i : ι) (success : Bool)
    (hcareful : Careful env s (.importerCompletes i success)) :
    ∃ s', step env s (.importerCompletes i success) = some s' ∧ ∃ g', Inv 0 s' g' := by
  unfold step
  dsimp only
  by_cases howed : i ∈ s.owed
  · have hpos := h.positive_of_mem (.inl howed)
    obtain rfl : success = true := hcareful howed
    obtain rfl := h.pending_of_mem howed
    rw [if_pos howed, if_neg (by simp [h.toRefs.alive hpos])]
    exact h.accept.startCompleted (fun hone => h.toRefs.no_closure hpos (hdirect.net hone)) hdirect.media
  · rw [if_neg howed]
    by_cases hdropped : i ∈ s.dropped
    · have hpos := h.positive_of_mem (.inr hdropped)
      obtain rfl := h.stopped_of_mem hdropped
      rw [if_pos hdropped, if_neg (by simp [h.toRefs.alive hpos])]
      exact (h.answerStopped success).startCompleted (fun hone => h.toRefs.no_closure hpos (hdirect.net hone))
        hdirect.media
    · rw [if_neg hdropped]
      exact ⟨s, rfl, g, h⟩

/-- Before it has answered, the importer stops the publisher. -/
theorem Inv.stopPending {i : ι} (h : Inv 0 s (.pending i)) :
    Inv 0 { s with
      owed := s.owed.erase i, dropped := s.dropped ++ [i], calls := s.calls ++ [.stop i], importer_ := none,
      ended := true } (.stopped i) := by
  have howed : s.owed = [i] := h.owed
  have hdropped : s.dropped = [] := h.dropped
  have hpos := h.positive_of_mem (i := i) (.inl (by simp [howed]))
  have hrefs := h.refs
  refine { h with
    toRefs := ?_, closed := fun _ => rfl, opens := openAfter_false h.starts, accepted := nofun, importer := rfl,
    owed := ?_, dropped := ?_, phase := ?_, unopened := fun _ => h.unopened (.inl rfl), opened := nofun, ordered := ?_ }
  · refine h.toRefs.changed hpos hpos rfl rfl ?_
    simp only [howed, hdropped, erase_cons_head, nil_append, length_nil,
      length_singleton] at hrefs ⊢
    omega
  · show s.owed.erase i = []
    rw [howed]
    simp
  · show s.dropped ++ [i] = [i]
    rw [hdropped, nil_append]
  · exact run_append_eq_some.2 ⟨_, h.phase, by simp [Phase.next, Stage.phase, run_cons]⟩
  · have hord : given s.calls ++ waitingTags s.media_queue = kept s.fed := h.ordered
    show given (s.calls ++ [_]) ++ waitingTags s.media_queue = kept s.fed
    rw [given_append]
    exact hord

/-- The importer that holds the publisher stops it. -/
theorem Inv.stopAttached {i : ι} (h : Inv 0 s g) (hpos : 0 < s.ref_count_) {g' : Stage ι}
    (hg : g = .answered (some i) ∧ g' = .answered none ∨ g = .publishing i ∧ g' = .quiet) :
    Inv 0 { s with
      attached := s.attached.erase i, calls := s.calls ++ [.stop i], importer_ := none, ended := true } g' := by
  have hrefs : Refs 0 { s with
      attached := s.attached.erase i, calls := s.calls ++ [.stop i], importer_ := none, ended := true } :=
    h.toRefs.changed hpos hpos rfl rfl h.refs
  have hgiven : given (s.calls ++ [Call.stop i]) = given s.calls := given_append _ _
  have hstop : given s.calls ++ waitingTags s.media_queue = kept s.fed →
      given (s.calls ++ [Call.stop i]) <+: kept s.fed ∧
      ∀ j forced ts, (s.calls ++ [Call.stop i]).getLast? = some (.processTag j (.eos forced) ts) →
        given (s.calls ++ [Call.stop i]) = kept s.fed := by
    intro hord
    rw [hgiven, ← hord]
    refine ⟨prefix_append _ _, fun j forced ts hlast => ?_⟩
    rw [getLast?_concat] at hlast
    cases hlast
  have hattached : s.attached = [i] → s.attached.erase i = [] := fun heq => by simp [heq]
  rcases hg with ⟨rfl, rfl⟩ | ⟨rfl, rfl⟩
  · exact { h with
      toRefs := hrefs, closed := fun _ => rfl, opens := openAfter_false h.starts, accepted := nofun, importer := rfl,
      attached := hattached h.attached, unopened := fun _ => h.unopened (.inl rfl), opened := nofun,
      phase := run_append_eq_some.2 ⟨_, h.phase, by simp [Phase.next, Stage.phase, run_cons]⟩,
      ordered := hstop h.ordered }
  · exact { h with
      toRefs := hrefs, closed := fun _ => rfl, opens := openAfter_false h.starts, accepted := nofun, importer := rfl,
      pending := h.pending, attached := hattached h.attached, unopened := by simp [isPending], opened := nofun,
      phase := run_append_eq_some.2 ⟨_, h.phase, by simp [Phase.next, Stage.phase, run_cons]⟩,
      quiet := trivial, ordered := hstop h.ordered }

/-- An importer that holds the publisher holds a stream that is there. -/
theorem Inv.positive_of_attached {i : ι} (h : Inv 0 s g) (hi : i ∈ s.attached) :
    0 < s.ref_count_ ∧ (g = .answered (some i) ∨ g = .publishing i) := by
  rw [h.attached] at hi
  have hg : g = .answered (some i) ∨ g = .publishing i := by
    cases g with
    | answered on =>
      cases on with
      | none => cases hi
      | some j => exact .inl (by rw [mem_singleton.1 hi])
    | publishing j => exact .inr (by rw [mem_singleton.1 hi])
    | _ => cases hi
  refine ⟨Nat.pos_of_ne_zero fun hzero => ?_, hg⟩
  have hquiet := h.left hzero
  rcases hg with rfl | rfl <;> cases hquiet

/-- An importer stops the publisher. -/
theorem Inv.importerStops (h : Inv 0 s g) (i : ι) :
    ∃ s', step env s (.importerStops i) = some s' ∧ ∃ g', Inv 0 s' g' := by
  unfold step
  dsimp only
  by_cases howed : i ∈ s.owed
  · have hpos := h.positive_of_mem (.inl howed)
    obtain rfl := h.pending_of_mem howed
    rw [if_pos howed, if_neg (by simp [h.toRefs.alive hpos])]
    exact ⟨_, rfl, _, Inv.internalStopInMedia h.stopPending (by exact hpos) true⟩
  · rw [if_neg howed]
    by_cases hattached : i ∈ s.attached
    · obtain ⟨hpos, hg⟩ := h.positive_of_attached hattached
      rw [if_pos hattached, if_neg (by simp [h.toRefs.alive hpos])]
      rcases hg with hg | hg
      · exact ⟨_, rfl, _, Inv.internalStopInMedia (h.stopAttached hpos (.inl ⟨hg, rfl⟩)) (by exact hpos) true⟩
      · exact ⟨_, rfl, _, Inv.internalStopInMedia (h.stopAttached hpos (.inr ⟨hg, rfl⟩)) (by exact hpos) true⟩
    · rw [if_neg hattached]
      exact ⟨s, rfl, g, h⟩

/-- Every step that is taken with care is possible and keeps the invariant. -/
theorem Inv.step (h : Inv 0 s g) (hdirect : Direct env s) (input : Input ι) (hcareful : Careful env s input) :
    ∃ s', step env s input = some s' ∧ ∃ g', Inv 0 s' g' := by
  cases input with
  | event event timestamp_ms importer =>
    cases hc : s.closed with
    | false => exact h.event hdirect.media hc event timestamp_ms importer hcareful
    | true => exact ⟨s, by unfold PublishStream.step; simp [hc], g, h⟩
  | deleteStream =>
    cases hc : s.closed with
    | false =>
      obtain ⟨g', hg'⟩ := h.internalStop (h.toRefs.pos_of_open hc) hdirect.media hcareful true
      exact ⟨_, by unfold PublishStream.step; simp [hc]; rfl, g', hg'⟩
    | true => exact ⟨s, by unfold PublishStream.step; simp [hc], g, h⟩
  | connectionClosed =>
    cases hc : s.closed with
    | false =>
      obtain ⟨s', hs', hinv⟩ := h.connectionCloseHandler hc hdirect.media hcareful
      exact ⟨s', by unfold PublishStream.step; simpa [hc] using hs', hinv⟩
    | true => exact ⟨s, by unfold PublishStream.step; simp [hc], g, h⟩
  | runNet =>
    unfold PublishStream.step
    cases hq : s.net_queue with
    | nil => exact ⟨s, rfl, g, h⟩
    | cons c rest =>
      dsimp only
      rw [if_neg (by simp [h.toRefs.alive_of_net hq])]
      exact h.runNet hq hdirect.media
  | runMedia importer =>
    unfold PublishStream.step
    cases hq : s.media_queue with
    | nil => exact ⟨s, rfl, g, h⟩
    | cons c rest =>
      dsimp only
      rw [if_neg (by simp [h.toRefs.alive_of_media hq])]
      exact h.runMedia hq hcareful importer
  | importerCompletes i success => exact h.importerCompletes hdirect i success hcareful
  | importerStops i => exact h.importerStops i

/-! ## One thread -/

/-- No closure waits but for the deletion. -/
def NothingWaits (s : PublishStream ι) : Prop := s.media_queue = [] ∧ ∀ c ∈ s.net_queue, c = .deleteStream

omit [DecidableEq ι] in
theorem NothingWaits.decRef {s' : PublishStream ι} (h : NothingWaits s) (hs : PublishStream.decRef s = some s') :
    NothingWaits s' := by
  unfold PublishStream.decRef at hs
  split_ifs at hs with hzero hone
  · obtain rfl := Option.some.inj hs
    refine ⟨h.1, fun c hc => ?_⟩
    rcases mem_append.1 hc with hc | hc
    · exact h.2 c hc
    · exact mem_singleton.1 hc
  · obtain rfl := Option.some.inj hs
    exact h

theorem NothingWaits.sendTagHere (h : NothingWaits s) (tag : Tag) (ts : Int) :
    NothingWaits (PublishStream.sendTagHere tag ts s) :=
  ⟨(sendTagHere_media_queue tag ts s).trans h.1, by rw [sendTagHere_net_queue]; exact h.2⟩

variable (hone : env.one_thread = true)
include hone

section

variable (h : NothingWaits s)

include h

theorem NothingWaits.sendTag (tag : Tag) (ts : Int) : NothingWaits (PublishStream.sendTag env tag ts s) := by
  unfold PublishStream.sendTag
  rw [if_pos hone]
  exact h.sendTagHere tag ts

theorem NothingWaits.internalStop (send_eos forced : Bool) :
    NothingWaits (PublishStream.internalStop env send_eos forced s) := by
  unfold PublishStream.internalStop internalStopHere
  split_ifs
  · exact NothingWaits.sendTag hone (by exact h) _ _
  · exact h

theorem NothingWaits.internalStopInMedia (send_eos forced : Bool) :
    NothingWaits (PublishStream.internalStopInMedia env send_eos forced s) := by
  unfold PublishStream.internalStopInMedia
  rw [if_pos hone]
  exact h.internalStop hone send_eos forced

theorem NothingWaits.startPublishing (auth : AuthorizerRequest) (importer : Option ι) :
    NothingWaits (PublishStream.startPublishing env auth importer s) := by
  unfold PublishStream.startPublishing
  rw [if_pos hone]
  cases importer with
  | none => exact h.internalStopInMedia hone false false
  | some i => exact h

theorem NothingWaits.startCompletedHere {s' : PublishStream ι} {success : Bool}
    (hs : PublishStream.startCompletedHere env success s = some s') : NothingWaits s' := by
  unfold PublishStream.startCompletedHere at hs
  dsimp only at hs
  split_ifs at hs
  · exact (NothingWaits.internalStop hone (by exact h) true false).decRef hs
  · exact (NothingWaits.internalStop hone (by exact h) false false).decRef hs
  · exact NothingWaits.decRef (by exact h) hs

theorem NothingWaits.startCompleted {s' : PublishStream ι} {success : Bool}
    (hs : PublishStream.startCompleted env success s = some s') : NothingWaits s' := by
  unfold PublishStream.startCompleted at hs
  rw [if_pos hone] at hs
  exact h.startCompletedHere hone hs

theorem NothingWaits.connectionCloseHandler {s' : PublishStream ι}
    (hs : PublishStream.connectionCloseHandler env s = some s') : NothingWaits s' :=
  (NothingWaits.internalStop hone (by exact h) true true).decRef hs

end

omit [DecidableEq ι] hone in
theorem NothingWaits.record (h : NothingWaits s) (tags : List FlvTag) : NothingWaits (record tags s) := by
  unfold PublishStream.record
  split_ifs <;> exact h

omit [DecidableEq ι] hone in
theorem NothingWaits.learnMediaInfo (h : NothingWaits s) (flv_tag : FlvTag) :
    NothingWaits (learnMediaInfo flv_tag s).2 := by
  have hnote : NothingWaits (noteFirst flv_tag s) := by
    unfold noteFirst
    split
    · exact h
    · exact h
    · split_ifs <;> exact h
  unfold PublishStream.learnMediaInfo
  split_ifs
  · exact h
  · unfold extractMediaInfo
    split
    · exact hnote
    · split_ifs <;> exact hnote

theorem NothingWaits.processFlvTag (h : NothingWaits s) (flv_tag : FlvTag) :
    NothingWaits (PublishStream.record [flv_tag] (processFlvTag env flv_tag s)) := by
  refine NothingWaits.record ?_ _
  unfold PublishStream.processFlvTag
  have hlearned := h.learnMediaInfo flv_tag
  generalize PublishStream.learnMediaInfo flv_tag s = learned at hlearned
  obtain ⟨info, _⟩ := learned
  cases info with
  | none =>
    split_ifs
    · exact hlearned
    · exact NothingWaits.sendTag hone hlearned _ _
  | some tag =>
    have hinfo := NothingWaits.sendTag hone hlearned tag flv_tag.timestamp_ms_
    split_ifs
    · exact hinfo
    · exact NothingWaits.sendTag hone hinfo _ _

theorem NothingWaits.processFlvTags (h : NothingWaits s) (tags : List FlvTag) :
    NothingWaits (tags.foldl
      (fun s flv_tag => PublishStream.record [flv_tag] (PublishStream.processFlvTag env flv_tag s)) s) := by
  induction tags generalizing s with
  | nil => exact h
  | cons tag tags ih => exact ih (h.processFlvTag hone tag)

theorem NothingWaits.processEvent (h : NothingWaits s) (event : Event) (timestamp_ms : Int) (importer : Option ι) :
    NothingWaits (processEvent env event timestamp_ms importer s).2 := by
  unfold PublishStream.processEvent
  split_ifs
  · unfold invokePublish
    split_ifs
    · exact h
    · split
      · exact h
      · exact NothingWaits.startPublishing hone (by exact h) _ _
  · unfold invokeUnpublish
    split_ifs
    · exact h
    · exact h
    · exact h.internalStop hone _ _
  · exact h.record _
  · exact h.processFlvTags hone _

omit hone in
theorem NothingWaits.runNetClosure {s' : PublishStream ι} (h : NothingWaits s) {c : NetClosure}
    {rest : List NetClosure} (hq : s.net_queue = c :: rest)
    (hs : PublishStream.runNetClosure env c { s with net_queue := rest } = some s') : NothingWaits s' := by
  have hall := h.2
  rw [hq] at hall
  obtain rfl := hall c mem_cons_self
  unfold PublishStream.runNetClosure at hs
  split_ifs at hs
  obtain rfl := Option.some.inj hs
  exact ⟨h.1, fun c hc => hall c (List.mem_cons_of_mem _ hc)⟩

/-- In one thread, closures are run where they are made. -/
theorem NothingWaits.step {s' : PublishStream ι} (h : NothingWaits s) {input : Input ι}
    (hs : PublishStream.step env s input = some s') : NothingWaits s' := by
  unfold PublishStream.step at hs
  cases input with
  | event event timestamp_ms importer =>
    dsimp only at hs
    split_ifs at hs
    · exact Option.some.inj hs ▸ h
    · have hevent := h.processEvent hone event timestamp_ms importer
      generalize PublishStream.processEvent env event timestamp_ms importer s = processed at hs hevent
      obtain ⟨result, t⟩ := processed
      cases result with
      | true => exact Option.some.inj hs ▸ hevent
      | false => exact NothingWaits.connectionCloseHandler hone hevent hs
  | deleteStream =>
    dsimp only at hs
    split_ifs at hs
    · exact Option.some.inj hs ▸ h
    · exact Option.some.inj hs ▸ h.internalStop hone true true
  | connectionClosed =>
    dsimp only at hs
    split_ifs at hs
    · exact Option.some.inj hs ▸ h
    · exact h.connectionCloseHandler hone hs
  | runNet =>
    cases hq : s.net_queue with
    | nil =>
      simp only [hq] at hs
      exact Option.some.inj hs ▸ h
    | cons c rest =>
      simp only [hq] at hs
      split_ifs at hs
      exact h.runNetClosure hq hs
  | runMedia importer =>
    simp only [h.1] at hs
    exact Option.some.inj hs ▸ h
  | importerCompletes i success =>
    dsimp only at hs
    split_ifs at hs
    · exact NothingWaits.startCompleted hone (by exact h) hs
    · exact NothingWaits.startCompleted hone (by exact h) hs
    · exact NothingWaits.startCompleted hone (by exact h) hs
    · exact Option.some.inj hs ▸ h
  | importerStops i =>
    dsimp only at hs
    split_ifs at hs
    · exact Option.some.inj hs ▸ NothingWaits.internalStopInMedia hone (by exact h) false true
    · exact Option.some.inj hs ▸ NothingWaits.internalStopInMedia hone (by exact h) false true
    · exact Option.some.inj hs ▸ h

end Steps

/-! ## Every run -/

/-- Where a stream that is used with care is. -/
structure Good [DecidableEq ι] (env : Surroundings) (s : PublishStream ι) : Prop where
  inv : ∃ g, Inv 0 s g
  direct : env.one_thread = true → NothingWaits s

variable [DecidableEq ι]

theorem Good.step (h : Good env s) (input : Input ι) (hcareful : Careful env s input) :
    ∃ s', PublishStream.step env s input = some s' ∧ Good env s' := by
  obtain ⟨g, hg⟩ := h.inv
  obtain ⟨s', hs', hinv⟩ := hg.step ⟨fun hone => (h.direct hone).1, fun hone => (h.direct hone).2⟩ input hcareful
  exact ⟨s', hs', hinv, fun hone => (h.direct hone).step hone hs'⟩

def audioData : Event where
  header_ := ⟨4, 1, .audioData, 0, false⟩
  body := .bulkData .audioData [0x2F, 0x00]
  type_eq := rfl

end PublishStream

end Whispercast.Rtmp
