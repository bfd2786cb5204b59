import Whispercast.Stream.Tag

/-!
# The dropping element

`StreamDroppingUtil::Filter` (`dropping/dropping_element.cc`), whose code for audio and for video is one definition with
parameters here. Times are integers that do not overflow.
-/

namespace Whispercast.Stream

open List

/-- The two kinds of media. -/
inductive Media where
  | audio | video
  deriving DecidableEq

/-- `accept_period_ms_` and `drop_period_ms_` of one kind. -/
structure Periods where
  accept_period_ms_ : Int
  drop_period_ms_ : Int

/-- The state members of one kind. -/
structure MediaDropping where
  first_tag_ : Bool := true
  key_frame_sent_ : Bool := false
  is_dropping_ : Bool := false
  next_time_to_switch_ : Int

structure StreamDroppingUtil where
  periods : Media → Periods
  video_grace_period_key_frames_ : Int
  video_grace_period_key_frames_sent_ : Int := 0
  media : Media → MediaDropping

def kMaxInt64 : Int := 2 ^ 63 - 1

namespace MediaDropping

variable (p : Periods) (timestamp_ms : Int) (t : MediaDropping)

/-- A source has started: if this kind is being dropped, it may be accepted again. -/
def sourceStarted : MediaDropping := if t.is_dropping_ then { t with next_time_to_switch_ := timestamp_ms } else t

/-- The setup at the first tag. -/
def begin : MediaDropping :=
  { t with
    first_tag_ := false
    is_dropping_ := p.accept_period_ms_ ≤ 0
    next_time_to_switch_ := if 0 < p.drop_period_ms_ then timestamp_ms + p.accept_period_ms_ else kMaxInt64 }

/-- The switch between the periods. -/
def switch (can_resync : Bool) : MediaDropping :=
  if t.next_time_to_switch_ ≤ timestamp_ms then
    if t.is_dropping_ ∧ 0 < p.accept_period_ms_ then
      if can_resync then ⟨t.first_tag_, true, false, timestamp_ms + p.accept_period_ms_⟩ else t
    else if ¬ t.is_dropping_ ∧ t.key_frame_sent_ then ⟨t.first_tag_, false, true, timestamp_ms + p.drop_period_ms_⟩
    else t
  else t

/-- A tag of this kind. -/
def filter (can_resync : Bool) : MediaDropping :=
  let t := t.switch p timestamp_ms can_resync
  { t with key_frame_sent_ := t.key_frame_sent_ || can_resync && !t.is_dropping_ }

end MediaDropping

namespace StreamDroppingUtil

variable {Body : TagType → Type} (s : StreamDroppingUtil) (tag : Tag Body) (timestamp_ms : Int)

/-- The constructor. -/
def new (periods : Media → Periods) (grace : Int) : StreamDroppingUtil where
  periods := periods
  video_grace_period_key_frames_ := grace
  media k := { next_time_to_switch_ := (periods k).accept_period_ms_ }

/-- `Filter` in front of the test of the kind: a source that starts, and the first tag. -/
def prepare (k : Media) : MediaDropping :=
  let t := if tag.type_ = .sourceStarted then (s.media k).sourceStarted timestamp_ms else s.media k
  if tag.type_ ≠ .composed ∧ t.first_tag_ ∧
      (k = .audio ∨ s.video_grace_period_key_frames_ ≤ s.video_grace_period_key_frames_sent_) then
    t.begin (s.periods k) timestamp_ms
  else t

/-- `Filter`: whether the tag is forwarded, and the state behind it. -/
def filter : Bool × StreamDroppingUtil :=
  let t := s.prepare tag timestamp_ms
  if tag.type_ = .composed then (false, { s with media := t })
  else if tag.is_video_tag then
    if (t .video).first_tag_ then
      (true, { s with
        media := t
        video_grace_period_key_frames_sent_ :=
          s.video_grace_period_key_frames_sent_ + if tag.can_resync then 1 else 0 })
    else
      let video := (t .video).filter (s.periods .video) timestamp_ms tag.can_resync
      (!video.is_dropping_, { s with media := Function.update t .video video })
  else if tag.is_audio_tag then
    let audio := (t .audio).filter (s.periods .audio) timestamp_ms tag.can_resync
    (!audio.is_dropping_, { s with media := Function.update t .audio audio })
  else (true, { s with media := t })

/-! ## Runs -/

/-- The kind that a tag is of; composed tags are of none. -/
def kind : Option Media :=
  if tag.type_ = .composed then none
  else if tag.is_video_tag then some .video
  else if tag.is_audio_tag then some .audio
  else none

/-- The state behind a sequence of tags. -/
def after : List (Tag Body × Int) → StreamDroppingUtil :=
  List.foldl (fun s e => (s.filter e.1 e.2).2) s

/-- Of this kind nothing is forwarded. -/
def Silent (k : Media) : StreamDroppingUtil → List (Tag Body × Int) → Prop
  | _, [] => True
  | s, e :: es => (kind e.1 = some k → (s.filter e.1 e.2).1 = false) ∧ Silent k (s.filter e.1 e.2).2 es

/-- How many key frames are forwarded. -/
def keyFrames : StreamDroppingUtil → List (Tag Body × Int) → Nat
  | _, [] => 0
  | s, e :: es =>
    (if kind e.1 = some .video ∧ (s.filter e.1 e.2).1 ∧ e.1.can_resync then 1 else 0) + keyFrames (s.filter e.1 e.2).2 es

variable {s tag timestamp_ms} {k : Media} {p : Periods} {t : MediaDropping} {r : Bool} {now : Int}

theorem filter_periods : (s.filter tag timestamp_ms).2.periods = s.periods := by
  unfold filter
  dsimp only
  split_ifs <;> rfl

theorem filter_grace : (s.filter tag timestamp_ms).2.video_grace_period_key_frames_ = s.video_grace_period_key_frames_ := by
  unfold filter
  dsimp only
  split_ifs <;> rfl

/-- Behind the first tag of another kind than video, nothing is the first tag. -/
theorem prepare_audio (h : tag.type_ ≠ .composed) : (s.prepare tag timestamp_ms .audio).first_tag_ = false := by
  unfold prepare
  generalize (if tag.type_ = .sourceStarted then _ else _ : MediaDropping) = t
  by_cases ht : t.first_tag_ <;> simp [h, ht, MediaDropping.begin]

/-- A tag is for the state of its kind, unless it is within the grace period. -/
theorem filter_media (k : Media) : (s.filter tag timestamp_ms).2.media k =
      if kind tag = some k ∧ (s.prepare tag timestamp_ms k).first_tag_ = false then
        (s.prepare tag timestamp_ms k).filter (s.periods k) timestamp_ms tag.can_resync
      else s.prepare tag timestamp_ms k := by
  unfold filter kind
  dsimp only
  split_ifs with hcomposed hvideo hfirst haudio <;> cases k <;> simp_all [prepare_audio]

theorem filter_fst (h : kind tag = some k) :
    (s.filter tag timestamp_ms).1 = ((s.prepare tag timestamp_ms k).first_tag_ ||
      !((s.filter tag timestamp_ms).2.media k).is_dropping_) := by
  rw [filter_media]
  unfold filter
  unfold kind at h ⊢
  split_ifs at h ⊢ <;> cases h <;> simp_all [prepare_audio]

/-- While a kind is being dropped, its first tag is behind. -/
def Inv (s : StreamDroppingUtil) : Prop := ∀ k, (s.media k).is_dropping_ = true → (s.media k).first_tag_ = false

/-- What is to be known of one kind in front of the test of the kind. -/
theorem Inv.prepare_cases (h : s.Inv) (tag : Tag Body) (timestamp_ms : Int) (k : Media) :
    s.prepare tag timestamp_ms k = s.media k ∨
      (s.media k).is_dropping_ = true ∧
        s.prepare tag timestamp_ms k = { s.media k with next_time_to_switch_ := timestamp_ms } ∨
      (s.media k).is_dropping_ = false ∧ (s.media k).first_tag_ = true ∧
        (k = .video → s.video_grace_period_key_frames_ ≤ s.video_grace_period_key_frames_sent_) ∧
        s.prepare tag timestamp_ms k = (s.media k).begin (s.periods k) timestamp_ms := by
  unfold prepare
  cases hdrop : (s.media k).is_dropping_ with
  | false =>
    simp only [MediaDropping.sourceStarted, hdrop, Bool.false_eq_true, if_false, ite_self]
    split_ifs with hbegin
    · exact .inr (.inr ⟨trivial, hbegin.2.1, fun hk => hbegin.2.2.resolve_left (by simp [hk]), rfl⟩)
    · exact .inl rfl
  | true =>
    simp only [MediaDropping.sourceStarted, hdrop, if_true]
    by_cases htype : tag.type_ = .sourceStarted <;> simp [htype, h k hdrop]

theorem filter_dropping (h : t.is_dropping_ = true) : (t.filter p timestamp_ms r).is_dropping_ = true ∧
        (t.filter p timestamp_ms r).next_time_to_switch_ = t.next_time_to_switch_ ∧
        (r = true → 0 < p.accept_period_ms_ → timestamp_ms < t.next_time_to_switch_) ∨
      r = true ∧ (t.filter p timestamp_ms r).is_dropping_ = false := by
  unfold MediaDropping.filter MediaDropping.switch
  split_ifs <;> simp_all

theorem filter_accepting (h : t.is_dropping_ = false) (hdrop : (t.filter p timestamp_ms r).is_dropping_ = true) :
    (t.filter p timestamp_ms r).next_time_to_switch_ = timestamp_ms + p.drop_period_ms_ := by
  unfold MediaDropping.filter MediaDropping.switch at hdrop ⊢
  split_ifs at hdrop ⊢ <;> simp_all

theorem filter_first_tag : (t.filter p timestamp_ms r).first_tag_ = t.first_tag_ := by
  unfold MediaDropping.filter MediaDropping.switch
  split_ifs <;> rfl

theorem Inv.filter (h : s.Inv) (tag : Tag Body) (timestamp_ms : Int) : (s.filter tag timestamp_ms).2.Inv := by
  intro k hdrop
  rw [filter_media] at hdrop ⊢
  split_ifs at hdrop ⊢ with hkind
  · rw [filter_first_tag, hkind.2]
  · rcases h.prepare_cases tag timestamp_ms k with heq | ⟨hold, heq⟩ | ⟨-, -, -, heq⟩ <;> rw [heq] at hdrop ⊢
    · exact h k hdrop
    · exact h k hold
    · rfl

/-- The end of a drop period is never further away than the period is long. -/
def Bound (s : StreamDroppingUtil) (now : Int) : Prop :=
  ∀ k, (s.media k).is_dropping_ = true → 0 < (s.periods k).accept_period_ms_ → 0 < (s.periods k).drop_period_ms_ →
    (s.media k).next_time_to_switch_ ≤ now + (s.periods k).drop_period_ms_

theorem Bound.filter (hinv : s.Inv) (h : s.Bound now) (tag : Tag Body) (hnow : now ≤ timestamp_ms) :
    (s.filter tag timestamp_ms).2.Bound timestamp_ms := by
  intro k hdrop haccept hperiod
  rw [filter_periods] at haccept hperiod ⊢
  have hstart : (s.prepare tag timestamp_ms k).is_dropping_ = true →
      (s.prepare tag timestamp_ms k).next_time_to_switch_ ≤ timestamp_ms + (s.periods k).drop_period_ms_ := by
    intro hstart
    rcases hinv.prepare_cases tag timestamp_ms k with heq | ⟨-, heq⟩ | ⟨-, -, -, heq⟩ <;> rw [heq] at hstart ⊢
    · have := h k hstart haccept hperiod
      omega
    · dsimp only
      omega
    · simp [MediaDropping.begin] at hstart
      omega
  rw [filter_media] at hdrop ⊢
  split_ifs at hdrop ⊢ with hkind
  · cases hold : (s.prepare tag timestamp_ms k).is_dropping_ with
    | false => exact (filter_accepting hold hdrop).le
    | true =>
      rcases filter_dropping hold with ⟨-, hnext, -⟩ | ⟨-, hnot⟩
      · exact hnext.le.trans (hstart hold)
      · rw [hnot] at hdrop
        cases hdrop
  · exact hstart hdrop

/-- A kind that is being dropped: a tag of it is forwarded only at a key frame, and is so at a key frame behind the drop
period; else the kind is still being dropped. -/
theorem Inv.dropping (h : s.Inv) (hdrop : (s.media k).is_dropping_ = true) (tag : Tag Body) (timestamp_ms : Int) :
    (kind tag = some k → (s.filter tag timestamp_ms).1 = true → tag.can_resync = true) ∧
      (kind tag = some k → tag.can_resync = true → 0 < (s.periods k).accept_period_ms_ →
        (s.media k).next_time_to_switch_ ≤ timestamp_ms → (s.filter tag timestamp_ms).1 = true) ∧
      ((kind tag = some k → (s.filter tag timestamp_ms).1 = false) →
        ((s.filter tag timestamp_ms).2.media k).is_dropping_ = true ∧
          (((s.filter tag timestamp_ms).2.media k).next_time_to_switch_ = (s.media k).next_time_to_switch_ ∨
            ((s.filter tag timestamp_ms).2.media k).next_time_to_switch_ = timestamp_ms)) := by
  have hfirst := h k hdrop
  -- A source that starts only brings the time of the switch forward.
  obtain ⟨hdrop', hfirst', hnext⟩ : (s.prepare tag timestamp_ms k).is_dropping_ = true ∧
      (s.prepare tag timestamp_ms k).first_tag_ = false ∧
      ((s.prepare tag timestamp_ms k).next_time_to_switch_ = (s.media k).next_time_to_switch_ ∨
        (s.prepare tag timestamp_ms k).next_time_to_switch_ = timestamp_ms) := by
    rcases h.prepare_cases tag timestamp_ms k with heq | ⟨-, heq⟩ | ⟨hnot, -⟩
    · simp [heq, hdrop, hfirst]
    · simp [heq, hdrop, hfirst]
    · simp [hdrop] at hnot
  by_cases hkind : kind tag = some k
  · rw [filter_fst hkind, filter_media, if_pos ⟨hkind, hfirst'⟩]
    rcases @filter_dropping timestamp_ms (s.periods k) _ tag.can_resync hdrop' with ⟨hstill, hsame, hlate⟩ | ⟨hr, hnot⟩
    · simp only [hkind, hfirst', hstill, hsame]
      refine ⟨by simp, fun _ hr haccept hle => ?_, fun _ => ⟨trivial, hnext⟩⟩
      have := hlate hr haccept
      omega
    · rw [hr] at hnot
      simp [hkind, hfirst', hr, hnot]
  · rw [filter_media, if_neg fun hand => hkind hand.1]
    simp [hkind, hdrop', hnext]

theorem dropped (hkind : kind tag = some k) (hdropped : (s.filter tag timestamp_ms).1 = false) :
    ((s.filter tag timestamp_ms).2.media k).is_dropping_ = true := by
  rw [filter_fst hkind] at hdropped
  simpa using (Bool.or_eq_false_iff.1 hdropped).2

theorem Inv.after (h : s.Inv) (es : List (Tag Body × Int)) : (s.after es).Inv := by
  induction es generalizing s with
  | nil => exact h
  | cons e es ih => exact ih (h.filter e.1 e.2)

variable (es : List (Tag Body × Int))

theorem after_periods : (s.after es).periods = s.periods := by
  induction es generalizing s with
  | nil => rfl
  | cons e es ih => exact ih.trans filter_periods

theorem after_append (fs : List (Tag Body × Int)) : s.after (es ++ fs) = (s.after es).after fs := foldl_append

theorem after_grace : (s.after es).video_grace_period_key_frames_ = s.video_grace_period_key_frames_ := by
  induction es generalizing s with
  | nil => rfl
  | cons e es ih => exact ih.trans filter_grace

theorem Bound.after (hinv : s.Inv) (h : s.Bound now) {last : Int} {es : List (Tag Body × Int)}
    (hes : es.Pairwise fun e f => e.2 ≤ f.2) (hnow : ∀ e ∈ es, now ≤ e.2 ∧ e.2 ≤ last) (hlast : now ≤ last) :
    (s.after es).Bound last := by
  induction es generalizing s now with
  | nil =>
    intro k hdrop haccept hperiod
    exact (h k hdrop haccept hperiod).trans (Int.add_le_add_right hlast _)
  | cons e es ih =>
    have he := hnow e mem_cons_self
    rw [pairwise_cons] at hes
    exact ih (hinv.filter e.1 e.2) (h.filter hinv e.1 he.1) hes.2
      (fun f hf => ⟨hes.1 f hf, (hnow f (mem_cons_of_mem _ hf)).2⟩) he.2

/-- While nothing of a kind is forwarded, it is being dropped, and the time of its switch is never put off. -/
theorem Silent.after {es : List (Tag Body × Int)} (h : Silent k s es) (hinv : s.Inv)
    (hdrop : (s.media k).is_dropping_ = true) :
    ((s.after es).media k).is_dropping_ = true ∧
      ∀ last, (∀ e ∈ es, e.2 ≤ last) → (s.media k).next_time_to_switch_ ≤ last →
        ((s.after es).media k).next_time_to_switch_ ≤ last := by
  induction es generalizing s with
  | nil => exact ⟨hdrop, fun _ _ hnext => hnext⟩
  | cons e es ih =>
    obtain ⟨hdrop', hnext⟩ := (hinv.dropping hdrop e.1 e.2).2.2 h.1
    obtain ⟨hafter, hbound⟩ := ih h.2 (hinv.filter e.1 e.2) hdrop'
    refine ⟨hafter, fun last hes hle => ?_⟩
    refine hbound last (fun f hf => hes f (mem_cons_of_mem _ hf)) ?_
    rcases hnext with heq | heq <;> rw [heq]
    · exact hle
    · exact hes e mem_cons_self

/-- The key frames of the grace period are counted until there are `n` of them. -/
def Counted (s : StreamDroppingUtil) (n : Int) : Prop :=
  if (s.media .video).first_tag_ then s.video_grace_period_key_frames_sent_ = n else s.video_grace_period_key_frames_ ≤ n

theorem filter_sent : (s.filter tag timestamp_ms).2.video_grace_period_key_frames_sent_ =
    s.video_grace_period_key_frames_sent_ + if kind tag = some .video ∧
      (s.prepare tag timestamp_ms .video).first_tag_ = true ∧ tag.can_resync = true then 1 else 0 := by
  unfold filter kind
  dsimp only
  split_ifs <;> simp_all

section

variable {n : Int} (hinv : s.Inv) (h : s.Counted n)

include hinv h

theorem Counted.prepare
    (hfirst : (s.prepare tag timestamp_ms .video).first_tag_ = false) : s.video_grace_period_key_frames_ ≤ n := by
  unfold Counted at h
  rcases hinv.prepare_cases tag timestamp_ms .video with heq | ⟨hdrop, -⟩ | ⟨-, hold, hgrace, -⟩
  · rw [heq] at hfirst
    simpa [hfirst] using h
  · simpa [hinv .video hdrop] using h
  · rw [if_pos hold] at h
    exact (hgrace rfl).trans h.le

theorem Counted.filter (tag : Tag Body) (timestamp_ms : Int) :
    (s.filter tag timestamp_ms).2.Counted (n + if kind tag = some .video ∧ (s.filter tag timestamp_ms).1 = true ∧
      tag.can_resync = true then 1 else 0) := by
  cases hfirst : (s.prepare tag timestamp_ms .video).first_tag_ with
  | true =>
    have hold : (s.media .video).first_tag_ = true := by
      rcases hinv.prepare_cases tag timestamp_ms .video with heq | ⟨-, heq⟩ | ⟨-, hold, -⟩
      · rwa [← heq]
      · rw [heq] at hfirst
        exact hfirst
      · exact hold
    rw [Counted, if_pos hold] at h
    have hforward : kind tag = some .video → (s.filter tag timestamp_ms).1 = true := fun hkind => by
      rw [filter_fst hkind, hfirst, Bool.true_or]
    have hfirst' : ((s.filter tag timestamp_ms).2.media .video).first_tag_ = true := by
      rw [filter_media, if_neg (by simp [hfirst]), hfirst]
    rw [Counted, if_pos hfirst', filter_sent, h]
    simp only [hfirst, true_and]
    by_cases hkind : kind tag = some .video <;> simp [hkind, hforward]
  | false =>
    have hn := h.prepare hinv hfirst
    have hfirst' : ((s.filter tag timestamp_ms).2.media .video).first_tag_ = false := by
      rw [filter_media]
      split_ifs
      · rwa [filter_first_tag]
      · exact hfirst
    rw [Counted, hfirst', filter_grace]
    simp only [Bool.false_eq_true, if_false]
    split_ifs <;> omega

theorem Counted.after (es : List (Tag Body × Int)) : (s.after es).Counted (n + s.keyFrames es) := by
  induction es generalizing s n with
  | nil => simpa [StreamDroppingUtil.after, keyFrames] using h
  | cons e es ih =>
    rw [keyFrames]
    push_cast
    rw [← add_assoc]
    exact ih (hinv.filter e.1 e.2) (h.filter hinv e.1 e.2)

end

/-- A tag that is dropped: if it is a video tag, the key frames of the grace period have been forwarded. As long as no
tag of its kind is forwarded, the next one that is can be resynced at; and one that can be resynced at, behind the drop
period, is forwarded. -/
theorem resumes_at_key_frame (periods : Media → Periods) (grace : Int) (pre : List (Tag Body × Int)) {a : Tag Body × Int}
    {k : Media} (ha : kind a.1 = some k) (hdropped : (((new periods grace).after pre).filter a.1 a.2).1 = false) :
    (k = .video → grace ≤ (new periods grace).keyFrames pre) ∧
      ∀ (mid : List (Tag Body × Int)) (b : Tag Body × Int), kind b.1 = some k →
        Silent k ((new periods grace).after (pre ++ [a])) mid →
        ((((new periods grace).after (pre ++ a :: mid)).filter b.1 b.2).1 = true → b.1.can_resync = true) ∧
          (0 < (periods k).accept_period_ms_ → 0 < (periods k).drop_period_ms_ →
            (pre ++ a :: (mid ++ [b])).Pairwise (fun e f => e.2 ≤ f.2) → b.1.can_resync = true →
            a.2 + (periods k).drop_period_ms_ ≤ b.2 →
            (((new periods grace).after (pre ++ a :: mid)).filter b.1 b.2).1 = true) := by
  have hnew : (new periods grace).Inv := nofun
  obtain ⟨s, hs⟩ : ∃ s, s = (new periods grace).after pre := ⟨_, rfl⟩
  have hinv : s.Inv := hs ▸ hnew.after pre
  have hperiods : s.periods = periods := hs ▸ after_periods pre
  simp only [after_append, ← hs] at hdropped ⊢
  have hdrop := dropped ha hdropped
  refine ⟨?_, fun mid b hb hsilent => ?_⟩
  · rintro rfl
    have hcounted : s.Counted (0 + (new periods grace).keyFrames pre) := hs ▸ Counted.after hnew rfl pre
    have hgrace : s.video_grace_period_key_frames_ = grace := hs ▸ after_grace pre
    rw [filter_fst ha, Bool.or_eq_false_iff] at hdropped
    have hle := hcounted.prepare hinv hdropped.1
    rwa [hgrace, zero_add] at hle
  · obtain ⟨hdrop', hbound⟩ := Silent.after hsilent (hinv.filter a.1 a.2) hdrop
    have hb' := ((hinv.filter a.1 a.2).after mid).dropping hdrop' b.1 b.2
    refine ⟨hb'.1 hb, fun haccept hperiod htimes hresync hlate => hb'.2.1 hb hresync ?_ (hbound b.2 ?_ ?_)⟩
    · rwa [after_periods, filter_periods, hperiods]
    · intro e he
      have hab := (pairwise_append.1 htimes).2.1
      rw [pairwise_cons, pairwise_append] at hab
      exact hab.2.2.2 e he b (mem_singleton_self b)
    · -- The drop period began at `a` or before.
      have hnow : ∃ now, s.Bound now ∧ now ≤ a.2 := by
        cases pre with
        | nil => exact ⟨a.2, by rw [hs]; exact nofun, le_rfl⟩
        | cons e es =>
          have hall := pairwise_append.1 htimes
          have hea := fun f hf => hall.2.2 f hf a mem_cons_self
          have hold : (new periods grace).Bound e.2 := nofun
          refine ⟨a.2, hs ▸ hold.after hnew hall.1 (fun f hf => ⟨?_, hea f hf⟩) (hea e mem_cons_self), le_rfl⟩
          rcases mem_cons.1 hf with rfl | hmem
          · exact le_rfl
          · exact (pairwise_cons.1 hall.1).1 f hmem
      obtain ⟨now, hbefore, hle⟩ := hnow
      have hswitch := hbefore.filter hinv a.1 hle k hdrop
      rw [filter_periods, hperiods] at hswitch
      exact (hswitch haccept hperiod).trans hlate

/-- A video tag. -/
def videoTag (canResync : Bool) : Tag fun _ => Unit := ⟨.flv, ⟨false, false, true, false, canResync⟩, ()⟩

/-- One key frame is graced, the next one is accepted for ten ms, and the one behind ten more is accepted again. -/
theorem resumes_at_key_frame_again :
    1 ≤ (new (fun _ => ⟨10, 10⟩) 1).keyFrames [(videoTag true, 0), (videoTag true, 5)] ∧
      (((new (fun _ => ⟨10, 10⟩) 1).after [(videoTag true, 0), (videoTag true, 5), (videoTag false, 15)]).filter
        (videoTag true) 25).1 = true := by
  have h := resumes_at_key_frame (fun _ => ⟨10, 10⟩) 1 [(videoTag true, 0), (videoTag true, 5)]
    (a := (videoTag false, 15)) (k := .video) (by decide) (by decide +kernel)
  refine ⟨Int.ofNat_le.1 (h.1 rfl), (h.2 [] (videoTag true, 25) rfl trivial).2 ?_ ?_ ?_ rfl ?_⟩ <;> simp

end StreamDroppingUtil

end Whispercast.Stream
