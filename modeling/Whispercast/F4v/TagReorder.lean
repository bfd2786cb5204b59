import Whispercast.F4v.FlvConverter
import Mathlib.Data.List.Sort
import Mathlib.Data.List.TakeWhile
import Mathlib.Data.List.Perm.Subperm

/-!
# Reordering of frames

Model of `TagReorder` (`f4v/f4v_tag_reorder.cc`). With a `MOOV` atom, the frames of its tables are expected in the order
of their timestamps, or of their offsets; a frame that comes before its turn waits in `cache_` under its offset. The two
comparisons of `f4v_util` are not in the repository: they are parameters.
-/

namespace Whispercast.F4v

open Library List FrameHeader

/-- `util::CompareFramesByTimestamp` and `util::CompareFramesByOffset`. -/
structure FrameComparisons where
  compareFramesByTimestamp : FrameHeader → FrameHeader → Bool
  compareFramesByOffset : FrameHeader → FrameHeader → Bool

/-- They do what their names say. -/
structure FrameComparisons.Lawful (compare : FrameComparisons) : Prop where
  timestamp_iff : ∀ a b, compare.compareFramesByTimestamp a b = true ↔ a.timestamp < b.timestamp
  offset_iff : ∀ a b, compare.compareFramesByOffset a b = true ↔ a.offset < b.offset

def stableSort {α : Type} (before : α → α → Bool) (l : List α) : List α :=
  l.insertionSort fun a b => before b a = false

/-- `TagReorder`. The map `cache_` is the list of its entries. -/
structure TagReorder where
  order_by_timestamp_ : Bool
  moov_ : Option Atom := none
  ordered_frames_ : List FrameHeader := []
  ordered_next_ : Nat := 0
  cache_ : List (Int × Frame) := []
  output_ : List F4vTag := []

namespace TagReorder

def clear (r : TagReorder) : TagReorder :=
  { r with moov_ := none, ordered_frames_ := [], ordered_next_ := 0, cache_ := [] }

/-- The loop of `PopCache` over the frames that are expected. -/
def popCacheLoop : List FrameHeader → TagReorder → TagReorder
  | [], r => r
  | next :: rest, r =>
    match r.cache_.lookup next.offset with
    | none => r
    | some frame =>
      popCacheLoop rest
        { r with
          output_ := r.output_ ++ [.frame frame]
          cache_ := r.cache_.eraseP fun e => e.1 == next.offset
          ordered_next_ := r.ordered_next_ + 1 }

def popCache (r : TagReorder) : TagReorder := popCacheLoop (r.ordered_frames_.drop r.ordered_next_) r

variable (compare : FrameComparisons)

/-- The frames of a `MOOV` atom. -/
def moovFrames (atom : Atom) : List FrameHeader := extractFrames atom.moov true ++ extractFrames atom.moov false

/-- The frames of a `MOOV` atom, as `ordered_frames_` keeps them. -/
def orderFrames (order_by_timestamp : Bool) (atom : Atom) : List FrameHeader :=
  stableSort (if order_by_timestamp then compare.compareFramesByTimestamp else compare.compareFramesByOffset)
    (moovFrames atom)

/-- `Push`; a failed `CHECK` is `none`. -/
def push (r : TagReorder) : F4vTag → Option TagReorder
  | .atom atom position =>
    let r :=
      if atom.type = atomMoov then
        { r.clear with
          moov_ := some atom
          ordered_frames_ := orderFrames compare r.order_by_timestamp_ atom }
      else r
    some { r with output_ := r.output_ ++ [.atom atom position] }
  | .frame frame =>
    if frame.header.type = .rawFrame then some { r with output_ := r.output_ ++ [.frame frame] }
    else if (r.cache_.lookup frame.header.offset).isSome then none
    else some (popCache { r with cache_ := r.cache_ ++ [(frame.header.offset, frame)] })

def pop (r : TagReorder) : Option F4vTag × TagReorder :=
  match r.output_ with
  | [] => (none, r)
  | tag :: output => (some tag, { r with output_ := output })

/-- A call. -/
inductive Event where
  | push (tag : F4vTag)
  | pop

/-- The reorder object with the tags that were popped. -/
structure Session where
  reorder : TagReorder
  popped : List F4vTag := []

/-- One call. -/
def step (s : Session) : Event → Option Session
  | .push tag => (s.reorder.push compare tag).map fun r => { s with reorder := r }
  | .pop =>
    match s.reorder.pop with
    | (none, r) => some { s with reorder := r }
    | (some tag, r) => some ⟨r, s.popped ++ [tag]⟩

/-- A new object. -/
def start (order_by_timestamp : Bool) : Session := ⟨{ order_by_timestamp_ := order_by_timestamp }, []⟩

/-- What was popped, and what can be popped at once. -/
def Session.available (s : Session) : List F4vTag := s.popped ++ s.reorder.output_

/-- The frame of a tag, unless it is raw. -/
def frameOf : F4vTag → Option Frame
  | .atom _ _ => none
  | .frame frame => if frame.header.type = .rawFrame then none else some frame

/-- The frames among tags. -/
def framesOf (tags : List F4vTag) : List Frame := tags.filterMap frameOf

/-- The tags that are pushed. -/
def pushedTags (events : List Event) : List F4vTag :=
  events.filterMap fun
    | .push tag => some tag
    | .pop => none

/-! ## The stable order -/

/-- A list is in the stable order by a key. -/
structure StableOrder {α : Type} (key : α → Int) (l order : List α) : Prop where
  perm : order.Perm l
  sorted : order.Pairwise fun a b => key a ≤ key b
  stable : ∀ a b, key a ≤ key b → [a, b].Sublist l → [a, b].Sublist order

/-- The key of the order. -/
def sortKey (order_by_timestamp : Bool) (h : FrameHeader) : Int := if order_by_timestamp then h.timestamp else h.offset

theorem stableSort_stableOrder {α : Type} {before : α → α → Bool} {key : α → Int}
    (h : ∀ a b, before a b = true ↔ key a < key b) (l : List α) : StableOrder key l (stableSort before l) := by
  have hle : ∀ a b, before b a = false ↔ key a ≤ key b := by
    intro a b
    rw [← Bool.not_eq_true, h, Int.not_lt]
  have htotal : Std.Total fun a b : α => before b a = false :=
    ⟨fun a b => by rw [hle, hle]; exact Int.le_total _ _⟩
  have htrans : IsTrans α fun a b : α => before b a = false :=
    ⟨fun a b c hab hbc => by rw [hle] at *; exact Int.le_trans hab hbc⟩
  refine ⟨perm_insertionSort _ l, ?_, ?_⟩
  · exact (pairwise_insertionSort (fun a b => before b a = false) l).imp fun hab => (hle _ _).1 hab
  · intro a b hab hsub
    exact pair_sublist_insertionSort (r := fun a b => before b a = false) ((hle a b).2 hab) hsub

/-- `ordered_frames_` is in the stable order. -/
theorem orderFrames_stableOrder {compare : FrameComparisons} (h : compare.Lawful) (order_by_timestamp : Bool)
    (atom : Atom) :
    StableOrder (sortKey order_by_timestamp) (moovFrames atom) (orderFrames compare order_by_timestamp atom) := by
  cases order_by_timestamp with
  | true => exact stableSort_stableOrder h.timestamp_iff _
  | false => exact stableSort_stableOrder h.offset_iff _

/-! ## The state between two calls -/

/-- The offset of a frame. -/
def offsetOf (frame : Frame) : Int := frame.header.offset

/-- The frames that were pushed are in the cache or available; those that are available are, by their offsets, the
first ones of the order. -/
structure Held (order : List FrameHeader) (pushed : List Frame) (r : TagReorder) (available : List F4vTag) : Prop where
  raw : ∀ frame ∈ pushed, frame.header.type ≠ .rawFrame
  ordered : r.ordered_frames_ = order
  keyed : ∀ e ∈ r.cache_, e.1 = offsetOf e.2
  nodup : (r.cache_.map Prod.fst).Nodup
  perm : (r.cache_.map Prod.snd ++ framesOf available).Perm pushed
  released : (framesOf available).map offsetOf = (order.take r.ordered_next_).map FrameHeader.offset

/-- The frame that is expected is not in the cache. -/
structure Settled (order : List FrameHeader) (pushed : List Frame) (r : TagReorder) (available : List F4vTag) : Prop
    extends Held order pushed r available where
  expected : ∀ next ∈ (order.drop r.ordered_next_).head?, next.offset ∉ r.cache_.map Prod.fst

theorem framesOf_append (tags more : List F4vTag) : framesOf (tags ++ more) = framesOf tags ++ framesOf more :=
  filterMap_append

theorem framesOf_frame {frame : Frame} (h : frame.header.type ≠ .rawFrame) : framesOf [.frame frame] = [frame] := by
  simp [framesOf, frameOf, h]

/-- `PopCache` moves frames from the cache to the output until the expected frame is missing: by induction on the frames
that are expected. -/
theorem Held.popCacheLoop {order : List FrameHeader} {pushed : List Frame} {popped : List F4vTag}
    {r : TagReorder} (h : Held order pushed r (popped ++ r.output_)) :
    let r' := TagReorder.popCacheLoop (order.drop r.ordered_next_) r
    Settled order pushed r' (popped ++ r'.output_) := by
  generalize hrest : order.drop r.ordered_next_ = rest
  induction rest generalizing r with
  | nil =>
    refine ⟨h, ?_⟩
    intro next hnext
    rw [TagReorder.popCacheLoop, hrest] at hnext
    cases hnext
  | cons next rest ih =>
    rw [TagReorder.popCacheLoop]
    cases hlookup : r.cache_.lookup next.offset with
    | none =>
      refine ⟨h, ?_⟩
      intro found hfound
      rw [hrest] at hfound
      cases hfound
      exact AssocList.lookup_eq_none.1 hlookup
    | some frame =>
      have hperm := AssocList.perm_of_lookup hlookup
      have hmem : (next.offset, frame) ∈ r.cache_ := hperm.symm.subset mem_cons_self
      have hkey : next.offset = offsetOf frame := h.keyed _ hmem
      have hpushed : frame ∈ pushed :=
        h.perm.subset (mem_append_left _ (mem_map_of_mem hmem))
      have hsub : ∀ e ∈ r.cache_.eraseP (fun e => e.1 == next.offset), e ∈ r.cache_ := fun e he =>
        mem_of_mem_eraseP he
      have hdrop : order.drop (r.ordered_next_ + 1) = rest := by
        rw [← drop_drop, hrest]
        rfl
      have htake : order.take (r.ordered_next_ + 1) = order.take r.ordered_next_ ++ [next] := by
        have hget : order[r.ordered_next_]? = some next := by rw [← head?_drop, hrest, head?_cons]
        rw [take_add_one, hget, Option.toList_some]
      have hframes : framesOf (popped ++ (r.output_ ++ [.frame frame])) =
          framesOf (popped ++ r.output_) ++ [frame] := by
        rw [← append_assoc, framesOf_append, framesOf_frame (h.raw frame hpushed)]
      refine ih ?_ hdrop
      refine ⟨h.raw, h.ordered, fun e he => h.keyed e (hsub e he), ?_, ?_, ?_⟩
      · exact Nodup.sublist (Sublist.map _ eraseP_sublist) h.nodup
      · rw [hframes]
        have hcache := hperm.map Prod.snd
        refine Perm.trans ?_ ((hcache.symm.append_right _).trans h.perm)
        rw [← append_assoc]
        exact perm_append_singleton _ _
      · rw [hframes, htake, map_append, map_append, h.released, map_singleton, map_singleton,
          hkey]

/-! ## One call -/

section Step

variable {compare : FrameComparisons} {order : List FrameHeader} {pushed : List Frame}

variable (compare) in
/-- A frame whose offset is not in the cache. -/
theorem Settled.push {popped : List F4vTag} {r : TagReorder} (h : Settled order pushed r (popped ++ r.output_))
    {frame : Frame} (hframe : frame.header.type ≠ .rawFrame)
    (hnew : offsetOf frame ∉ r.cache_.map Prod.fst) :
    ∃ r', r.push compare (.frame frame) = some r' ∧
      Settled order (pushed ++ [frame]) r' (popped ++ r'.output_) := by
  have hlookup : r.cache_.lookup frame.header.offset = none := AssocList.lookup_eq_none.2 hnew
  refine ⟨_, ?_, Held.popCacheLoop (r := { r with cache_ := r.cache_ ++ [(offsetOf frame, frame)] }) ?_⟩
  · rw [TagReorder.push, if_neg hframe, hlookup, Option.isSome_none, if_neg Bool.false_ne_true]
    simp only [popCache, h.ordered, offsetOf]
  · refine ⟨?_, h.ordered, ?_, ?_, ?_, h.released⟩
    · intro f hf
      rcases mem_append.1 hf with hmem | hlast
      · exact h.raw f hmem
      · rw [mem_singleton.1 hlast]
        exact hframe
    · intro e he
      rcases mem_append.1 he with hmem | hlast
      · exact h.keyed e hmem
      · rw [mem_singleton.1 hlast]
    · rw [map_append, nodup_append]
      refine ⟨h.nodup, nodup_singleton _, ?_⟩
      rintro a ha b hb rfl
      rw [map_singleton, mem_singleton] at hb
      rw [hb] at ha
      exact hnew ha
    · rw [map_append, map_singleton, append_assoc]
      refine Perm.trans ?_ (h.perm.append_right [frame])
      rw [append_assoc]
      exact Perm.append_left _ perm_append_comm

variable (compare) in
/-- A frame whose offset is in the cache makes the `CHECK` fail. -/
theorem push_eq_none {r : TagReorder} {frame : Frame} (hframe : frame.header.type ≠ .rawFrame)
    (hold : offsetOf frame ∈ r.cache_.map Prod.fst) : r.push compare (.frame frame) = none := by
  have hlookup : (r.cache_.lookup frame.header.offset).isSome = true := by
    rw [Option.isSome_iff_ne_none]
    exact fun hnone => AssocList.lookup_eq_none.1 hnone hold
  rw [TagReorder.push, if_neg hframe, if_pos hlookup]

variable (compare) in
/-- A tag that is no frame of the tables goes to the output. -/
theorem Settled.pass {popped : List F4vTag} {r : TagReorder} (h : Settled order pushed r (popped ++ r.output_))
    {tag : F4vTag} (htag : frameOf tag = none) (hmoov : ∀ atom position, tag = .atom atom position → atom.type ≠ atomMoov) :
    ∃ r', r.push compare tag = some r' ∧ Settled order pushed r' (popped ++ r'.output_) := by
  have hkept : Settled order pushed { r with output_ := r.output_ ++ [tag] } (popped ++ (r.output_ ++ [tag])) := by
    have hframes : framesOf (popped ++ (r.output_ ++ [tag])) = framesOf (popped ++ r.output_) := by
      rw [← append_assoc, framesOf_append, framesOf, framesOf]
      simp [htag]
    refine ⟨⟨h.raw, h.ordered, h.keyed, h.nodup, ?_, ?_⟩, h.expected⟩
    · rw [hframes]
      exact h.perm
    · rw [hframes]
      exact h.released
  refine ⟨_, ?_, hkept⟩
  cases tag with
  | atom atom position =>
    rw [TagReorder.push]
    simp only [if_neg (hmoov atom position rfl)]
  | frame frame =>
    have hframe : frame.header.type = .rawFrame := by
      by_contra hne
      rw [frameOf, if_neg hne] at htag
      cases htag
    rw [TagReorder.push, if_pos hframe]

variable (compare) in
/-- `Pop` takes what is available. -/
theorem step_pop (s : Session) : ∃ s', step compare s .pop = some s' ∧ s'.available = s.available ∧
    ∀ {order pushed}, Settled order pushed s.reorder s.available → Settled order pushed s'.reorder s'.available := by
  rcases hout : s.reorder.output_ with _ | ⟨tag, output⟩
  · have hpop : s.reorder.pop = (none, s.reorder) := by rw [TagReorder.pop, hout]
    exact ⟨s, by simp only [step, hpop], rfl, fun h => h⟩
  · have hpop : s.reorder.pop = (some tag, { s.reorder with output_ := output }) := by rw [TagReorder.pop, hout]
    have havailable : s.popped ++ [tag] ++ output = s.available := by
      rw [Session.available, hout, append_assoc, singleton_append]
    refine ⟨⟨{ s.reorder with output_ := output }, s.popped ++ [tag]⟩, by simp only [step, hpop], havailable, ?_⟩
    intro order pushed h
    rw [Session.available, havailable]
    exact ⟨⟨h.raw, h.ordered, h.keyed, h.nodup, h.perm, h.released⟩, h.expected⟩

end Step

/-! ## When a frame may come -/

/-- When a frame is pushed, the earlier frames of its offset are available: they are among the first frames of the
order, which were all pushed. -/
def Awaited (order : List FrameHeader) (pushed : List Frame) (frame : Frame) : Prop :=
  ∃ n, ((order.take n).map FrameHeader.offset).Subperm (pushed.map offsetOf) ∧
    (pushed.map offsetOf).count (offsetOf frame) ≤ ((order.take n).map FrameHeader.offset).count (offsetOf frame)

section Awaited

variable {order : List FrameHeader} {pushed : List Frame} {r : TagReorder} {available : List F4vTag}

/-- The offsets that were pushed, in the cache and available. -/
theorem Held.offsets (h : Held order pushed r available) :
    (r.cache_.map Prod.fst ++ (order.take r.ordered_next_).map FrameHeader.offset).Perm (pushed.map offsetOf) := by
  have hcache : r.cache_.map Prod.fst = (r.cache_.map Prod.snd).map offsetOf := by
    rw [map_map]
    exact map_congr_left h.keyed
  rw [hcache, ← h.released, ← map_append]
  exact h.perm.map offsetOf

/-- A prefix of the order that was pushed is available. -/
theorem Settled.le_next (h : Settled order pushed r available) {n : Nat}
    (hn : ((order.take n).map FrameHeader.offset).Subperm (pushed.map offsetOf)) (hle : n ≤ order.length) :
    n ≤ r.ordered_next_ := by
  by_contra hlt
  have hget : r.ordered_next_ < order.length := by omega
  have hdrop : order.drop r.ordered_next_ = order[r.ordered_next_] :: order.drop (r.ordered_next_ + 1) :=
    drop_eq_getElem_cons hget
  have hnew := h.expected order[r.ordered_next_] (by rw [hdrop]; rfl)
  -- The expected frame would be one more of its offset than there are.
  have hsub : (order.take (r.ordered_next_ + 1)).Sublist (order.take n) := (take_sublist_take_left (by omega))
  have hcount := ((hsub.map offset).subperm.trans hn).count_le (order[r.ordered_next_]).offset
  rw [← h.offsets.count_eq, count_append, count_eq_zero_of_not_mem hnew, Nat.zero_add,
    take_succ_eq_append_getElem hget, map_append, count_append, map_singleton,
    count_singleton_self] at hcount
  omega

/-- The offset of a frame is not in the cache exactly when the earlier frames of this offset are available. -/
theorem Settled.awaited_iff (h : Settled order pushed r available) (frame : Frame) :
    offsetOf frame ∉ r.cache_.map Prod.fst ↔ Awaited order pushed frame := by
  have hcount := h.offsets.count_eq (offsetOf frame)
  rw [count_append] at hcount
  constructor
  · intro hnew
    refine ⟨r.ordered_next_, (sublist_append_right _ _).subperm.trans h.offsets.subperm, ?_⟩
    rw [count_eq_zero_of_not_mem hnew] at hcount
    omega
  · rintro ⟨n, _, _⟩ hold
    have hpos := count_pos_iff.2 hold
    have htake : order.take n = order.take (min n order.length) := by
      rw [← take_take, take_length]
    have hnext : min n order.length ≤ r.ordered_next_ := by
      refine h.le_next ?_ (Nat.min_le_right _ _)
      rwa [← htake]
    have hsub : (order.take n).Sublist (order.take r.ordered_next_) := by
      rw [htake]
      exact take_sublist_take_left hnext
    have hmono := (hsub.map offset).count_le (offsetOf frame)
    omega

end Awaited

/-! ## Runs -/

section Runs

variable {compare : FrameComparisons} {order : List FrameHeader} {pushed : List Frame}

/-- No other `MOOV` atom is pushed. -/
def OneMoov (events : List Event) : Prop :=
  ∀ atom position, .atom atom position ∈ pushedTags events → atom.type ≠ atomMoov

/-- The frames that are pushed. -/
def pushedFrames (events : List Event) : List Frame := framesOf (pushedTags events)

theorem frameOf_raw {tag : F4vTag} {frame : Frame} (h : frameOf tag = some frame) :
    tag = .frame frame ∧ frame.header.type ≠ .rawFrame := by
  cases tag with
  | atom atom position => cases h
  | frame f =>
    by_cases hraw : f.header.type = .rawFrame
    · rw [frameOf, if_pos hraw] at h
      cases h
    · rw [frameOf, if_neg hraw] at h
      cases h
      exact ⟨rfl, hraw⟩

/-- Every frame is pushed when the earlier ones of its offset are available. -/
def AllAwaited (order : List FrameHeader) (pushed frames : List Frame) : Prop :=
  ∀ before frame after, frames = before ++ frame :: after → Awaited order (pushed ++ before) frame

theorem allAwaited_nil : AllAwaited order pushed [] := by
  intro before frame after h
  exact absurd h.symm (by simp)

theorem allAwaited_cons {frame : Frame} {frames : List Frame} : AllAwaited order pushed (frame :: frames) ↔
      Awaited order pushed frame ∧ AllAwaited order (pushed ++ [frame]) frames := by
  constructor
  · intro h
    refine ⟨?_, ?_⟩
    · have hfirst := h [] frame frames rfl
      rwa [append_nil] at hfirst
    · rintro before f after rfl
      have hmore := h (frame :: before) f after rfl
      rwa [append_assoc]
  · rintro ⟨hfirst, hmore⟩ before f after heq
    cases before with
    | nil =>
      cases heq
      rwa [append_nil]
    | cons b before =>
      cases heq
      have hf := hmore before f after rfl
      rwa [append_assoc] at hf

theorem allAwaited_append {frames more : List Frame} : AllAwaited order pushed (frames ++ more) ↔
      AllAwaited order pushed frames ∧ AllAwaited order (pushed ++ frames) more := by
  induction frames generalizing pushed with
  | nil => simp [allAwaited_nil]
  | cons frame frames ih =>
    rw [cons_append, allAwaited_cons, allAwaited_cons, ih, and_assoc, append_assoc, singleton_append]

variable (compare) in
/-- One call from a settled state: no `CHECK` fails exactly when the frame that is pushed, if any, is awaited. -/
theorem step_settled {s : Session} (h : Settled order pushed s.reorder s.available) {event : Event}
    (hmoov : OneMoov [event]) :
    ((step compare s event).isSome ↔ AllAwaited order pushed (pushedFrames [event])) ∧
      ∀ s', step compare s event = some s' →
        Settled order (pushed ++ pushedFrames [event]) s'.reorder s'.available := by
  cases event with
  | pop =>
    obtain ⟨s', hstep, -, hsettled⟩ := step_pop compare s
    have hnone : pushedFrames [.pop] = [] := rfl
    rw [hstep, hnone, append_nil]
    refine ⟨iff_of_true rfl allAwaited_nil, ?_⟩
    rintro _ ⟨⟩
    exact hsettled h
  | push tag =>
    have hframes : pushedFrames [.push tag] = framesOf [tag] := rfl
    rw [hframes]
    cases htag : frameOf tag with
    | none =>
      obtain ⟨r', hpush, hsettled⟩ := h.pass compare htag (by
        rintro atom position rfl
        exact hmoov atom position mem_cons_self)
      have hnil : framesOf [tag] = [] := by simp [framesOf, htag]
      simp only [step, hpush, Option.map_some, hnil, append_nil]
      refine ⟨iff_of_true rfl allAwaited_nil, ?_⟩
      rintro _ ⟨⟩
      exact hsettled
    | some frame =>
      obtain ⟨rfl, hframe⟩ := frameOf_raw htag
      rw [framesOf_frame hframe, allAwaited_cons, and_iff_left allAwaited_nil, ← h.awaited_iff]
      by_cases hnew : offsetOf frame ∉ s.reorder.cache_.map Prod.fst
      · obtain ⟨r', hpush, hsettled⟩ := h.push compare hframe hnew
        simp only [step, hpush, Option.map_some]
        refine ⟨iff_of_true rfl hnew, ?_⟩
        rintro _ ⟨⟩
        exact hsettled
      · have hnone := push_eq_none compare hframe (not_not.1 hnew)
        simp only [step, hnone, Option.map_none]
        exact ⟨iff_of_false Bool.false_ne_true hnew, fun _ hstep => nomatch hstep⟩

theorem pushedFrames_cons (event : Event) (events : List Event) :
    pushedFrames (event :: events) = pushedFrames [event] ++ pushedFrames events := by
  cases event with
  | pop => rfl
  | push tag => exact framesOf_append [tag] (pushedTags events)

theorem OneMoov.of_subset {events more : List Event} (h : OneMoov more) (hsub : ∀ event ∈ events, event ∈ more) :
    OneMoov events := by
  intro atom position hmem
  obtain ⟨event, hevent, htag⟩ := mem_filterMap.1 hmem
  exact h atom position (mem_filterMap.2 ⟨event, hsub event hevent, htag⟩)

variable (compare) in
/-- A run from a settled state, by induction on the calls. -/
theorem run_settled {s : Session} (h : Settled order pushed s.reorder s.available) {events : List Event}
    (hmoov : OneMoov events) :
    ((run (step compare) s events).isSome ↔ AllAwaited order pushed (pushedFrames events)) ∧
      ∀ t, run (step compare) s events = some t →
        Settled order (pushed ++ pushedFrames events) t.reorder t.available := by
  induction events generalizing s pushed with
  | nil =>
    refine ⟨iff_of_true rfl allAwaited_nil, ?_⟩
    rintro _ ⟨⟩
    have hnil : pushedFrames [] = [] := rfl
    rwa [hnil, append_nil]
  | cons event events ih =>
    obtain ⟨hsome, hsettled⟩ := step_settled compare h
      (hmoov.of_subset fun e he => mem_singleton.1 he ▸ mem_cons_self)
    rw [pushedFrames_cons, allAwaited_append, ← hsome, run_cons, ← append_assoc]
    cases hstep : step compare s event with
    | none => exact ⟨iff_of_false Bool.false_ne_true fun hall => Bool.false_ne_true hall.1, fun _ ht => nomatch ht⟩
    | some s' =>
      obtain ⟨hrest, hend⟩ := ih (hsettled s' hstep) (hmoov.of_subset fun e he => mem_cons_of_mem _ he)
      rw [Option.bind_some, hrest]
      exact ⟨(and_iff_right rfl).symm, hend⟩

end Runs

/-! ## Frames at distinct offsets -/

section Distinct

variable {order : List FrameHeader} {pushed : List Frame} {r : TagReorder} {available : List F4vTag}

/-- Lists of elements that a function tells apart. -/
theorem eq_of_map_eq {α β : Type} {f : α → β} {l m whole : List α} (hinj : (whole.map f).Nodup) (hl : ∀ x ∈ l, x ∈ whole)
    (hm : ∀ x ∈ m, x ∈ whole) (h : l.map f = m.map f) : l = m := by
  induction l generalizing m with
  | nil => exact (map_eq_nil_iff.1 h.symm).symm
  | cons x l ih =>
    cases m with
    | nil => cases h
    | cons y m =>
      rw [map_cons, map_cons, List.cons.injEq] at h
      rw [inj_on_of_nodup_map hinj (hl x mem_cons_self) (hm y mem_cons_self) h.1,
        ih (fun z hz => hl z (mem_cons_of_mem _ hz)) (fun z hz => hm z (mem_cons_of_mem _ hz)) h.2]

/-- The frames that are available have the headers of the first frames of the order. -/
theorem Settled.available_take (h : Settled order pushed r available) (hdistinct : (order.map FrameHeader.offset).Nodup)
    (hpushed : ∀ frame ∈ pushed, frame.header ∈ order) :
    (framesOf available).map Frame.header = order.take r.ordered_next_ := by
  refine eq_of_map_eq hdistinct ?_ (fun x hx => mem_of_mem_take hx) ?_
  · intro x hx
    obtain ⟨frame, hframe, rfl⟩ := mem_map.1 hx
    exact hpushed frame (h.perm.subset (mem_append_right _ hframe))
  · rw [map_map]
    exact h.released

/-- They are those before the first one that was not pushed. -/
theorem Settled.available_takeWhile (h : Settled order pushed r available)
    (hdistinct : (order.map FrameHeader.offset).Nodup) (hpushed : ∀ frame ∈ pushed, frame.header ∈ order) :
    (framesOf available).map Frame.header = order.takeWhile fun header => header ∈ pushed.map Frame.header := by
  have htake := h.available_take hdistinct hpushed
  have hall : ∀ header ∈ order.take r.ordered_next_, decide (header ∈ pushed.map Frame.header) = true := by
    intro header hheader
    rw [← htake] at hheader
    obtain ⟨frame, hframe, rfl⟩ := mem_map.1 hheader
    exact decide_eq_true (mem_map_of_mem (h.perm.subset (mem_append_right _ hframe)))
  have hstop : (order.drop r.ordered_next_).takeWhile (fun header => decide (header ∈ pushed.map Frame.header)) = [] := by
    rcases hdrop : order.drop r.ordered_next_ with _ | ⟨next, _⟩
    · rfl
    · have hexpected := h.expected next (by rw [hdrop]; rfl)
      have hnot : ¬ next ∈ pushed.map Frame.header := by
        intro hmem
        obtain ⟨frame, hframe, rfl⟩ := mem_map.1 hmem
        have hoffset := h.offsets.symm.subset (mem_map_of_mem (f := offsetOf) hframe)
        rcases mem_append.1 hoffset with hcache | hreleased
        · exact hexpected hcache
        · -- The offset would occur twice in the order.
          rw [← take_append_drop r.ordered_next_ order, map_append, nodup_append] at hdistinct
          refine hdistinct.2.2 _ hreleased _ ?_ rfl
          rw [hdrop]
          exact mem_map_of_mem (f := offset) mem_cons_self
      rw [takeWhile_cons, if_neg (by simpa using hnot)]
  rw [htake]
  conv_rhs => rw [← take_append_drop r.ordered_next_ order]
  rw [takeWhile_append_of_pos hall, hstop, append_nil]

/-- Frames at distinct offsets are all awaited: there is no earlier frame. -/
theorem allAwaited_of_distinct (hdistinct : (order.map FrameHeader.offset).Nodup) {frames : List Frame}
    (hframes : (frames.map Frame.header).Perm order) : AllAwaited order [] frames := by
  rintro before frame after rfl
  have hnodup : ((before ++ frame :: after).map offsetOf).Nodup := by
    have hperm := (hframes.map offset).nodup_iff.2 hdistinct
    rwa [map_map] at hperm
  rw [map_append, nodup_append] at hnodup
  have hnot : offsetOf frame ∉ before.map offsetOf := fun hmem =>
    hnodup.2.2 _ hmem _ (by simp) rfl
  refine ⟨0, nil_subperm, ?_⟩
  rw [nil_append, count_eq_zero_of_not_mem hnot]
  exact Nat.zero_le _

end Distinct

/-! ## Whole sessions -/

section Sessions

variable (compare : FrameComparisons) (order_by_timestamp : Bool) (atom : Atom) (position : Nat)

/-- The `MOOV` atom is pushed, and then the calls are made. -/
def session (events : List Event) : Option Session :=
  run (step compare) (start order_by_timestamp) (.push (.atom atom position) :: events)

/-- The frames come out in an order: each is available when it and all before it were pushed, and all of them in the
end. -/
structure InOrder (events : List Event) (order : List FrameHeader) : Prop where
  soon : ∀ seen, seen <+: events → ∃ s, session compare order_by_timestamp atom position seen = some s ∧
    ((framesOf s.available).map Frame.header =
      order.takeWhile fun header => header ∈ (pushedFrames seen).map Frame.header) ∧
    ∀ frame ∈ framesOf s.available, frame ∈ pushedFrames seen
  all : ∃ s, session compare order_by_timestamp atom position events = some s ∧
    (framesOf s.available).map Frame.header = order ∧ (framesOf s.available).Perm (pushedFrames events)

/-- Frames at distinct offsets come out in the stable order, and no `CHECK` fails with any frames. -/
def LosesNothing (events : List Event) : Prop :=
  (((moovFrames atom).map FrameHeader.offset).Nodup →
      ∃ order, StableOrder (sortKey order_by_timestamp) (moovFrames atom) order ∧
        InOrder compare order_by_timestamp atom position events order) ∧
    (session compare order_by_timestamp atom position events).isSome

variable {compare} {order_by_timestamp} {atom} {position}

variable (compare order_by_timestamp position) in
/-- Behind the `MOOV` atom. -/
theorem session_eq (hmoov : atom.type = atomMoov) (events : List Event) :
    ∃ s, Settled (orderFrames compare order_by_timestamp atom) [] s.reorder s.available ∧
      session compare order_by_timestamp atom position events = run (step compare) s events := by
  refine ⟨⟨⟨order_by_timestamp, some atom, orderFrames compare order_by_timestamp atom, 0, [],
    [.atom atom position]⟩, []⟩, ?_, ?_⟩
  · refine ⟨⟨fun f hf => absurd hf not_mem_nil, rfl, fun e he => absurd he not_mem_nil, nodup_nil,
      Perm.refl _, rfl⟩, fun next _ hmem => absurd hmem not_mem_nil⟩
  · rw [session, run_cons, step, start, TagReorder.push]
    simp only [if_pos hmoov]
    rfl

theorem session_inOrder (hmoov : atom.type = atomMoov) {events : List Event} (hone : OneMoov events)
    (hframes : ((pushedFrames events).map Frame.header).Perm (orderFrames compare order_by_timestamp atom))
    (hdistinct : ((orderFrames compare order_by_timestamp atom).map FrameHeader.offset).Nodup) :
    InOrder compare order_by_timestamp atom position events (orderFrames compare order_by_timestamp atom) := by
  have hreach : ∀ seen, seen <+: events → ∃ s, session compare order_by_timestamp atom position seen = some s ∧
      Settled (orderFrames compare order_by_timestamp atom) (pushedFrames seen) s.reorder s.available := by
    rintro seen ⟨more, rfl⟩
    obtain ⟨s, hsettled, heq⟩ := session_eq compare order_by_timestamp
      position hmoov seen
    have hsplit : pushedFrames (seen ++ more) = pushedFrames seen ++ pushedFrames more := by
      rw [pushedFrames, pushedTags, filterMap_append, framesOf_append]
      rfl
    have hall := allAwaited_of_distinct hdistinct hframes
    rw [hsplit, allAwaited_append] at hall
    obtain ⟨hsome, hend⟩ := run_settled compare hsettled
      (hone.of_subset fun e he => mem_append_left more he)
    obtain ⟨t, ht⟩ := Option.isSome_iff_exists.1 (hsome.2 hall.1)
    exact ⟨t, heq.trans ht, hend t ht⟩
  have hpushed : ∀ seen, seen <+: events → ∀ frame ∈ pushedFrames seen,
      frame.header ∈ orderFrames compare order_by_timestamp atom := by
    rintro seen ⟨more, rfl⟩ frame hframe
    refine hframes.subset (mem_map_of_mem ?_)
    rw [pushedFrames, pushedTags, filterMap_append, framesOf_append]
    exact mem_append_left _ hframe
  refine ⟨?_, ?_⟩
  · intro seen hseen
    obtain ⟨s, hs, hsettled⟩ := hreach seen hseen
    exact ⟨s, hs, hsettled.available_takeWhile hdistinct (hpushed seen hseen),
      fun frame hframe => hsettled.perm.subset (mem_append_right _ hframe)⟩
  · obtain ⟨s, hs, hsettled⟩ := hreach events (prefix_refl events)
    have havailable := hsettled.available_takeWhile hdistinct (hpushed events (prefix_refl events))
    rw [takeWhile_eq_self_iff.2 fun header hheader => decide_eq_true (hframes.symm.subset hheader)] at havailable
    refine ⟨s, hs, havailable, ?_⟩
    -- No frame is left for the cache.
    have hlength := hsettled.perm.length_eq
    have hcount := congrArg length havailable
    have hsame := hframes.length_eq
    rw [length_append] at hlength
    rw [length_map] at hcount hsame
    have hnil : s.reorder.cache_.map Prod.snd = [] := eq_nil_of_length_eq_zero (by omega)
    have hperm := hsettled.perm
    rwa [hnil, nil_append] at hperm

/-- With the frames of the `MOOV` atom pushed once each, nothing is lost exactly when every frame is pushed while the
earlier ones of its offset are available. -/
theorem losesNothing_iff (hcompare : compare.Lawful) (hmoov : atom.type = atomMoov) {events : List Event}
    (hone : OneMoov events) (hframes : ((pushedFrames events).map Frame.header).Perm (moovFrames atom)) :
    LosesNothing compare order_by_timestamp atom position events ↔
      AllAwaited (orderFrames compare order_by_timestamp atom) [] (pushedFrames events) := by
  have horder := orderFrames_stableOrder hcompare order_by_timestamp atom
  obtain ⟨s, hsettled, heq⟩ := session_eq compare order_by_timestamp
    position hmoov events
  have hsome := (run_settled compare hsettled hone).1
  rw [← heq] at hsome
  constructor
  · exact fun h => hsome.1 h.2
  · intro hall
    refine ⟨fun hdistinct => ⟨_, horder, ?_⟩, hsome.2 hall⟩
    exact session_inOrder hmoov hone (hframes.trans horder.perm.symm)
      ((horder.perm.map offset).nodup_iff.2 hdistinct)

end Sessions

section Samples

open F4vToFlvConverter (sampleContainer sampleVersioned sampleZeros)

/-- A video track with three frames: 4 bytes at 50, then an empty one at 10, and 5 bytes at 10. -/
def emptySampleMoov : Atom :=
  sampleContainer atomMoov
    [sampleContainer atomTrak
      [sampleVersioned (fourCC 't' 'k' 'h' 'd')
        (.tkhd ⟨0, 0, 1, sampleZeros 4, 69, sampleZeros 8, 0, 0, 0, sampleZeros 2, sampleZeros 36, (0, 0), (0, 0)⟩),
       sampleContainer atomMdia
        [sampleVersioned (fourCC 'm' 'd' 'h' 'd') (.mdhd ⟨0, 0, 1000, 69, 0, sampleZeros 2⟩),
         sampleContainer atomMinf
          [sampleContainer atomStbl
            [sampleVersioned (fourCC 's' 't' 't' 's') (.stts [(3, 23)]),
             sampleVersioned (fourCC 's' 't' 's' 'c') (.stsc [(1, 1, 1), (2, 2, 1)]),
             sampleVersioned (fourCC 's' 't' 's' 'z') (.stsz 0 [4, 0, 5]),
             sampleVersioned (fourCC 's' 't' 'c' 'o') (.stco [50, 10])]]]]]

/-- The comparisons. -/
def plainComparisons : FrameComparisons where
  compareFramesByTimestamp a b := a.timestamp < b.timestamp
  compareFramesByOffset a b := a.offset < b.offset

theorem plainComparisons_lawful : plainComparisons.Lawful :=
  ⟨fun _ _ => decide_eq_true_iff, fun _ _ => decide_eq_true_iff⟩

/-- A frame of the track. -/
def sampleVideo (offset size timestamp : Int) : Frame :=
  ⟨⟨offset, size, timestamp, 0, 23, timestamp, .videoFrame, false⟩, List.replicate size.toNat 0⟩

/-- The frames in file order. -/
def fileOrder : List Event :=
  [.push (.frame (sampleVideo 10 0 23)), .push (.frame (sampleVideo 10 5 46)), .push (.frame (sampleVideo 50 4 0))]

/-- The second frame at the offset 10 comes while the first one waits for the frame at 50. -/
theorem fileOrder_check_fails : ((pushedFrames fileOrder).map Frame.header).Perm (moovFrames emptySampleMoov) ∧
      ¬ LosesNothing plainComparisons true emptySampleMoov 0 fileOrder := by
  refine ⟨by decide +kernel, ?_⟩
  rintro ⟨-, hsome⟩
  have hnone : (session plainComparisons true emptySampleMoov 0 fileOrder).isSome = false := by decide +kernel
  exact Bool.false_ne_true hsome

/-- The frames in the order of their timestamps. -/
def timeOrder : List Event :=
  [.push (.frame (sampleVideo 50 4 0)), .push (.frame (sampleVideo 10 0 23)), .pop, .push (.frame (sampleVideo 10 5 46))]

theorem timeOrder_losesNothing : LosesNothing plainComparisons true emptySampleMoov 0 timeOrder ↔
      AllAwaited (orderFrames plainComparisons true emptySampleMoov) [] (pushedFrames timeOrder) :=
  losesNothing_iff plainComparisons_lawful (by decide +kernel) (by
      intro atom position hmem
      simp [timeOrder, pushedTags] at hmem) (by decide +kernel)

end Samples

end TagReorder

end Whispercast.F4v
