import Mathlib.Algebra.Order.Ring.Int
import Whispercast.F4v.FrameReader
import Whispercast.Library.Tiling

/-!
# Frames tile the MDAT

In every run of `IOReadFrame` the frames that were returned lie end to end from the beginning of the `MDAT` to the
current offset (`Inv.tiles`), and those that are not raw are the frames of the table that lie inside and were not
covered at their turn (`Inv.due`). A call picks a frame and steps over those that lie wrong (`pickFrame_spec`).
-/

namespace Whispercast.F4v

open Io Library.Tiling List

/-- The bytes of the file that a frame covers. -/
def FrameHeader.segment (h : FrameHeader) : Segment Int := ⟨h.offset, h.size⟩

namespace FrameReader

/-! ## Turns -/

section Turns

variable (mdatBegin mdatEnd : Int)

/-- The frame is stepped over: it starts outside, or where the frames before have reached beyond. -/
def Skips (offset : Int) (f : FrameHeader) : Prop :=
  f.offset < mdatBegin ∨ mdatEnd ≤ f.offset ∨ f.offset < offset

instance (offset : Int) (f : FrameHeader) : Decidable (Skips mdatBegin mdatEnd offset f) :=
  inferInstanceAs (Decidable (_ ∨ _ ∨ _))

/-- How far the frames reach when a frame has had its turn. -/
def reach (offset : Int) (f : FrameHeader) : Int :=
  if Skips mdatBegin mdatEnd offset f then offset else min (f.offset + f.size) mdatEnd

/-- The frames of a table, each with the offset that the frames before it have reached when its turn comes. -/
def turns : Int → List FrameHeader → List (FrameHeader × Int)
  | _, [] => []
  | offset, f :: table => (f, offset) :: turns (reach mdatBegin mdatEnd offset f) table

/-- The frame lies wholly inside. -/
def Inside (f : FrameHeader) : Prop := mdatBegin ≤ f.offset ∧ f.offset < mdatEnd ∧ f.offset + f.size ≤ mdatEnd

instance (f : FrameHeader) : Decidable (Inside mdatBegin mdatEnd f) := inferInstanceAs (Decidable (_ ∧ _ ∧ _))

/-- The frames of a table that lie inside, and whose first byte is not covered when their turn comes. -/
def due (offset : Int) (table : List FrameHeader) : List FrameHeader :=
  ((turns mdatBegin mdatEnd offset table).filter fun t => Inside mdatBegin mdatEnd t.1 ∧ t.2 ≤ t.1.offset).map Prod.fst

end Turns

variable {mdatBegin mdatEnd offset : Int} {f : FrameHeader} {fs : List FrameHeader}

theorem due_cons (mdatBegin mdatEnd offset : Int) (f : FrameHeader) (fs : List FrameHeader) :
    due mdatBegin mdatEnd offset (f :: fs) =
      (if Inside mdatBegin mdatEnd f ∧ offset ≤ f.offset then [f] else []) ++
        due mdatBegin mdatEnd (reach mdatBegin mdatEnd offset f) fs := by
  rw [due, turns, filter_cons]
  split_ifs with h hkeep hkeep
  · rfl
  · exact absurd (of_decide_eq_true h) hkeep
  · exact absurd (decide_eq_true hkeep) h
  · rfl

/-- A frame that is stepped over changes nothing. -/
theorem due_of_skips (h : Skips mdatBegin mdatEnd offset f) :
    due mdatBegin mdatEnd offset (f :: fs) = due mdatBegin mdatEnd offset fs := by
  have hnot : ¬ (Inside mdatBegin mdatEnd f ∧ offset ≤ f.offset) := by
    rintro ⟨⟨_, _, -⟩, _⟩
    rcases h with h | h | h <;> omega
  rw [due_cons, if_neg hnot, reach, if_pos h, nil_append]

theorem due_append_of_skips {skipped : List FrameHeader} (h : ∀ f ∈ skipped, Skips mdatBegin mdatEnd offset f) :
    due mdatBegin mdatEnd offset (skipped ++ fs) = due mdatBegin mdatEnd offset fs := by
  induction skipped with
  | nil => rfl
  | cons f skipped ih =>
    rw [cons_append, due_of_skips (h f mem_cons_self), ih fun g hg => h g (mem_cons_of_mem _ hg)]

/-- A frame at the current offset that ends inside is due. -/
theorem due_of_regular (hbegin : mdatBegin ≤ f.offset) (hend : f.offset < mdatEnd)
    (hstop : f.offset + f.size ≤ mdatEnd) :
    due mdatBegin mdatEnd f.offset (f :: fs) = f :: due mdatBegin mdatEnd (f.offset + f.size) fs := by
  have hnot : ¬ Skips mdatBegin mdatEnd f.offset f := by
    rintro (h | h | h) <;> omega
  rw [due_cons, if_pos ⟨⟨hbegin, hend, hstop⟩, le_refl _⟩, reach, if_neg hnot, min_eq_left hstop]
  rfl

/-- A frame that overlaps the end is not due, and the frames reach the end. -/
theorem due_of_cut (hbegin : mdatBegin ≤ f.offset) (hend : f.offset < mdatEnd) (hstop : mdatEnd < f.offset + f.size) :
    due mdatBegin mdatEnd f.offset (f :: fs) = due mdatBegin mdatEnd mdatEnd fs := by
  have hnot : ¬ Skips mdatBegin mdatEnd f.offset f := by
    rintro (h | h | h) <;> omega
  have houtside : ¬ (Inside mdatBegin mdatEnd f ∧ f.offset ≤ f.offset) := fun h => by
    have hle := h.1.2.2
    omega
  rw [due_cons, if_neg houtside, reach, if_neg hnot, min_eq_right (le_of_lt hstop), nil_append]

/-- What is between the frames is not due. -/
theorem due_of_gap (hbegin : mdatBegin ≤ offset) (hlt : offset < f.offset) (hend : f.offset < mdatEnd) :
    due mdatBegin mdatEnd offset (f :: fs) = due mdatBegin mdatEnd f.offset (f :: fs) := by
  have hnot : ¬ Skips mdatBegin mdatEnd offset f := by
    rintro (h | h | h) <;> omega
  have hnot' : ¬ Skips mdatBegin mdatEnd f.offset f := by
    rintro (h | h | h) <;> omega
  have hiff : (Inside mdatBegin mdatEnd f ∧ offset ≤ f.offset) ↔ (Inside mdatBegin mdatEnd f ∧ f.offset ≤ f.offset) :=
    and_congr_right fun _ => iff_of_true (le_of_lt hlt) (le_refl _)
  rw [due_cons, due_cons, reach, reach, if_neg hnot, if_neg hnot']
  simp only [hiff]

/-! ## Picking a frame -/

/-- What the loop may end with, from the frames `fs` of which `next` is the first. -/
inductive Picked (r : FrameReader) (fs : List FrameHeader) (next : Nat) : Pick → Nat → Prop where
  | done (hskips : ∀ f ∈ fs, Skips r.mdatBegin r.mdatEnd r.mdatOffset f) (hoffset : r.mdatOffset = r.mdatEnd) :
      Picked r fs next .done (next + fs.length)
  | rest (hskips : ∀ f ∈ fs, Skips r.mdatBegin r.mdatEnd r.mdatOffset f) (hoffset : r.mdatOffset < r.mdatEnd) :
      Picked r fs next (.frame (r.rawFrame (r.mdatEnd - r.mdatOffset)) false) (next + fs.length)
  | gap (skipped rest : List FrameHeader) (f : FrameHeader) (hsplit : fs = skipped ++ f :: rest)
      (hskips : ∀ f ∈ skipped, Skips r.mdatBegin r.mdatEnd r.mdatOffset f) (hlt : r.mdatOffset < f.offset)
      (hend : f.offset < r.mdatEnd) :
      Picked r fs next (.frame (r.rawFrame (f.offset - r.mdatOffset)) false) (next + skipped.length)
  | cut (skipped rest : List FrameHeader) (f : FrameHeader) (hsplit : fs = skipped ++ f :: rest)
      (hskips : ∀ f ∈ skipped, Skips r.mdatBegin r.mdatEnd r.mdatOffset f) (hoffset : f.offset = r.mdatOffset)
      (hend : f.offset < r.mdatEnd) (hstop : r.mdatEnd < f.offset + f.size) :
      Picked r fs next (.frame (r.cutFrame f) true) (next + skipped.length)
  | regular (skipped rest : List FrameHeader) (f : FrameHeader) (hsplit : fs = skipped ++ f :: rest)
      (hskips : ∀ f ∈ skipped, Skips r.mdatBegin r.mdatEnd r.mdatOffset f) (hoffset : f.offset = r.mdatOffset)
      (hend : f.offset < r.mdatEnd) (hstop : f.offset + f.size ≤ r.mdatEnd) :
      Picked r fs next (.frame f true) (next + skipped.length)

variable {next : Nat}

/-- A frame that is stepped over stands in front of what is picked. -/
theorem Picked.skip {r : FrameReader} {pick : Pick} {next' : Nat} (h : Picked r fs (next + 1) pick next')
    (hf : Skips r.mdatBegin r.mdatEnd r.mdatOffset f) : Picked r (f :: fs) next pick next' := by
  have hcons : ∀ {skipped : List FrameHeader}, (∀ g ∈ skipped, Skips r.mdatBegin r.mdatEnd r.mdatOffset g) →
      ∀ g ∈ f :: skipped, Skips r.mdatBegin r.mdatEnd r.mdatOffset g := by
    intro skipped hskips g hg
    rcases mem_cons.1 hg with rfl | hg
    · exact hf
    · exact hskips g hg
  have hnext : ∀ n, next + 1 + n = next + (n + 1) := fun n => by omega
  cases h with
  | done hskips hoffset =>
    rw [hnext]
    exact .done (hcons hskips) hoffset
  | rest hskips hoffset =>
    rw [hnext]
    exact .rest (hcons hskips) hoffset
  | gap skipped rest g hsplit hskips hlt hend =>
    rw [hnext]
    exact .gap (f :: skipped) rest g (by rw [hsplit]; rfl) (hcons hskips) hlt hend
  | cut skipped rest g hsplit hskips hoffset hend hstop =>
    rw [hnext]
    exact .cut (f :: skipped) rest g (by rw [hsplit]; rfl) (hcons hskips) hoffset hend hstop
  | regular skipped rest g hsplit hskips hoffset hend hstop =>
    rw [hnext]
    exact .regular (f :: skipped) rest g (by rw [hsplit]; rfl) (hcons hskips) hoffset hend hstop

/-- Between its ends, and with a previous frame if it has moved, the reader always picks. -/
theorem pickFrame_spec {r : FrameReader} (hbegin : r.mdatBegin ≤ r.mdatOffset) (hend : r.mdatOffset ≤ r.mdatEnd)
    (hprev : r.mdatBegin < r.mdatOffset → r.mdatPrevFrame.isSome = true)
    (hlength : next + fs.length = r.mdatFrames.length) :
    ∃ pick next', r.pickFrame fs next = some (pick, next') ∧ Picked r fs next pick next' := by
  induction fs generalizing next with
  | nil =>
    rw [pickFrame, guard, if_pos (by simpa using hlength)]
    simp only [Option.pure_def, Option.bind_eq_bind, Option.bind_some]
    split_ifs with hle
    · have heq : r.mdatOffset = r.mdatEnd := le_antisymm hend hle
      rw [guard, if_pos heq]
      exact ⟨_, _, rfl, .done (forall_mem_nil _) heq⟩
    · exact ⟨_, _, rfl, .rest (forall_mem_nil _) (lt_of_not_ge hle)⟩
  | cons f fs ih =>
    rw [length_cons] at hlength
    have hskip : Skips r.mdatBegin r.mdatEnd r.mdatOffset f →
        ∃ pick next', r.pickFrame fs (next + 1) = some (pick, next') ∧ Picked r (f :: fs) next pick next' := by
      intro hskips
      obtain ⟨pick, next', hpick, hpicked⟩ := ih (show next + 1 + fs.length = r.mdatFrames.length by omega)
      exact ⟨pick, next', hpick, hpicked.skip hskips⟩
    rw [pickFrame, guard, if_pos (by omega)]
    simp only [Option.pure_def, Option.bind_eq_bind, Option.bind_some]
    split_ifs with hbefore hbeyond hpast hfuture hover
    · exact hskip (Or.inl hbefore)
    · exact hskip (Or.inr (Or.inl hbeyond))
    · rw [guard, if_pos (hprev (by omega))]
      exact hskip (Or.inr (Or.inr hpast))
    · rw [guard, if_pos (by omega)]
      have hmin : min f.offset r.mdatEnd = f.offset := min_eq_left (by omega)
      rw [hmin]
      exact ⟨_, _, rfl, .gap [] fs f rfl (forall_mem_nil _) hfuture (by omega)⟩
    · rw [guard, if_pos (by omega), guard, if_pos (by omega)]
      exact ⟨_, _, rfl, .cut [] fs f rfl (forall_mem_nil _) (by omega) (by omega) hover⟩
    · rw [guard, if_pos (by omega), guard, if_pos (by omega), guard, if_pos (by omega)]
      exact ⟨_, _, rfl,
        .regular [] fs f rfl (forall_mem_nil _) (by omega) (by omega) (by omega)⟩

/-! ## Runs -/

/-- Calls of the reader while data arrives: all the data that has arrived, the reader, the data that is left, and the
frames that were returned. -/
inductive Run (start : FrameReader) : Bytes → FrameReader → Bytes → List Frame → Prop where
  | start (io : Bytes) : Run start io start io []
  | arrive {arrived : Bytes} {r : FrameReader} {io : Bytes} {out : List Frame} (h : Run start arrived r io out)
      (piece : Bytes) : Run start (arrived ++ piece) r (io ++ piece) out
  | call {arrived : Bytes} {r : FrameReader} {io : Bytes} {out : List Frame} (h : Run start arrived r io out)
      {status : TagDecodeStatus} {frame : Option Frame} {r' : FrameReader} {io' : Bytes}
      (hcall : r.ioReadFrame io = some (status, frame, r', io')) : Run start arrived r' io' (out ++ frame.toList)

/-- The frames that are not raw. -/
def shown (out : List Frame) : List FrameHeader := (out.map Frame.header).filter fun h => h.type ≠ .rawFrame

/-- The most frames that may still come: two for each frame of the table that is left, and one more if the current
offset is neither the end nor the beginning of the next frame. -/
def left (table : List FrameHeader) (next : Nat) (mdatEnd offset : Int) : Nat :=
  2 * (table.length - next) +
    if offset = mdatEnd ∨ (table[next]?).map FrameHeader.offset = some offset then 0 else 1

theorem left_le (table : List FrameHeader) (next : Nat) (mdatEnd offset : Int) :
    left table next mdatEnd offset ≤ 2 * (table.length - next) + 1 := by
  rw [left]
  split_ifs <;> omega

/-- What holds between the calls of a run over a table. -/
structure Inv (mdatBegin mdatEnd : Int) (table : List FrameHeader) (arrived : Bytes) (r : FrameReader) (io : Bytes)
    (out : List Frame) : Prop where
  starts : r.mdatBegin = mdatBegin
  ends : r.mdatEnd = mdatEnd
  frames : r.mdatFrames = table
  within : r.mdatNext ≤ table.length
  lower : mdatBegin ≤ r.mdatOffset
  upper : r.mdatOffset ≤ mdatEnd
  tiles : Tiles mdatBegin (out.map fun f => f.header.segment) r.mdatOffset
  prev : r.mdatPrevFrame = out.getLast?.map Frame.header
  due : due mdatBegin mdatEnd mdatBegin table =
    shown out ++ due mdatBegin mdatEnd r.mdatOffset (table.drop r.mdatNext)
  data : out.flatMap Frame.data ++ io = arrived
  sizes : ∀ f ∈ out, (f.data.length : Int) = f.header.size
  count : out.length + left table r.mdatNext mdatEnd r.mdatOffset ≤ 2 * table.length + 1

/-- The frame that was picked starts at the current offset, ends inside, and is due unless it is raw; what was due
behind it still is. -/
structure Advances (r : FrameReader) (header : FrameHeader) (next : Nat) : Prop where
  offset : header.offset = r.mdatOffset
  size : 0 ≤ header.size
  upper : r.mdatOffset + header.size ≤ r.mdatEnd
  within : next ≤ r.mdatFrames.length
  due : FrameReader.due r.mdatBegin r.mdatEnd r.mdatOffset (r.mdatFrames.drop r.mdatNext) =
    [header].filter (fun h => h.type ≠ .rawFrame) ++
      FrameReader.due r.mdatBegin r.mdatEnd (r.mdatOffset + header.size) (r.mdatFrames.drop next)
  count : left r.mdatFrames next r.mdatEnd (r.mdatOffset + header.size) <
    left r.mdatFrames r.mdatNext r.mdatEnd r.mdatOffset

theorem drop_split {table skipped rest : List FrameHeader} {f : FrameHeader}
    (h : table.drop next = skipped ++ f :: rest) :
    table.drop (next + skipped.length) = f :: rest ∧ table.drop (next + skipped.length + 1) = rest ∧
      next + skipped.length < table.length := by
  have hdrop : table.drop (next + skipped.length) = f :: rest := by
    rw [← drop_drop, h, drop_left]
  refine ⟨hdrop, ?_, ?_⟩
  · rw [← drop_drop, hdrop]
    rfl
  · have hlen := congrArg length hdrop
    rw [length_drop, length_cons] at hlen
    omega

theorem Picked.advances {r : FrameReader} {header : FrameHeader} {advance : Bool}
    (hvalid : ∀ f ∈ r.mdatFrames, f.type ≠ .rawFrame ∧ 0 ≤ f.size) (hbegin : r.mdatBegin ≤ r.mdatOffset)
    (hnext : r.mdatNext ≤ r.mdatFrames.length)
    (h : Picked r (r.mdatFrames.drop r.mdatNext) r.mdatNext (.frame header advance) next) :
    Advances r header (if advance then next + 1 else next) := by
  have hall : r.mdatNext + (r.mdatFrames.drop r.mdatNext).length = r.mdatFrames.length := by
    rw [length_drop]
    omega
  generalize hfs : r.mdatFrames.drop r.mdatNext = fs at h hall
  cases h with
  | rest hskips hoffset =>
    have hdue : due r.mdatBegin r.mdatEnd r.mdatOffset fs = [] := by
      rw [← append_nil fs, due_append_of_skips hskips]
      rfl
    have hstop : r.mdatOffset + (r.mdatEnd - r.mdatOffset) = r.mdatEnd := by omega
    rw [if_neg Bool.false_ne_true, hall]
    refine ⟨rfl, ?_, ?_, le_refl _, ?_, ?_⟩
    · exact Int.sub_nonneg_of_le (le_of_lt hoffset)
    · exact le_of_eq hstop
    · rw [hfs, hdue, List.drop_length]
      rfl
    · show left _ _ _ (r.mdatOffset + (r.mdatEnd - r.mdatOffset)) < _
      rw [hstop, left, if_pos (Or.inl rfl), left]
      split_ifs with hflag
      · rcases hflag with hflag | hflag
        · omega
        · rw [Option.map_eq_some_iff] at hflag
          obtain ⟨f, hf, -⟩ := hflag
          have hlt := (List.getElem?_eq_some_iff.1 hf).1
          omega
      · omega
  | gap skipped rest f hsplit hskips hlt hend =>
    obtain ⟨hdrop, -, hlen⟩ := drop_split (hfs.trans hsplit)
    have hstop : r.mdatOffset + (f.offset - r.mdatOffset) = f.offset := by omega
    rw [if_neg Bool.false_ne_true]
    refine ⟨rfl, ?_, ?_, le_of_lt hlen, ?_, ?_⟩
    · exact Int.sub_nonneg_of_le (le_of_lt hlt)
    · exact (le_of_eq hstop).trans (le_of_lt hend)
    · show _ = _ ++ due _ _ (r.mdatOffset + (f.offset - r.mdatOffset)) _
      rw [hfs, hstop, hdrop, hsplit, due_append_of_skips hskips, due_of_gap hbegin hlt hend]
      rfl
    · have hhead : ∀ k, r.mdatNext + skipped.length = k → r.mdatFrames[k]? = some f := by
        rintro k rfl
        have hget := congrArg (fun l => l[0]?) hdrop
        simpa using hget
      show left _ _ _ (r.mdatOffset + (f.offset - r.mdatOffset)) < _
      rw [hstop, left, if_pos (Or.inr (by rw [hhead _ rfl]; rfl)), left]
      split_ifs with hflag
      · -- The next frame of the table is not the one behind the gap.
        rcases Nat.eq_zero_or_pos skipped.length with _ | _
        · rcases hflag with hflag | hflag
          · omega
          · rw [hhead _ (by omega), Option.map_some, Option.some.injEq] at hflag
            omega
        · omega
      · omega
  | cut skipped rest f hsplit hskips hoffset hend hstop =>
    obtain ⟨-, hdrop, hlen⟩ := drop_split (hfs.trans hsplit)
    have hend' : r.mdatOffset + (r.mdatEnd - r.mdatOffset) = r.mdatEnd := by omega
    rw [if_pos rfl]
    refine ⟨rfl, ?_, ?_, hlen, ?_, ?_⟩
    · exact Int.sub_nonneg_of_le (by omega)
    · exact le_of_eq hend'
    · show _ = _ ++ due _ _ (r.mdatOffset + (r.mdatEnd - r.mdatOffset)) _
      rw [hfs, hend', hdrop, hsplit, due_append_of_skips hskips, ← hoffset, due_of_cut (by omega) hend hstop]
      rfl
    · refine lt_of_le_of_lt (left_le _ _ _ _) ?_
      rw [left]
      omega
  | regular skipped rest _ hsplit hskips hoffset hend hstop =>
    obtain ⟨-, hdrop, hlen⟩ := drop_split (hfs.trans hsplit)
    have hmem : header ∈ r.mdatFrames := by
      refine List.mem_of_mem_drop (i := r.mdatNext) ?_
      rw [hfs, hsplit]
      simp
    obtain ⟨htype, hsize⟩ := hvalid header hmem
    rw [if_pos rfl]
    refine ⟨hoffset, hsize, by omega, hlen, ?_, ?_⟩
    · rw [hfs, hdrop, hsplit, due_append_of_skips hskips, ← hoffset, due_of_regular (by omega) hend hstop,
        List.filter_cons_of_pos (by simpa using htype)]
      rfl
    · refine lt_of_le_of_lt (left_le _ _ _ _) ?_
      rw [left]
      omega

/-- What a call may answer: there are no more frames at the end, or not all of the next frame has arrived, or a frame
with its data. -/
inductive Answered (r : FrameReader) (io : Bytes) :
    TagDecodeStatus → Option Frame → FrameReader → Bytes → Prop where
  | done {next : Nat} (hoffset : r.mdatOffset = r.mdatEnd) (hnext : next = r.mdatFrames.length)
      (hskips : ∀ f ∈ r.mdatFrames.drop r.mdatNext, Skips r.mdatBegin r.mdatEnd r.mdatOffset f) :
      Answered r io .success none { r with mdatNext := next } io
  | noData {next : Nat} {header : FrameHeader} {advance : Bool} (hsize : (io.length : Int) < header.size)
      (hpick : Picked r (r.mdatFrames.drop r.mdatNext) r.mdatNext (.frame header advance) next) :
      Answered r io .noData none { r with mdatNext := next } io
  | frame {next : Nat} {header : FrameHeader} {data rest : Bytes} (hdata : io = data ++ rest)
      (hsize : (data.length : Int) = header.size) (hadvances : Advances r header next) :
      Answered r io .success (some ⟨header, data⟩)
        { r with
          mdatOffset := r.mdatOffset + header.size, mdatPrevFrame := some header, mdatNext := next } rest

variable {mdatBegin mdatEnd : Int} {table : List FrameHeader} {arrived io : Bytes} {r : FrameReader}
  {out : List Frame}

theorem Inv.prev_stop (hinv : Inv mdatBegin mdatEnd table arrived r io out) :
    (r.mdatPrevFrame.all fun prev => prev.offset + prev.size = r.mdatOffset) = true := by
  rw [hinv.prev]
  cases hlast : out.getLast? with
  | none => rfl
  | some f =>
    have hsegment : (out.map fun f => f.header.segment).getLast? = some f.header.segment := by
      rw [getLast?_map, hlast]
      rfl
    exact decide_eq_true (hinv.tiles.stop_eq hsegment)

/-- A reader that has moved has returned a frame. -/
theorem Inv.prev_isSome (hinv : Inv mdatBegin mdatEnd table arrived r io out) (hlt : r.mdatBegin < r.mdatOffset) :
    r.mdatPrevFrame.isSome = true := by
  rw [hinv.prev, Option.isSome_map, getLast?_isSome]
  rintro rfl
  have heq : mdatBegin = r.mdatOffset := hinv.tiles
  rw [hinv.starts, heq] at hlt
  exact lt_irrefl _ hlt

/-- No `CHECK` fails between the calls of a run. -/
theorem ioReadFrame_spec (hvalid : ∀ f ∈ table, f.type ≠ .rawFrame ∧ 0 ≤ f.size)
    (hinv : Inv mdatBegin mdatEnd table arrived r io out) :
    ∃ status frame r' io', r.ioReadFrame io = some (status, frame, r', io') ∧ Answered r io status frame r' io' := by
  have hlower : r.mdatBegin ≤ r.mdatOffset := hinv.starts ▸ hinv.lower
  have hupper : r.mdatOffset ≤ r.mdatEnd := hinv.ends ▸ hinv.upper
  have hwithin : r.mdatNext ≤ r.mdatFrames.length := hinv.frames ▸ hinv.within
  obtain ⟨pick, _, hpick, hpicked⟩ := pickFrame_spec hlower hupper hinv.prev_isSome
    (show r.mdatNext + (r.mdatFrames.drop r.mdatNext).length = _ by rw [length_drop]; omega)
  rw [ioReadFrame, guard, if_pos ⟨hlower, hupper⟩, guard, if_pos hinv.prev_stop, hpick]
  simp only [Option.pure_def, Option.bind_eq_bind, Option.bind_some]
  cases pick with
  | done =>
    refine ⟨_, _, _, _, rfl, ?_⟩
    cases hpicked with
    | done hskips hoffset => exact .done hoffset (by rw [length_drop]; omega) hskips
  | frame header advance =>
    dsimp only
    by_cases hshort : (io.length : Int) < header.size
    · rw [if_pos hshort]
      exact ⟨_, _, _, _, rfl, .noData hshort hpicked⟩
    · have hadvances := hpicked.advances (by rw [hinv.frames]; exact hvalid) hlower hwithin
      have hsize := hadvances.size
      have hread : (io.length : Int) - (io.drop header.size.toNat).length = header.size := by
        rw [length_drop]
        omega
      rw [if_neg hshort, hread, guard, if_pos rfl]
      refine ⟨_, _, _, _, rfl, .frame (take_append_drop _ _).symm ?_ hadvances⟩
      rw [length_take]
      omega

theorem left_of_le {next' : Nat} {offset : Int} (hle : next ≤ next') (hwithin : next' ≤ table.length) :
    left table next' mdatEnd offset ≤ left table next mdatEnd offset := by
  rcases Nat.eq_or_lt_of_le hle with rfl | _
  · exact le_refl _
  · refine le_trans (left_le _ _ _ _) ?_
    rw [left]
    omega

/-- A call keeps the invariant. -/
theorem Inv.call (hinv : Inv mdatBegin mdatEnd table arrived r io out) {status : TagDecodeStatus}
    {frame : Option Frame} {r' : FrameReader} {io' : Bytes} (h : Answered r io status frame r' io') :
    Inv mdatBegin mdatEnd table arrived r' io' (out ++ frame.toList) := by
  have hwithin := hinv.within
  -- Stepping over frames leaves the others due.
  have hstep : ∀ {skipped rest : List FrameHeader}, table.drop r.mdatNext = skipped ++ rest →
      (∀ f ∈ skipped, Skips mdatBegin mdatEnd r.mdatOffset f) →
      Inv mdatBegin mdatEnd table arrived { r with mdatNext := r.mdatNext + skipped.length } io out := by
    intro skipped rest hsplit hskips
    have hlen := congrArg length hsplit
    rw [length_drop, length_append] at hlen
    have hdrop : table.drop (r.mdatNext + skipped.length) = rest := by
      rw [← drop_drop, hsplit, drop_left]
    refine ⟨hinv.starts, hinv.ends, hinv.frames, by dsimp only; omega, hinv.lower, hinv.upper, hinv.tiles, hinv.prev,
      ?_, hinv.data, hinv.sizes, ?_⟩
    · rw [hinv.due, hsplit, due_append_of_skips hskips, ← hdrop]
    · exact le_trans (Nat.add_le_add_left (left_of_le (Nat.le_add_right _ _) (by omega)) _) hinv.count
  cases h with
  | done hoffset hnext hskips =>
    rw [Option.toList_none, append_nil]
    rw [hinv.frames, hinv.starts, hinv.ends] at hskips
    have hstepped := hstep (append_nil _).symm hskips
    have heq : r.mdatNext + (table.drop r.mdatNext).length = r.mdatFrames.length := by
      rw [length_drop, hinv.frames]
      omega
    rwa [heq, ← hnext] at hstepped
  | noData hsize hpick =>
    rw [Option.toList_none, append_nil]
    rw [hinv.frames] at hpick
    have hends : ∀ {skipped : List FrameHeader}, (∀ f ∈ skipped, Skips r.mdatBegin r.mdatEnd r.mdatOffset f) →
        ∀ f ∈ skipped, Skips mdatBegin mdatEnd r.mdatOffset f := by
      intro skipped hskips f hf
      rw [← hinv.starts, ← hinv.ends]
      exact hskips f hf
    cases hpick with
    | rest hskips => exact hstep (append_nil _).symm (hends hskips)
    | gap skipped rest f hsplit hskips => exact hstep hsplit (hends hskips)
    | cut skipped rest f hsplit hskips => exact hstep hsplit (hends hskips)
    | regular skipped rest _ hsplit hskips => exact hstep hsplit (hends hskips)
  | @frame next header data _ hdata hsize hadvances =>
    obtain ⟨hoffset, -, hupper, hle, hdue, hcount⟩ := hadvances
    have hlower := hinv.lower
    rw [hinv.frames] at hle hdue hcount
    rw [hinv.starts, hinv.ends] at hdue
    rw [hinv.ends] at hcount hupper
    rw [Option.toList_some]
    refine ⟨hinv.starts, hinv.ends, hinv.frames, hle, ?_, hupper, ?_, ?_, ?_, ?_, ?_, ?_⟩
    · show _ ≤ r.mdatOffset + _
      omega
    · rw [map_append]
      have hstop : header.segment.stop = r.mdatOffset + header.size := congrArg (· + header.size) hoffset
      rw [← hstop]
      exact hinv.tiles.concat hoffset
    · rw [getLast?_concat]
      rfl
    · rw [hinv.due, hdue, shown, shown, map_append, filter_append, append_assoc]
      rfl
    · rw [flatMap_append, append_assoc, ← hinv.data, hdata]
      simp
    · intro f hf
      rcases mem_append.1 hf with hf | hf
      · exact hinv.sizes f hf
      · rw [mem_singleton.1 hf]
        exact hsize
    · have hbound := hinv.count
      rw [length_append, length_singleton]
      dsimp only
      omega

/-- The invariant holds in every run. -/
theorem Run.inv (hvalid : ∀ f ∈ table, f.type ≠ .rawFrame ∧ 0 ≤ f.size) (hle : mdatBegin ≤ mdatEnd)
    (h : Run (enter mdatBegin mdatEnd table) arrived r io out) : Inv mdatBegin mdatEnd table arrived r io out := by
  induction h with
  | start io =>
    refine ⟨rfl, rfl, rfl, Nat.zero_le _, le_refl _, hle, rfl, rfl, rfl, rfl, forall_mem_nil _, ?_⟩
    have hcount := left_le table 0 mdatEnd mdatBegin
    rw [length_nil, Nat.zero_add]
    exact hcount
  | arrive h piece ih =>
    refine ⟨ih.starts, ih.ends, ih.frames, ih.within, ih.lower, ih.upper, ih.tiles, ih.prev, ih.due, ?_, ih.sizes,
      ih.count⟩
    rw [← ih.data, append_assoc]
  | call h hcall ih =>
    obtain ⟨_, _, _, _, hcall', hanswered⟩ := ioReadFrame_spec hvalid ih
    rw [hcall] at hcall'
    obtain ⟨rfl, rfl, rfl, rfl⟩ : _ ∧ _ ∧ _ ∧ _ := by simpa using hcall'
    exact ih.call hanswered

/-! ## The whole MDAT -/

theorem mergeLoop_eq_merge {n : Nat} {audio video : List FrameHeader} (hn : audio.length + video.length ≤ n) :
    mergeLoop n audio video = audio.merge video fun a v => a.offset < v.offset := by
  induction n generalizing audio video with
  | zero =>
    obtain ⟨rfl, rfl⟩ : audio = [] ∧ video = [] := by
      constructor <;> exact length_eq_zero_iff.1 (by omega)
    rw [nil_merge]
    rfl
  | succ n ih =>
    cases audio with
    | nil =>
      cases video with
      | nil =>
        rw [nil_merge]
        rfl
      | cons v video => rw [mergeLoop, ih (by simpa using hn), nil_merge, nil_merge]
    | cons a audio =>
      cases video with
      | nil => rw [mergeLoop, ih (by simpa using hn), merge_right, merge_right]
      | cons v video =>
        simp only [length_cons] at hn
        rw [mergeLoop, cons_merge_cons]
        by_cases hlt : a.offset < v.offset
        · rw [if_pos hlt, if_pos (decide_eq_true hlt), ih (by rw [length_cons]; omega)]
        · rw [if_neg hlt, if_neg (by simpa using hlt), ih (by rw [length_cons]; omega)]

/-- The tracks are merged by the offset. -/
theorem mergeFrames_eq_merge (audio video : List FrameHeader) :
    mergeFrames audio video = audio.merge video fun a v => a.offset < v.offset :=
  mergeLoop_eq_merge (le_refl _)

theorem mergeFrames_valid {audio video : List FrameHeader} (haudio : ∀ f ∈ audio, f.type = .audioFrame ∧ 0 ≤ f.size)
    (hvideo : ∀ f ∈ video, f.type = .videoFrame ∧ 0 ≤ f.size) :
    ∀ f ∈ mergeFrames audio video, f.type ≠ .rawFrame ∧ 0 ≤ f.size := by
  intro f hf
  rw [mergeFrames_eq_merge] at hf
  rcases mem_merge.1 hf with hf | hf
  · obtain ⟨htype, hsize⟩ := haudio f hf
    exact ⟨by rw [htype]; exact FrameType.noConfusion, hsize⟩
  · obtain ⟨htype, hsize⟩ := hvideo f hf
    exact ⟨by rw [htype]; exact FrameType.noConfusion, hsize⟩

/-- The frames lie end to end over the whole `MDAT`, and those that are not raw are the frames of the table that lie
inside and are not covered at their turn, each once and in the order of the table. -/
structure TilesMdat (mdatBegin mdatEnd : Int) (table : List FrameHeader) (out : List Frame) : Prop where
  tiles : Tiles mdatBegin (out.map fun f => f.header.segment) mdatEnd
  shown : shown out = due mdatBegin mdatEnd mdatBegin table

/-- Wherever a run is, the next call does not fail a `CHECK`. The frames so far lie end to end and hold the data that
was read, and there is a bound on their number. A call without a frame waits for data of the `MDAT`, or reports that
there are no more frames, and then the frames tile it. -/
theorem frames_tile_mdat {audio video : List FrameHeader} (haudio : ∀ f ∈ audio, f.type = .audioFrame ∧ 0 ≤ f.size)
    (hvideo : ∀ f ∈ video, f.type = .videoFrame ∧ 0 ≤ f.size) (hle : mdatBegin ≤ mdatEnd)
    (hrun : Run (enter mdatBegin mdatEnd (mergeFrames audio video)) arrived r io out) :
    ∃ status frame r' io', r.ioReadFrame io = some (status, frame, r', io') ∧
      Tiles mdatBegin (out.map fun f => f.header.segment) r.mdatOffset ∧
      out.flatMap Frame.data ++ io = arrived ∧ (∀ f ∈ out, (f.data.length : Int) = f.header.size) ∧
      out.length ≤ 2 * (audio.length + video.length) + 1 ∧
      (frame = none → status = .success ∧ TilesMdat mdatBegin mdatEnd (mergeFrames audio video) out ∨
        status = .noData ∧ (io.length : Int) < mdatEnd - r.mdatOffset) := by
  have hvalid := mergeFrames_valid haudio hvideo
  have hinv := hrun.inv hvalid hle
  obtain ⟨status, frame, r', io', hcall, hanswered⟩ := ioReadFrame_spec hvalid hinv
  have hlength : (mergeFrames audio video).length = audio.length + video.length := by
    rw [mergeFrames_eq_merge, length_merge]
  refine ⟨status, frame, r', io', hcall, hinv.tiles, hinv.data, hinv.sizes, ?_, fun hnone => ?_⟩
  · have hcount := hinv.count
    omega
  · cases hanswered with
    | done hoffset _ hskips =>
      rw [hinv.frames, hinv.starts, hinv.ends] at hskips
      rw [hinv.ends] at hoffset
      refine Or.inl ⟨rfl, ?_, ?_⟩
      · rw [← hoffset]
        exact hinv.tiles
      · rw [hinv.due, ← append_nil ((mergeFrames audio video).drop _), due_append_of_skips hskips]
        exact (append_nil _).symm
    | noData hsize hpick =>
      have hadvances := hpick.advances (by rw [hinv.frames]; exact hvalid) (hinv.starts ▸ hinv.lower)
        (hinv.frames ▸ hinv.within)
      have hupper := hadvances.upper
      rw [hinv.ends] at hupper
      exact Or.inr ⟨rfl, by omega⟩
    | frame => cases hnone

/-- The frames of the next `n` calls, if they have all arrived. -/
def readFrames : Nat → FrameReader → Bytes → Option (List Frame × FrameReader × Bytes)
  | 0, r, io => some ([], r, io)
  | n + 1, r, io =>
    match r.ioReadFrame io with
    | some (.success, some f, r, io) => (readFrames n r io).map fun next => (f :: next.1, next.2)
    | _ => none

theorem Run.readFrames {start : FrameReader} (h : Run start arrived r io out) {n : Nat} {fs : List Frame}
    {r' : FrameReader} {io' : Bytes} (hread : FrameReader.readFrames n r io = some (fs, r', io')) :
    Run start arrived r' io' (out ++ fs) := by
  induction n generalizing r io out fs with
  | zero =>
    cases hread
    rwa [append_nil]
  | succ n ih =>
    rw [FrameReader.readFrames] at hread
    split at hread
    · next f r₁ io₁ hcall =>
      obtain ⟨⟨_, _, _⟩, hnext, heq⟩ := Option.map_eq_some_iff.1 hread
      cases heq
      have hlater := ih (h.call hcall) hnext
      rwa [Option.toList_some, append_assoc, singleton_append] at hlater
    · cases hread

/-- A frame of a table. -/
def tableFrame (offset size timestamp : Int) (type : FrameType) : FrameHeader where
  offset := offset
  size := size
  decodingTimestamp := timestamp
  compositionOffsetMs := 0
  duration := 0
  sampleIndex := 0
  type := type
  isKeyframe := false

/-- An audio frame, a video frame that it covers, and one that overlaps the end. -/
def threeFrames : List FrameHeader :=
  mergeFrames [tableFrame 10 4 5 .audioFrame] [tableFrame 12 3 0 .videoFrame, tableFrame 16 10 0 .videoFrame]

/-- The frames of twelve bytes. -/
def twelveBytes : Option (List Frame × FrameReader × Bytes) :=
  readFrames 4 (enter 8 20 threeFrames) [1, 2, 3, 4, 5, 6, 7, 8, 9, 10, 11, 12]

/-- A raw frame in front, the audio frame, a raw frame for what the covered one leaves, and the first part of the last
one. -/
theorem frames_tile_twelve_bytes : (twelveBytes.get (by decide)).1.map (fun f => f.header.segment) =
      [⟨8, 2⟩, ⟨10, 4⟩, ⟨14, 2⟩, ⟨16, 4⟩] ∧
    TilesMdat 8 20 threeFrames (twelveBytes.get (by decide)).1 := by
  refine ⟨by decide, ?_⟩
  have hrun : Run (enter 8 20 threeFrames) [1, 2, 3, 4, 5, 6, 7, 8, 9, 10, 11, 12]
      (twelveBytes.get (by decide)).2.1 (twelveBytes.get (by decide)).2.2 (twelveBytes.get (by decide)).1 :=
    (Run.start _).readFrames (Option.some_get (show twelveBytes.isSome = true by decide)).symm
  obtain ⟨_, _, _, _, hcall, -, -, -, -, hend⟩ := frames_tile_mdat
    (show ∀ f ∈ [tableFrame 10 4 5 .audioFrame], f.type = .audioFrame ∧ 0 ≤ f.size by decide)
    (show ∀ f ∈ [tableFrame 12 3 0 .videoFrame, tableFrame 16 10 0 .videoFrame],
      f.type = .videoFrame ∧ 0 ≤ f.size by decide) (show (8 : Int) ≤ 20 by decide) hrun
  have hlast : ((twelveBytes.get (by decide)).2.1.ioReadFrame (twelveBytes.get (by decide)).2.2).map
      (fun answer => (answer.1, answer.2.1)) = some (.success, none) := by decide
  rw [hcall, Option.map_some, Option.some.injEq, Prod.mk.injEq] at hlast
  rcases hend hlast.2 with ⟨-, htiles⟩ | ⟨hnoData, -⟩
  · exact htiles
  · rw [hnoData] at hlast
    cases hlast.1

end FrameReader

end Whispercast.F4v
