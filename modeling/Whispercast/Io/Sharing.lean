import Whispercast.Io.Refinement
import Mathlib.Algebra.Order.BigOperators.Group.Finset

/-!
# Streams that share blocks

Any number of streams on one heap. Appending a part of one stream to another shares the blocks that are
covered as a whole and copies the rest; still every stream behaves as a queue of its own. The
references other streams hold are what `held` counts in the invariant of each stream, so the frame
conditions of the single operations give that no stream sees what another does.
-/

namespace Whispercast.Io

open Library List MemoryStream Option Finset

/-! ## Appending a part of a queue -/

section Append

variable {h : Heap} {held : Nat → Nat} {s : MemoryStream} {q : MarkedQueue UInt8}

/-- A part of a block held by somebody else is put in, shared or copied. -/
theorem appendPart_yields (hi : Inv h held s q) {r : BlockRef} {d : Bytes} (hr : Holds h r d)
    {posBegin posEnd : Nat} (hle : posBegin ≤ posEnd) (hend : posEnd ≤ d.length) :
    Yields (s.appendPart h r posBegin posEnd) fun (h', s') =>
      Inv h' held s' (q.push ((d.drop posBegin).take (posEnd - posBegin))) ∧ Frame held h h' := by
  rw [appendPart]
  by_cases hlt : posBegin < posEnd
  · have hstored : Stored h [r] [d] := Forall₂.cons hr Forall₂.nil
    obtain ⟨b, hg⟩ := ne_none_iff_exists'.1 hstored.get
    obtain ⟨_, _, hd, -, _, _, hdata, hbuf⟩ := hstored.head hg
    obtain ⟨rfl, -⟩ := cons.inj hd
    rw [if_pos hlt]
    simp only [hg, bind_eq_bind, bind_some]
    by_cases hfull : posBegin = 0 ∧ posEnd = b.bufferSize
    · rw [if_pos hfull]
      apply (appendBlock_yields hi hg (by omega)).mono
      rintro ⟨h', s'⟩ ⟨hinv, hsame⟩
      rw [hfull.1, drop_zero, Nat.sub_zero, take_of_length_le (by omega), ← hdata]
      exact ⟨hinv, fun r' _ => hsame r'⟩
    · rw [if_neg hfull, appendNewBlock, if_pos hlt]
      simp only [hg, bind_eq_bind, bind_some]
      apply (write_yields hi _).bind
      rintro ⟨_, h', s'⟩ ⟨-, hinv, hframe⟩
      rw [hbuf _ _ (by omega)] at hinv
      exact Yields.some ⟨hinv, hframe⟩
  · rw [if_neg hlt, Nat.sub_eq_zero_of_le (by omega), take_zero, MarkedQueue.push_nil]
    exact Yields.some ⟨hi, Frame.refl held h⟩

/-- The loop over the blocks puts in what lies between the two positions. -/
theorem appendParts_yields {it : List BlockRef} {D : List Bytes} {id pos m endPos : Nat}
    {rest restEnd : Bytes} (hi : Inv h held s q) (hs : Stored h it D)
    (hheld : ∀ r ∈ it, 0 < held r) (hp : Points D 0 pos rest) (he : Points D m endPos restEnd)
    (hle : m = 0 → pos ≤ endPos) :
    Yields (MemoryStream.appendParts (id + m) endPos it id pos h s) fun (h', s') =>
      ∃ bs, rest = bs ++ restEnd ∧ Inv h' held s' (q.push bs) ∧ Frame held h h' := by
  induction it generalizing D id pos m rest h s q with
  | nil =>
    cases hs
    exact absurd hp.lt_length (by simp)
  | cons r it ih =>
    rcases forall₂_cons_left_iff.1 hs with ⟨d, ds, hr, hds, rfl⟩
    rcases hr with ⟨b, hg, hsize, hdata⟩
    rcases points_zero_cons.1 hp with ⟨_, rfl⟩
    rw [appendParts, if_pos (Nat.le_add_right id m)]
    simp only [hg, bind_eq_bind, bind_some]
    cases m with
    | zero =>
      rcases points_zero_cons.1 he with ⟨hend, rfl⟩
      have hpe := hle rfl
      rw [Nat.add_zero, if_pos rfl]
      apply (appendPart_yields hi ⟨b, hg, hsize, hdata⟩ hpe hend).bind
      rintro ⟨h', s'⟩ ⟨hinv, hframe⟩
      have hstop : appendParts id endPos it (id + 1) 0 h' s' = some (h', s') := by
        cases it with
        | nil => rw [appendParts, if_neg (by omega)]
        | cons r' it => rw [appendParts, if_neg (by omega)]
      refine Yields.intro hstop ⟨_, ?_, hinv, hframe⟩
      have hsplit : d.drop pos =
          (d.drop pos).take (endPos - pos) ++ d.drop endPos := by
        conv_lhs => rw [← take_append_drop (endPos - pos) (d.drop pos), drop_drop]
        rw [Nat.add_sub_cancel' hpe]
      rw [← append_assoc, ← hsplit]
    | succ m =>
      have he' : Points ds m endPos restEnd := points_cons_succ.1 he
      have hne : ds ≠ [] := by
        rintro rfl
        exact absurd he'.lt_length (by simp)
      rw [if_neg (by omega)]
      apply (appendPart_yields hi ⟨b, hg, hsize, hdata⟩ (by omega) (Nat.le_of_eq hsize)).bind
      rintro ⟨h', s'⟩ ⟨hinv, hframe⟩
      have hds' : Stored h' it ds :=
        Stored.congr hds fun r' hr' => hframe r' (hheld r' (mem_cons_of_mem r hr'))
      rw [show id + (m + 1) = id + 1 + m by omega]
      apply (ih hinv hds' (fun r' hr' => hheld r' (mem_cons_of_mem r hr'))
        (points_flatten hne) he' (fun _ => Nat.zero_le _)).mono
      rintro ⟨_, _⟩ ⟨bs, hbs, hinv', hframe'⟩
      refine ⟨d.drop pos ++ bs, ?_, ?_, hframe.trans hframe'⟩
      · rw [hbs, append_assoc]
      · rw [← MarkedQueue.push_push]
        rwa [hsize, take_of_length_le (by rw [length_drop])] at hinv'

/-- The write pointer is already at the end of its block. -/
theorem skipToCurrentBlockEnd_yields (hi : Inv h held s q) :
    s.writePointer_.skipToCurrentBlockEnd h s.blocks_ = some s.writePointer_ := by
  rcases hi with ⟨D, hs, hv⟩
  rcases hv.write with ⟨-, hnull⟩ | ⟨_, _, rfl, hw⟩
  · rw [hnull]
    rfl
  · rcases hs.last with ⟨_, r, b, hlive, hitlen, hg, hsize, -⟩
    rw [hw, ← hitlen, DataBlockPointer.skipToCurrentBlockEnd, block_last hlive hg,
      map_some, hsize]
    rfl

/-- The bytes between two positions of another queue are put in. -/
theorem appendBetween_yields {owner : BlockDqueue} {D : List Bytes}
    {begin finish : DataBlockPointer} {rest restEnd : Bytes} (hi : Inv h held s q)
    (hs : Stored h owner.live D) (hheld : ∀ r ∈ owner.live, 0 < held r)
    (hb : At owner.beginId D begin rest) (hf : At owner.beginId D finish restEnd)
    (hle : NotAfter begin finish) (hlen : restEnd.length ≤ rest.length) :
    Yields (s.appendBetween h owner begin finish) fun (h', s') =>
      ∃ bs, rest = bs ++ restEnd ∧ Inv h' held s' (q.push bs) ∧ Frame held h h' := by
  rcases begin with ⟨_, pos⟩
  rcases finish with ⟨_, endPos⟩
  rcases hb with ⟨k, hid, hk⟩
  rcases hf with ⟨k', hid', hk'⟩
  simp only at hid hid' hk hk'
  subst hid
  subst hid'
  rcases hle _ rfl with ⟨j, hj, _⟩
  obtain rfl : owner.beginId + k' = j := Option.some.inj hj
  obtain ⟨m, rfl⟩ : ∃ m, k' = k + m := ⟨k' - k, by omega⟩
  -- within one block the positions are ordered as the rests in front of them
  have hsame : m = 0 → pos ≤ endPos := by
    rintro rfl
    have h₁ := hk.length
    have h₂ := hk'.length
    rw [Nat.add_zero] at h₂
    omega
  have hparts : Yields (s.appendPartsBetween h owner ⟨some (owner.beginId + k), pos⟩
        ⟨some (owner.beginId + (k + m)), endPos⟩) fun (h', s') =>
      ∃ bs, rest = bs ++ restEnd ∧ Inv h' held s' (q.push bs) ∧ Frame held h h' := by
    rw [appendPartsBetween]
    cases hlt : DataBlockPointer.lt ⟨some (owner.beginId + k), pos⟩
        ⟨some (owner.beginId + (k + m)), endPos⟩ with
    | true =>
      simp only [if_true, bind_eq_bind, bind_some, BlockDqueue.bufferIt_add]
      rw [← Nat.add_assoc]
      exact appendParts_yields hi (hs.drop k) (fun r hr => hheld r (mem_of_mem_drop hr))
        (points_drop.2 hk) (points_drop.2 hk') hsame
    | false =>
      rw [if_neg Bool.false_ne_true]
      refine Yields.some ⟨[], ?_, by rwa [MarkedQueue.push_nil], Frame.refl held h⟩
      simp only [DataBlockPointer.lt] at hlt
      have hm : m = 0 := by
        by_contra hne
        rw [if_neg (by omega), decide_eq_false_iff_not] at hlt
        omega
      subst hm
      rw [Nat.add_zero, if_pos rfl, decide_eq_false_iff_not] at hlt
      obtain rfl : pos = endPos := by
        omega
      rcases hk with ⟨d, _, heq, -, rfl⟩
      rcases hk' with ⟨_, _, heq', -, rfl⟩
      rw [Nat.add_zero, heq, cons.injEq] at heq'
      rw [heq'.1, heq'.2, nil_append]
  rw [appendBetween]
  apply hparts.bind
  rintro ⟨h', s'⟩ ⟨bs, hbs, hinv, hframe⟩
  simp only [skipToCurrentBlockEnd_yields hinv, bind_eq_bind, bind_some]
  exact Yields.some ⟨bs, hbs, hinv, hframe⟩

/-- The bytes an append takes from what is readable: from `offset` on, `size` of them or all. -/
def slice (readable : Bytes) (offset : Nat) (size : Int) : Bytes :=
  if 0 ≤ size then (readable.drop offset).take size.toNat else readable.drop offset

theorem appendStreamNonDestructive_yields {buffer : MemoryStream} {qb : MarkedQueue UInt8}
    {heldBuffer : Nat → Nat} (hi : Inv h held s q) (hb : Inv h heldBuffer buffer qb)
    (hheld : ∀ r ∈ buffer.blocks_.live, 0 < held r) (offset : Nat) (size : Int) :
    Yields (s.appendStreamNonDestructive h buffer offset size) fun (h', s') =>
      Inv h' held s' (q.push (slice qb.readable offset size)) ∧ Frame held h h' := by
  rw [MemoryStream.appendStreamNonDestructive]
  have hsnd := maybeInitReadPointer_snd buffer
  rcases hb.maybeInit with ⟨hinit, hnil, hread, -⟩ | ⟨_, hinit, hread, hb₁⟩
  · rw [hinit] at hsnd
    have hptr : buffer.readPointer_ = buffer.getReadPointer :=
      congrArg MemoryStream.readPointer_ hsnd
    have hslice : slice qb.readable offset size = [] := by
      rw [slice, hnil, List.drop_nil, List.take_nil]
      split <;> rfl
    rw [← hptr, if_pos (by rw [hread]; rfl), hslice, MarkedQueue.push_nil]
    exact Yields.some ⟨hi, Frame.refl held h⟩
  · rw [hinit] at hsnd
    simp only at hsnd
    rw [hsnd] at hread hb₁
    rcases hb₁.pointers hread with ⟨D, hs, _, hat, hend⟩
    have hread' : buffer.getReadPointer.isNull = false := hread
    rw [hread', if_neg Bool.false_ne_true]
    apply (advance_yields hs.stored hat offset).bind
    rintro ⟨_, begin⟩ ⟨-, hbegin, -⟩
    have hfinish : Yields (MemoryStream.appendEnd h buffer begin size) fun finish =>
        At buffer.blocks_.beginId D finish
            (if 0 ≤ size then (qb.readable.drop offset).drop (min size.toNat qb.size) else []) ∧
          NotAfter begin finish := by
      rw [MemoryStream.appendEnd, size_eq hb]
      by_cases hsize : 0 ≤ size
      · rw [if_pos hsize, if_pos hsize]
        apply (advance_yields hs.stored hbegin _).bind
        rintro ⟨_, finish⟩ ⟨-, hat', hle⟩
        exact Yields.some ⟨hat', hle⟩
      · rw [if_neg hsize, if_neg hsize]
        refine Yields.some ⟨hend.at, ?_⟩
        rcases hbegin.le_atEnd hend with ⟨k, j, hid, hwid, -, -⟩
        intro i hi'
        rw [hid, Option.some.injEq] at hi'
        exact ⟨_, hwid, by omega⟩
    apply hfinish.bind
    intro finish ⟨hat', hle⟩
    have hempty : buffer.isEmpty = decide (qb.size = 0) := by
      rcases hb with ⟨_, -, hv'⟩
      rw [MemoryStream.isEmpty, hv'.size, decide_eq_decide]
      omega
    rw [hempty]
    by_cases hzero : qb.size = 0
    · have hnil : qb.readable = [] := by
        rw [← List.length_eq_zero_iff, MarkedQueue.length_readable]
        exact hzero
      have hslice : slice qb.readable offset size = [] := by
        rw [slice, hnil, List.drop_nil, List.take_nil]
        split <;> rfl
      rw [if_pos (by simpa using hzero), hslice, MarkedQueue.push_nil]
      exact Yields.some ⟨hi, Frame.refl held h⟩
    · rw [if_neg (by simpa using hzero)]
      have hlen : (if 0 ≤ size then (qb.readable.drop offset).drop (min size.toNat qb.size)
          else []).length ≤ (qb.readable.drop offset).length := by
        split
        · rw [length_drop]
          exact Nat.sub_le _ _
        · exact Nat.zero_le _
      apply (appendBetween_yields hi hs.stored hheld hbegin hat' hle hlen).mono
      rintro ⟨h', s'⟩ ⟨bs, hbs, hinv, hframe⟩
      have hslice : slice qb.readable offset size = bs := by
        rw [slice]
        by_cases hsize : 0 ≤ size
        · rw [if_pos hsize] at hbs ⊢
          have hbs' := (take_append_drop (min size.toNat qb.size)
            (qb.readable.drop offset)).trans hbs
          rw [← List.append_cancel_right hbs', List.take_eq_take_iff, length_drop,
            MarkedQueue.length_readable]
          omega
        · rw [if_neg hsize] at hbs ⊢
          rw [hbs, List.append_nil]
      rw [hslice]
      exact ⟨hinv, hframe⟩

end Append

/-! ## Any number of streams on one heap -/

section World

variable {ι : Type} [DecidableEq ι]

/-- The operations on a family of streams. -/
inductive WorldOp (ι : Type)
  | on (i : ι) (op : Op)
  | appendStream (dst src : ι) (size : Int)
  | appendStreamNonDestructive (dst src : ι) (offset : Nat) (size : Int)

/-- Whether the source allows an operation when stream `i` has `marks i` marks set; the streams of an
append are two. -/
def WorldOp.allowed (marks : ι → Nat) : WorldOp ι → Bool
  | .on i op => op.allowed (marks i)
  | .appendStream dst src _ => dst ≠ src
  | .appendStreamNonDestructive dst src _ _ => dst ≠ src

/-- Numbers of marks set after an operation. -/
def WorldOp.marksAfter (marks : ι → Nat) : WorldOp ι → ι → Nat
  | .on i op => Function.update marks i (op.marksAfter (marks i))
  | _ => marks

/-- All bytes left in a stream. -/
def leftIn (h : Heap) (s : MemoryStream) : Option Bytes := do
  let size ← s.size
  s.peek h size

variable [Fintype ι]

/-- References held by all streams but `i`. -/
def heldBy (S : ι → MemoryStream) (i : ι) (r : Nat) : Nat :=
  ∑ j ∈ Finset.univ.erase i, (S j).blocks_.live.count r

/-- Every stream presents its queue. -/
def WorldInv (h : Heap) (S : ι → MemoryStream) (Q : ι → MarkedQueue UInt8) : Prop :=
  ∀ i, Inv h (heldBy S i) (S i) (Q i)

/-- From whichever stream they are counted, the references add up to the same. -/
theorem refs_heldBy (S : ι → MemoryStream) (i : ι) :
    refs (S i).blocks_ (heldBy S i) = fun r => ∑ j, (S j).blocks_.live.count r := by
  funext r
  exact add_sum_erase univ (fun j => (S j).blocks_.live.count r) (mem_univ i)

theorem heldBy_update_self (S : ι → MemoryStream) (i : ι) (s : MemoryStream) :
    heldBy (Function.update S i s) i = heldBy S i := by
  funext r
  apply sum_congr rfl
  intro j hj
  rw [Function.update_of_ne (ne_of_mem_erase hj)]

/-- The blocks of another stream are held. -/
theorem heldBy_pos (S : ι → MemoryStream) {i j : ι} (hij : i ≠ j) {r : Nat}
    (hr : r ∈ (S i).blocks_.live) : 0 < heldBy S j r := by
  apply Nat.lt_of_lt_of_le (count_pos_iff.2 hr)
  exact single_le_sum (f := fun k => (S k).blocks_.live.count r) (fun k _ => Nat.zero_le _)
    (mem_erase.2 ⟨hij, mem_univ i⟩)

variable {S : ι → MemoryStream} {Q : ι → MarkedQueue UInt8}

/-- A step of stream `i` that leaves alone what the others hold leaves the other streams alone. -/
theorem WorldInv.update {h h' : Heap} (hw : WorldInv h S Q) {i : ι} {s' : MemoryStream} {q' : MarkedQueue UInt8}
    (hi : Inv h' (heldBy S i) s' q') (hframe : Frame (heldBy S i) h h') :
    WorldInv h' (Function.update S i s') (Function.update Q i q') := by
  have hi' := hi
  rw [← heldBy_update_self S i s'] at hi'
  intro j
  by_cases hj : j = i
  · subst hj
    rw [Function.update_self, Function.update_self]
    exact hi'
  · rcases hi' with ⟨_, hs', -⟩
    rcases hw j with ⟨D, hs, hv⟩
    have hok := hs'.heapOk
    have hself := refs_heldBy (Function.update S i s') i
    rw [Function.update_self] at hself
    have hother := refs_heldBy (Function.update S i s') j
    rw [hself, ← hother] at hok
    rw [Function.update_of_ne hj] at hok ⊢
    rw [Function.update_of_ne hj]
    exact ⟨D, ⟨hok, hs.stored.congr fun r hr => hframe r (heldBy_pos S hj hr)⟩, hv⟩

theorem leftIn_eq {h : Heap} {held : Nat → Nat} {s : MemoryStream} {q : MarkedQueue UInt8}
    (hi : Inv h held s q) : leftIn h s = some q.readable := by
  rw [leftIn, size_eq hi]
  show s.peek h q.size = _
  rw [peek_eq hi, ← MarkedQueue.length_readable, take_length]

end World

end Whispercast.Io
