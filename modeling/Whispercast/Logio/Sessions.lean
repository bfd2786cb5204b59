import Whispercast.Logio.Damage

/-!
# Several sessions in one log

Each session has a writer of its own, and what it has put out may be cut at the end of a block. A session that is cut
inside a record leaves that record pending in the reader. The first block of the next session does not look out of
order, since it has no checksum of a block before. So nothing tells the reader to drop what is pending, and the first
record of the next session is lost instead.
-/

namespace Whispercast.Logio

open Io Library RecordReader List Assembler

/-- A session: the calls of a writer, and the number of its blocks that are present. -/
structure Session (p : WriterParams) where
  calls : List WriterCall
  recording : Recording
  cut : Nat
  proper : ∀ call ∈ calls, call.Proper
  written : record p calls = some recording
  cut_le : cut ≤ recording.out.length / p.block_size_

/-- Whether a record is pending behind `n` blocks of a session, when one was pending before it or not. A record that is
pending goes together with the first one of the session. -/
def opens (n : Nat) (pending : Bool) : List Extent → Bool
  | [] => pending
  | e :: es => (if pending then es else e :: es).any fun e => n ≤ e.lastBlock

namespace Session

variable {p : WriterParams}

/-- The blocks that are present. -/
def log (x : Session p) : Bytes := x.recording.out.take (x.cut * p.block_size_)

/-- The records all of whose pieces are present. -/
def complete (x : Session p) : List Extent := x.recording.extents.filter fun e => e.lastBlock < x.cut

/-- The records of which a piece is present. -/
def begun (x : Session p) : List Extent := x.recording.extents.filter fun e => e.firstBlock < x.cut

/-- No session that follows on a pending record begins with a record that is complete. -/
def Lossless : Bool → List (Session p) → Prop
  | _, [] => True
  | pending, x :: xs =>
    (pending = true → ∀ e ∈ x.begun.head?, x.cut ≤ e.lastBlock) ∧ Lossless (opens x.cut pending x.begun) xs

end Session

section Resumed

variable {q : ReaderParams} {es : List Extent} {frs blks : List (List Piece)} {ps : List Piece} {n : Nat}

/-- What the first blocks give to a reader in which a record may be pending. -/
theorem Written.resumed (h : Written es frs blks ps) (hn : n ≤ blks.length) (held : Bytes) :
    ∃ held', (Assembler.assemble ⟨held, false⟩ (blks.take n).flatten).2 = ⟨held', false⟩ ∧
      opens n (decide (held ≠ [])) (es.filter fun e => e.firstBlock < n) = decide (held' ≠ []) ∧
      messages (Assembler.assemble ⟨held, false⟩ (blks.take n).flatten).1 =
        ((es.filter fun e => e.lastBlock < n).drop (if held = [] then 0 else 1)).map Extent.record := by
  have hcomplete : ∀ e ∈ es.filter (fun e => e.lastBlock < n), ¬ n ≤ e.lastBlock := by
    intro e he
    simpa using (mem_filter.1 he).2
  have hbegun := h.begun_eq hn
  generalize es.filter (fun e => e.lastBlock < n) = cs at hcomplete hbegun ⊢
  have hclosed : ∀ cs' : List Extent, (∀ e ∈ cs', e ∈ cs) → cs'.any (fun e => n ≤ e.lastBlock) = false := by
    intro cs' hcs'
    rw [any_eq_false]
    exact fun e he => by simpa using hcomplete e (hcs' e he)
  rcases hbegun with ⟨frs₁, heq, h₁, hpieces⟩ | ⟨frs₁, e, _, _, heq, hlast, h₁, he, hopened, hrest, hpieces⟩
  · rw [heq, hpieces]
    by_cases hheld : held = []
    · subst hheld
      rw [assemble_messages (carries_records h₁)]
      refine ⟨[], rfl, ?_, messages_map _⟩
      cases cs with
      | nil => rfl
      | cons e cs => exact hclosed (e :: cs) fun e he => he
    · cases h₁ with
      | nil => exact ⟨held, rfl, rfl, by simp⟩
      | @cons e fr cs frs₁ he h₁ =>
        have hlost := assemble_lost (fr.append_nil.symm ▸ he) he.ne_nil hheld
        rw [flatten_cons, assemble_append, hlost, assemble_messages (carries_records h₁)]
        refine ⟨[], rfl, ?_, by simp [hheld, messages]⟩
        simpa [opens, hheld] using hclosed cs fun e he => mem_cons_of_mem _ he
  · rw [heq, hpieces]
    obtain ⟨p, hp, hassemble⟩ := assemble_begun he rfl hopened hrest
    by_cases hheld : held = []
    · subst hheld
      rw [assemble_append, assemble_messages (carries_records h₁), hassemble]
      refine ⟨p, rfl, ?_, ?_⟩
      · cases cs with
        | nil => simp [opens, hlast, hp]
        | cons e' cs => simp [opens, hlast, hp]
      · rw [append_nil]
        exact messages_map _
    · cases h₁ with
      | nil =>
        rw [flatten_nil, nil_append, assemble_lost he hopened hheld]
        exact ⟨[], rfl, by simp [opens, hheld], by simp [messages]⟩
      | @cons e' fr cs frs₁ he' h₁ =>
        have hlost := assemble_lost (fr.append_nil.symm ▸ he') he'.ne_nil hheld
        rw [flatten_cons, append_assoc, assemble_append, hlost, assemble_append,
          assemble_messages (carries_records h₁), hassemble]
        exact ⟨p, rfl, by simp [opens, hheld, hlast, hp], by simp [hheld, messages]⟩

end Resumed

namespace Session

section Reading

variable {p : WriterParams} {pending : Bool}

/-- The records that sessions deliver, behind a record that is pending or not. -/
def deliveredBy : Bool → List (Session p) → List Bytes
  | _, [] => []
  | pending, x :: xs =>
    (x.complete.drop (if pending then 1 else 0)).map Extent.record ++ deliveredBy (opens x.cut pending x.begun) xs

/-- All records of sessions that are complete. -/
def allComplete (xs : List (Session p)) : List Bytes := xs.flatMap fun x => x.complete.map Extent.record

section

variable (hp : p.Admitted) (hplain : p.deflate = none)

include hp hplain

theorem inv (inflate : Bytes → Bool × Bytes) (x : Session p) :
    ∃ frs blks ps, Written x.recording.extents frs blks ps ∧ x.cut ≤ blks.length ∧
      (∀ fs ∈ blks.take x.cut, Fits (p.reader inflate) fs) ∧
      x.log = chainBytes (p.reader inflate) 0 (blks.take x.cut) := by
  obtain ⟨s, frs, blks, ps, hrun, hinv, -⟩ := run_written hp hplain inflate x.proper
  obtain rfl : x.recording = s := Option.some.inj (x.written.symm.trans hrun)
  have hpos : 0 < (p.reader inflate).block_size_ := Nat.lt_of_le_of_lt (Nat.zero_le _) hp.room
  have hcut := x.cut_le
  have hlen := @length_chainBytes 0 (p.reader inflate) blks hinv.fits
  rw [hinv.out, hlen, show (p.reader inflate).block_size_ = p.block_size_ from rfl,
    Nat.mul_div_cancel _ (show 0 < p.block_size_ from hpos)] at hcut
  refine ⟨frs, blks, ps, hinv.written, hcut, fun fs hfs => hinv.fits fs (mem_of_mem_take hfs), ?_⟩
  rw [log, hinv.out]
  exact (chainBytes_cut hinv.fits hcut).1

/-- The first record that is begun is not complete only where none is. -/
theorem complete_eq_nil (x : Session p) : (∀ e ∈ x.begun.head?, x.cut ≤ e.lastBlock) ↔ x.complete = [] := by
  obtain ⟨_, _, _, hwritten, hcut, -, -⟩ := x.inv hp hplain fun _ => (false, [])
  have hlast : ∀ e ∈ x.complete, e.lastBlock < x.cut := fun e he => by simpa using (mem_filter.1 he).2
  have hbegun : x.begun = x.complete ∨ ∃ e, x.begun = x.complete ++ [e] ∧ x.cut ≤ e.lastBlock := by
    rcases hwritten.begun_eq hcut with ⟨-, heq, -⟩ | ⟨-, e, -, -, heq, he, -⟩
    · exact .inl heq
    · exact .inr ⟨e, heq, he⟩
  rcases hnil : x.complete with _ | ⟨e, _⟩
  · rw [hnil] at hbegun
    refine iff_of_true ?_ rfl
    rcases hbegun with heq | ⟨e, heq, he⟩
    · simp [heq]
    · simpa [heq] using he
  · have hlt : e.lastBlock < x.cut := hlast e (hnil ▸ mem_cons_self)
    have hhead : x.begun.head? = some e := by
      rw [hnil] at hbegun
      rcases hbegun with heq | ⟨_, heq, -⟩ <;> rw [heq] <;> rfl
    refine iff_of_false (fun hall => ?_) (cons_ne_nil _ _)
    exact absurd (hall e hhead) (Nat.not_le.2 hlt)

/-- The records are read session by session. -/
theorem read (inflate : Bytes → Bool × Bytes) (xs : List (Session p)) :
    ∃ ss, (∀ t ∈ ss, t.Ok (p.reader inflate)) ∧ ss.flatMap (Stored.bytes (p.reader inflate)) = xs.flatMap log ∧
      ∀ (held : Bytes) (last : Int32), delivered (readAll (p.reader inflate) ⟨held, false⟩ last ss).1 =
        deliveredBy (decide (held ≠ [])) xs := by
  induction xs with
  | nil => exact ⟨[], by simp, rfl, fun _ _ => rfl⟩
  | cons x xs ih =>
    obtain ⟨ss, hok, hbytes, hread⟩ := ih
    obtain ⟨_, blks, _, hwritten, hcut, hfits, hlog⟩ := x.inv hp hplain inflate
    refine ⟨chain (p.reader inflate) 0 (blks.take x.cut) ++ ss, ?_, ?_, ?_⟩
    · exact forall_mem_append.2 ⟨chain_ok hfits, hok⟩
    · rw [flatMap_append, hbytes, flatMap_cons, hlog, chainBytes]
    · intro held last
      obtain ⟨_, hstate, hopens, hmessages⟩ := hwritten.resumed hcut held
      rw [readAll_append, readAll_chain fun hbroken => hbroken.1 rfl, hstate, delivered_append, delivered_resultsOf,
        hmessages, hread, deliveredBy, begun, hopens]
      congr 3
      by_cases hheld : held = [] <;> simp [hheld]

end

theorem deliveredBy_sublist (pending : Bool) (xs : List (Session p)) :
    (deliveredBy pending xs).Sublist (allComplete xs) := by
  induction xs generalizing pending with
  | nil => exact Sublist.refl _
  | cons x xs ih => exact ((drop_sublist _ _).map _).append (ih _)

/-- All records are delivered when none is lost at the beginning of a session. -/
theorem lossless_iff (hp : p.Admitted) (hplain : p.deflate = none) (pending : Bool) (xs : List (Session p)) :
    (allComplete xs).Sublist (deliveredBy pending xs) ↔ Lossless pending xs := by
  induction xs generalizing pending with
  | nil => exact iff_of_true (Sublist.refl _) trivial
  | cons x xs ih =>
    rw [Lossless, ← ih, complete_eq_nil hp hplain]
    have hall : allComplete (x :: xs) = x.complete.map Extent.record ++ allComplete xs := flatMap_cons
    rw [hall, deliveredBy]
    constructor
    · -- Lengths leave no room for a loss, neither here nor later.
      intro hsub
      have hlen := hsub.length_le
      have hrest := deliveredBy_sublist (opens x.cut pending x.begun) xs
      have hrestlen := hrest.length_le
      simp only [length_append, length_map, length_drop] at hlen
      have heq := hrest.eq_of_length (by omega)
      refine ⟨fun hpending => ?_, by rw [heq]⟩
      subst hpending
      rw [if_pos rfl] at hlen
      exact eq_nil_of_length_eq_zero (by omega)
    · rintro ⟨hnil, hsub⟩
      refine Sublist.append ?_ hsub
      cases pending with
      | false => exact Sublist.refl _
      | true =>
        rw [hnil rfl]
        exact Sublist.refl _

end Reading

end Session

/-- The sessions of a log, each cut at the end of a block. Every record all of whose pieces are present is delivered
when no session whose first record is complete follows on a record that is pending; and only then. -/
theorem sessions_delivered_iff (p : WriterParams) (hp : p.Admitted) (hplain : p.deflate = none)
    (inflate : Bytes → Bool × Bytes) (xs : List (Session p)) :
    (∃ records, deliveredFrom (p.reader inflate) (xs.flatMap Session.log) = some records ∧
      (xs.flatMap fun x => x.complete.map Extent.record).Sublist records) ↔ Session.Lossless false xs := by
  obtain ⟨_, hok, hbytes, hread⟩ := Session.read hp hplain inflate xs
  have hpos : 0 < (p.reader inflate).block_size_ := Nat.lt_of_le_of_lt (Nat.zero_le _) hp.room
  have hdelivered := deliveredFrom_blocks hok hpos
  rw [hbytes, show ({} : Assembler UInt8) = ⟨[], false⟩ from rfl, hread] at hdelivered
  rw [hdelivered, ← Session.lossless_iff hp hplain]
  simp [Session.allComplete]

/-! ## Samples -/

/-- A session with a record of three blocks, of which the last one is missing. -/
def cutInside : Session (smallBlocks none) where
  calls := [.stream (List.replicate 60 7), .finalize]
  recording := ((record (smallBlocks none) [.stream (List.replicate 60 7), .finalize]).getD {})
  cut := 2
  proper := by decide
  written := by decide +kernel
  cut_le := by decide +kernel

/-- A session with two short records. -/
def twoShort : Session (smallBlocks none) where
  calls := [.stream [1], .stream [2], .finalize]
  recording := ((record (smallBlocks none) [.stream [1], .stream [2], .finalize]).getD {})
  cut := 1
  proper := by decide
  written := by decide +kernel
  cut_le := by decide +kernel

theorem sessions_delivered_small :
    (∃ records, deliveredFrom ((smallBlocks none).reader noInflate) ([twoShort, cutInside].flatMap Session.log) =
        some records ∧
      ([twoShort, cutInside].flatMap fun x => x.complete.map Extent.record).Sublist records) ↔
      Session.Lossless false [twoShort, cutInside] :=
  sessions_delivered_iff (smallBlocks none) (smallBlocks_admitted none) rfl noInflate [twoShort, cutInside]

/-- The first record of the second session is lost. -/
theorem session_after_cut_loses_first :
    ([cutInside, twoShort].flatMap fun x => x.complete.map Extent.record) = [[1], [2]] ∧
      deliveredFrom ((smallBlocks none).reader noInflate) ([cutInside, twoShort].flatMap Session.log) =
        some [[2]] := by
  decide +kernel

end Whispercast.Logio
