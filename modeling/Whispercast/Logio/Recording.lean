import Whispercast.Library.Run
import Whispercast.Logio.Reading

/-!
# What a writer has written

Runs of a `RecordWriter`, with a note of the blocks in which the pieces of each record lie. The blocks are those of
`Written`: every piece of a record but the last one ends a block.
-/

namespace Whispercast.Logio

open Io Library RecordReader List

/-! ## Runs of a writer -/

/-- A call of a `RecordWriter`. -/
inductive WriterCall where
  /-- `AppendRecord(buffer, size, out)`. -/
  | buffer (data : Bytes)
  /-- `AppendRecord(in, out)`. -/
  | stream (data : Bytes)
  | finalize

/-- The record that a call appends. -/
def WriterCall.record : WriterCall → List Bytes
  | .buffer data => [data]
  | .stream data => [data]
  | .finalize => []

/-- A stream is not empty. -/
def WriterCall.Proper : WriterCall → Prop
  | .buffer _ => True
  | .stream data => data ≠ []
  | .finalize => True

instance (c : WriterCall) : Decidable c.Proper := by
  cases c <;> unfold WriterCall.Proper <;> infer_instance

/-- A record, and the numbers of the blocks in which its first and its last piece lie. -/
structure Extent where
  record : Bytes
  firstBlock : Nat
  lastBlock : Nat
  deriving DecidableEq

/-- A writer, what it has put out, and where its records lie. -/
structure Recording where
  writer : RecordWriter := {}
  out : Bytes := []
  extents : List Extent := []
  deriving DecidableEq

namespace Recording

/-- A record is appended by the loop with this end. The loop has finished a block behind each piece but the last. -/
def append (p : WriterParams) (s : Recording) (data : Bytes) (loop : Option (Bytes × Nat × RecordWriter)) :
    Option Recording :=
  loop.bind fun (blocks, written_block_count, w) =>
    (RecordWriter.maybeDump p (blocks, written_block_count, w)).map fun (_, out, w) =>
      let n := s.out.length / p.block_size_
      ⟨w, s.out ++ out, s.extents ++ [⟨data, n, n + written_block_count⟩]⟩

/-- One call. -/
def step (p : WriterParams) (s : Recording) : WriterCall → Option Recording
  | .buffer data => s.append p data (RecordWriter.bufferLoop p data s.writer)
  | .stream data => s.append p data (RecordWriter.recordLoop p data s.writer)
  | .finalize => (RecordWriter.finalizeContent p s.writer).map fun (block, w) =>
    { s with writer := w, out := s.out ++ block }

end Recording

/-- A writer is made and called. -/
def record (p : WriterParams) (calls : List WriterCall) : Option Recording :=
  (RecordWriter.new p).bind fun w => run (Recording.step p) { writer := w } calls

/-- The sizes leave room for a piece with some data. -/
structure WriterParams.Admitted (p : WriterParams) : Prop where
  size : p.block_size_ < kMaximumRecordBlockSize
  room : kRecordHeaderSize + p.dumpable_size_ + kBlockTrailerEnd < p.block_size_

/-- The parameters of a reader for what a writer writes. -/
def WriterParams.reader (p : WriterParams) (inflate : Bytes → Bool × Bytes) : ReaderParams where
  block_size_ := p.block_size_
  computeCRC := p.computeCRC
  inflate := inflate

/-! ## Blocks -/

/-- Blocks with their checksums, behind a block with the checksum `prev`. -/
def chain (p : ReaderParams) : Int32 → List (List Piece) → List Stored
  | _, [] => []
  | prev, fs :: blks => .block prev fs :: chain p (blockCrc p prev fs) blks

/-- The last checksum of a chain. -/
def chainEnd (p : ReaderParams) : Int32 → List (List Piece) → Int32
  | prev, [] => prev
  | prev, fs :: blks => chainEnd p (blockCrc p prev fs) blks

section Chain

variable {p : ReaderParams} {prev : Int32} {blks : List (List Piece)}

theorem chain_append (blks' : List (List Piece)) :
    chain p prev (blks ++ blks') = chain p prev blks ++ chain p (chainEnd p prev blks) blks' := by
  induction blks generalizing prev with
  | nil => rfl
  | cons fs blks ih => simp [chain, chainEnd, ih]

theorem chainEnd_append (blks' : List (List Piece)) :
    chainEnd p prev (blks ++ blks') = chainEnd p (chainEnd p prev blks) blks' := by
  induction blks generalizing prev with
  | nil => rfl
  | cons fs blks ih => simp [chainEnd, ih]

theorem chain_ok (h : ∀ fs ∈ blks, Fits p fs) : ∀ s ∈ chain p prev blks, s.Ok p := by
  induction blks generalizing prev with
  | nil => simp [chain]
  | cons fs blks ih =>
    intro s hs
    rcases mem_cons.1 hs with rfl | hs
    · exact h fs mem_cons_self
    · exact ih (fun gs hgs => h gs (mem_cons_of_mem _ hgs)) s hs

@[simp] theorem length_chain : (chain p prev blks).length = blks.length := by
  induction blks generalizing prev with
  | nil => rfl
  | cons fs blks ih => simp [chain, ih]

theorem length_flatMap_bytes {ss : List Stored} (h : ∀ s ∈ ss, s.Ok p) :
    (ss.flatMap (Stored.bytes p)).length = ss.length * p.block_size_ := by
  induction ss with
  | nil => simp
  | cons s ss ih =>
    have hs := Stored.Ok.length (h s mem_cons_self)
    have ih := ih fun t ht => h t (mem_cons_of_mem _ ht)
    rw [flatMap_cons, length_append, hs, ih, length_cons, Nat.add_mul, Nat.one_mul, Nat.add_comm]

/-- A chain is read as its pieces, where it does not seem broken at its beginning. -/
theorem readAll_chain {a : Assembler UInt8} {last : Int32} (h : ¬ Broken prev last) :
    readAll p a last (chain p prev blks) =
      (resultsOf (a.assemble blks.flatten).1, (a.assemble blks.flatten).2,
        if blks = [] then last else chainEnd p prev blks) := by
  induction blks generalizing a last prev with
  | nil => simp [chain, readAll, resultsOf]
  | cons fs blks ih =>
    have hnext : ¬ Broken (blockCrc p prev fs) (blockCrc p prev fs) := fun hbroken => hbroken.2.2 rfl
    have hread : readStored p a last (.block prev fs) =
        (resultsOf (a.assemble fs).1, (a.assemble fs).2, blockCrc p prev fs) := if_neg h
    rw [chain, readAll_cons, hread]
    rw [ih hnext, flatten_cons, Assembler.assemble_append]
    cases blks <;> simp [resultsOf, chainEnd]

end Chain

/-! ## Records in blocks -/

/-- The pieces of a record are dealt to the block under way and new ones: the blocks that are finished, and the block
that is under way then. -/
def deal : List Piece → List Piece → List (List Piece) × List Piece
  | ps, [] => ([], ps)
  | ps, [f] => ([], ps ++ [f])
  | ps, f :: g :: fs => ((ps ++ [f]) :: (deal [] (g :: fs)).1, (deal [] (g :: fs)).2)

/-- Records with these extents and these pieces have been written to finished blocks and a block under way. -/
inductive Written : List Extent → List (List Piece) → List (List Piece) → List Piece → Prop where
  | nil : Written [] [] [] []
  | append {es : List Extent} {frs blks : List (List Piece)} {ps fr : List Piece} {m : Bytes}
      (h : Written es frs blks ps) (hm : Carries true m fr) :
      Written (es ++ [⟨m, blks.length, blks.length + (deal ps fr).1.length⟩]) (frs ++ [fr])
        (blks ++ (deal ps fr).1) (deal ps fr).2
  | dump {es : List Extent} {frs blks : List (List Piece)} {ps : List Piece} (h : Written es frs blks ps) :
      Written es frs (blks ++ [ps]) []

section Deal

theorem deal_flatten (ps fr : List Piece) : (deal ps fr).1.flatten ++ (deal ps fr).2 = ps ++ fr := by
  induction fr generalizing ps with
  | nil => simp [deal]
  | cons f fs ih =>
    cases fs with
    | nil => simp [deal]
    | cons g fs => simp [deal, ih]

/-- The last piece lies in the block under way. -/
theorem deal_ne_nil (ps : List Piece) {fr : List Piece} (hfr : fr ≠ []) : (deal ps fr).2 ≠ [] := by
  induction fr generalizing ps with
  | nil => exact absurd rfl hfr
  | cons f fs ih =>
    cases fs with
    | nil => simp [deal]
    | cons g fs => exact ih [] (cons_ne_nil _ _)

/-- Behind each finished block some pieces of the record are still to come. -/
theorem deal_take (ps fr : List Piece) {n : Nat} (hpos : 0 < n) (hn : n ≤ (deal ps fr).1.length) :
    ∃ begun rest, fr = begun ++ rest ∧ begun ≠ [] ∧ rest ≠ [] ∧ ((deal ps fr).1.take n).flatten = ps ++ begun := by
  induction fr generalizing ps n with
  | nil => simp [deal] at hn; omega
  | cons f fs ih =>
    cases fs with
    | nil => simp [deal] at hn; omega
    | cons g fs =>
      rw [deal, length_cons] at hn
      obtain ⟨n, rfl⟩ : ∃ k, n = k + 1 := ⟨n - 1, by omega⟩
      rw [deal, take_succ_cons, flatten_cons]
      rcases Nat.eq_zero_or_pos n with rfl | hn'
      · exact ⟨[f], g :: fs, rfl, cons_ne_nil _ _, cons_ne_nil _ _, by simp⟩
      · obtain ⟨begun, rest, hfs, -, hrest, htake⟩ := ih [] hn' (by omega)
        refine ⟨f :: begun, rest, by rw [hfs]; rfl, cons_ne_nil _ _, hrest, ?_⟩
        rw [htake]
        simp

end Deal

/-- The pieces carry the record. -/
def Holds (e : Extent) (fr : List Piece) : Prop := Carries true e.record fr

/-- What the first `n` blocks hold: some records whole, and the beginning of another one or not. -/
inductive CutAt (n : Nat) : List Extent → List (List Piece) → List Piece → Prop where
  | between {es₁ es₂ : List Extent} {frs₁ frs₂ : List (List Piece)} (h₁ : List.Forall₂ Holds es₁ frs₁)
      (h₂ : List.Forall₂ Holds es₂ frs₂) (hlast : ∀ e ∈ es₁, e.lastBlock < n) (hfirst : ∀ e ∈ es₂, n ≤ e.firstBlock) :
      CutAt n (es₁ ++ es₂) (frs₁ ++ frs₂) frs₁.flatten
  | inside {es₁ es₂ : List Extent} {frs₁ frs₂ : List (List Piece)} {e : Extent} {begun rest : List Piece}
      (h₁ : List.Forall₂ Holds es₁ frs₁) (h₂ : List.Forall₂ Holds es₂ frs₂) (he : Holds e (begun ++ rest))
      (hlast : ∀ e ∈ es₁, e.lastBlock < n) (hfirst : ∀ e ∈ es₂, n ≤ e.firstBlock) (hbegun : begun ≠ [])
      (hrest : rest ≠ []) (hcut : e.firstBlock < n ∧ n ≤ e.lastBlock) :
      CutAt n (es₁ ++ e :: es₂) (frs₁ ++ (begun ++ rest) :: frs₂) (frs₁.flatten ++ begun)

section Written

variable {es : List Extent} {frs blks : List (List Piece)} {ps : List Piece}

theorem Written.holds (h : Written es frs blks ps) : List.Forall₂ Holds es frs := by
  induction h with
  | nil => exact .nil
  | append _ hm ih => exact rel_append ih (.cons hm .nil)
  | dump _ ih => exact ih

theorem Written.flatten (h : Written es frs blks ps) : blks.flatten ++ ps = frs.flatten := by
  induction h with
  | nil => rfl
  | @append _ frs blks ps fr _ _ _ ih =>
    rw [flatten_append, append_assoc, deal_flatten, ← append_assoc, ih, flatten_append]
    simp
  | dump _ ih => simp [ih]

theorem Written.lastBlock_le (h : Written es frs blks ps) {e : Extent} (he : e ∈ es) : e.lastBlock ≤ blks.length := by
  induction h with
  | nil => cases he
  | append _ _ ih =>
    rw [length_append]
    rcases mem_append.1 he with he | he
    · exact (ih he).trans (Nat.le_add_right _ _)
    · rw [mem_singleton] at he
      exact he ▸ le_rfl
  | dump _ ih => exact (ih he).trans (by simp)

theorem CutAt.snoc {n : Nat} {before : List Piece} (h : CutAt n es frs before) {e : Extent} {fr : List Piece}
    (he : Holds e fr) (hfirst : n ≤ e.firstBlock) : CutAt n (es ++ [e]) (frs ++ [fr]) before := by
  cases h with
  | @between es₁ es₂ frs₁ frs₂ h₁ h₂ hlast hfirst' =>
    rw [append_assoc, append_assoc]
    refine .between h₁ (rel_append h₂ (.cons he .nil)) hlast ?_
    intro e' he'
    rcases mem_append.1 he' with he' | he'
    · exact hfirst' e' he'
    · rw [mem_singleton] at he'
      exact he' ▸ hfirst
  | @inside es₁ es₂ frs₁ frs₂ e₀ begun rest h₁ h₂ he₀ hlast hfirst' hbegun hrest hcut =>
    rw [append_assoc, append_assoc, cons_append, cons_append]
    refine .inside h₁ (rel_append h₂ (.cons he .nil)) he₀ hlast ?_ hbegun hrest hcut
    intro e' he'
    rcases mem_append.1 he' with he' | he'
    · exact hfirst' e' he'
    · rw [mem_singleton] at he'
      exact he' ▸ hfirst

/-- Where finished blocks are cut off. -/
theorem Written.cutAt (h : Written es frs blks ps) {n : Nat} (hn : n ≤ blks.length) :
    CutAt n es frs (blks.take n).flatten := by
  induction h generalizing n with
  | nil =>
    rw [take_nil]
    exact .between .nil .nil (by simp) (by simp)
  | @append es frs blks ps fr m h hm ih =>
    rcases Nat.lt_or_ge blks.length n with hlt | hge
    · -- The cut falls between two pieces of the new record.
      rw [length_append] at hn
      obtain ⟨begun, rest, rfl, hbegun, hrest, htake⟩ := deal_take ps fr (show 0 < n - blks.length by omega) (by omega)
      rw [take_append, take_of_length_le (by omega), flatten_append, htake, ← append_assoc,
        h.flatten]
      refine @CutAt.inside n es [] frs [] _ begun rest h.holds .nil hm ?_ (by simp) hbegun hrest
        ⟨hlt, by dsimp only; omega⟩
      exact fun e he => (h.lastBlock_le he).trans_lt hlt
    · rw [take_append_of_le_length hge]
      exact (ih hge).snoc hm hge
  | @dump es frs blks ps h ih =>
    rcases Nat.lt_or_ge blks.length n with hlt | hge
    · have hall : (blks ++ [ps]).take n = blks ++ [ps] := take_of_length_le (by simp; omega)
      rw [hall, flatten_append, flatten_singleton, h.flatten]
      have hcut := @CutAt.between n es [] frs [] h.holds .nil
        (fun e he => (h.lastBlock_le he).trans_lt hlt) (by simp)
      rwa [append_nil, append_nil] at hcut
    · rw [take_append_of_le_length hge]
      exact ih hge

end Written

/-! ## Growth -/

/-- More pieces were written: the block that was under way begins as it did, finished or not. -/
structure Grown (frs blks : List (List Piece)) (ps : List Piece) (frs' blks' : List (List Piece)) (ps' : List Piece) :
    Prop where
  records : frs <+: frs'
  blocks : ∃ gs tl, blks' ++ [ps'] = blks ++ gs :: tl ∧ ps <+: gs

section Grown

variable {frs blks frs' blks' frs'' blks'' : List (List Piece)} {ps ps' ps'' fr : List Piece}

theorem Grown.refl : Grown frs blks ps frs blks ps := ⟨prefix_refl _, ps, [], rfl, prefix_refl _⟩

theorem Grown.trans (h : Grown frs blks ps frs' blks' ps') (h' : Grown frs' blks' ps' frs'' blks'' ps'') :
    Grown frs blks ps frs'' blks'' ps'' := by
  obtain ⟨gs, tl, hblks, hps⟩ := h.blocks
  obtain ⟨gs', tl', hblks', hps'⟩ := h'.blocks
  refine ⟨h.records.trans h'.records, ?_⟩
  rcases eq_nil_or_concat tl with rfl | ⟨tl₀, q, rfl⟩
  · obtain ⟨rfl, heq⟩ := append_inj' hblks rfl
    cases heq
    exact ⟨gs', tl', hblks', hps.trans hps'⟩
  · rw [concat_eq_append, ← cons_append, ← append_assoc] at hblks
    obtain ⟨rfl, -⟩ := append_inj' hblks rfl
    exact ⟨gs, tl₀ ++ gs' :: tl', by rw [hblks', append_assoc, cons_append], hps⟩

theorem Grown.deal (ps fr : List Piece) : Grown frs blks ps (frs ++ [fr]) (blks ++ (deal ps fr).1) (deal ps fr).2 := by
  refine ⟨prefix_append _ _, ?_⟩
  rw [append_assoc]
  cases fr with
  | nil => exact ⟨ps, [], rfl, prefix_refl _⟩
  | cons f fs => cases fs with
    | nil => exact ⟨ps ++ [f], [], rfl, prefix_append _ _⟩
    | cons g fs => exact ⟨ps ++ [f], _, by rw [Logio.deal]; rfl, prefix_append _ _⟩

theorem Grown.dump : Grown frs blks ps frs (blks ++ [ps]) [] :=
  ⟨prefix_refl _, ps, [[]], by simp, prefix_refl _⟩

end Grown

end Whispercast.Logio
