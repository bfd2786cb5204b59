import Whispercast.Library.Salvage
import Whispercast.Logio.Damage

/-!
# Blocks that are missing or damaged

Any blocks of what a writer has put out may be missing, and any may be damaged. The checksum that each block has of the
one before tells the reader where a block is missing, as long as a record is pending. It then skips up to the end of a
record, so that no piece of one record is joined to a piece of another one.
-/

namespace Whispercast.Logio

open Io Library RecordReader List RecordWriter Recording

/-! ## What is left of the blocks -/

/-- The blocks of what has been put out. -/
def blocksOf (blockSize : Nat) (out : Bytes) : List Bytes :=
  (List.range (out.length / blockSize)).map fun i => (out.drop (i * blockSize)).take blockSize

/-- Some blocks are missing, and some are damaged. -/
inductive Mangled (q : ReaderParams) : List Bytes → List Bytes → Prop where
  | nil : Mangled q [] []
  | keep (b : Bytes) {blocks left : List Bytes} (h : Mangled q blocks left) : Mangled q (b :: blocks) (b :: left)
  | lose (b : Bytes) {blocks left : List Bytes} (h : Mangled q blocks left) : Mangled q (b :: blocks) left
  | damage (b : Bytes) {b' : Bytes} {blocks left : List Bytes} (hb : Damaged q b') (h : Mangled q blocks left) :
      Mangled q (b :: blocks) (b' :: left)

/-- The checksums of a chain of blocks. -/
def crcs (q : ReaderParams) : Int32 → List (List Piece) → List Int32
  | _, [] => []
  | prev, fs :: blks => blockCrc q prev fs :: crcs q (blockCrc q prev fs) blks

section Chain

variable {q : ReaderParams} {prev last : Int32} {fs ps : List Piece} {blks : List (List Piece)} {a : Assembler UInt8}
  {ms : List Bytes}

theorem chainBytes_cons : chainBytes q prev (fs :: blks) = blockBytes q prev fs ++ chainBytes q (blockCrc q prev fs) blks :=
  flatMap_cons

section

variable (h : ∀ fs ∈ blks, Fits q fs) (hpos : 0 < q.block_size_)

include h hpos

theorem length_chainBytes_div : (chainBytes q prev blks).length / q.block_size_ = blks.length := by
  rw [length_chainBytes h, Nat.mul_div_cancel _ hpos]

theorem blocksOf_chainBytes :
    blocksOf q.block_size_ (chainBytes q prev blks) = (chain q prev blks).map (Stored.bytes q) := by
  rw [blocksOf, length_chainBytes_div h hpos]
  induction blks generalizing prev with
  | nil => rfl
  | cons fs blks ih =>
    have hlen := @Fits.length_block q prev fs (h fs mem_cons_self)
    have ih := @ih (blockCrc q prev fs) fun gs hgs => h gs (mem_cons_of_mem _ hgs)
    rw [length_cons, range_succ_eq_map, map_cons, map_map, chain, map_cons, ← ih]
    congr 1
    · rw [Nat.zero_mul, drop_zero, chainBytes_cons, Stored.bytes, take_left' hlen]
    · refine map_congr_left fun i _ => ?_
      rw [Function.comp_apply, Nat.succ_mul, Nat.add_comm, ← drop_drop, chainBytes_cons, drop_left' hlen]

theorem checksums_chainBytes : checksums q.block_size_ (chainBytes q prev blks) = crcs q prev blks := by
  have hends : ∀ prev, (range blks.length).map (fun i => chainEnd q prev (blks.take (i + 1))) = crcs q prev blks := by
    clear h
    induction blks with
    | nil => exact fun prev => rfl
    | cons fs blks ih =>
      intro prev
      rw [length_cons, range_succ_eq_map, map_cons, map_map, crcs, ← ih (blockCrc q prev fs)]
      rfl
  rw [checksums, length_chainBytes_div h hpos, ← hends prev]
  exact map_congr_left fun i hi => checksum_chainBytes h (mem_range.1 hi)

end

/-! ## The reader between two blocks -/

/-- A reader that has seen a part of a chain, of which the last block had the checksum `prev`. Either it has seen that
block, or the checksum of the block that it has seen last is none of those that come. -/
structure Salvaging (q : ReaderParams) (a : Assembler UInt8) (last prev : Int32) (blks : List (List Piece))
    (ps : List Piece) (ms : List Bytes) : Prop where
  differs : (prev :: crcs q prev blks).Nodup
  nonzero : 0 ∉ crcs q prev blks
  begun : a.pending ≠ [] → last ≠ 0 ∧ prev ≠ 0
  state : (last = prev ∧ Sound a (blks.flatten ++ ps) ms) ∨
    (last ∉ prev :: crcs q prev blks ∧ Ahead (blks.flatten ++ ps) ms ∧ (a.pending = [] → a = {}))

section

variable (h : Salvaging q a last prev (fs :: blks) ps ms)

include h

/-- The next block does not come, or is damaged. -/
theorem Salvaging.lost : ∃ ms', ms'.Sublist ms ∧ Salvaging q a last (blockCrc q prev fs) blks ps ms' := by
  obtain ⟨hdiffers, hnonzero, hbegun, hstate⟩ := h
  rw [crcs, nodup_cons] at hdiffers
  rw [crcs, mem_cons, not_or] at hnonzero
  have hnext : last ∉ blockCrc q prev fs :: crcs q (blockCrc q prev fs) blks ∧
      (a.pending = [] → a = {}) ∧ ∃ ms', ms'.Sublist ms ∧ Ahead (fs ++ (blks.flatten ++ ps)) ms' := by
    rw [flatten_cons, append_assoc] at hstate
    rcases hstate with ⟨rfl, hsound⟩ | ⟨hlast, hahead, hclean⟩
    · exact ⟨hdiffers.1, hsound.skip_eq, hsound.ahead⟩
    · exact ⟨fun hmem => hlast (mem_cons_of_mem _ hmem), hclean, ms, Sublist.refl ms, hahead⟩
  obtain ⟨hlast, hclean, _, hsub₁, hahead₁⟩ := hnext
  obtain ⟨ms₂, hsub₂, hahead₂⟩ := hahead₁.drop
  exact ⟨ms₂, hsub₂.trans hsub₁, hdiffers.2, hnonzero.2, fun hpending => ⟨(hbegun hpending).1, Ne.symm hnonzero.1⟩,
    .inr ⟨hlast, hahead₂, hclean⟩⟩

/-- The assembler with which the reader takes the pieces of the next block. -/
theorem Salvaging.resumed : ∃ a', Sound a' (fs ++ (blks.flatten ++ ps)) ms ∧
      delivered (readStored q a last (.block prev fs)).1 = messages (a'.assemble fs).1 ∧
      (readStored q a last (.block prev fs)).2 = ((a'.assemble fs).2, blockCrc q prev fs) := by
  have hstate := h.state
  rw [flatten_cons, append_assoc] at hstate
  rcases hstate with ⟨rfl, hsound⟩ | ⟨hlast, hahead, hclean⟩
  · have hbroken : ¬ Broken last last := fun hbroken => hbroken.2.2 rfl
    exact ⟨a, hsound, by rw [readStored, if_neg hbroken, delivered_resultsOf], by rw [readStored, if_neg hbroken]⟩
  · by_cases hpending : a.pending = []
    · -- Nothing is pending, so that it does not matter whether the chain seems broken.
      obtain rfl := hclean hpending
      refine ⟨{}, .clean hahead, ?_, ?_⟩
      · rw [readStored]
        split_ifs
        · exact (delivered_error (by simp) _ _).trans (delivered_resultsOf _)
        · exact delivered_resultsOf _
      · rw [readStored]
        split_ifs <;> rfl
    · obtain ⟨hlastne, hprevne⟩ := h.begun hpending
      have hbroken : Broken prev last := ⟨hprevne, hlastne, fun heq => hlast (heq ▸ mem_cons_self)⟩
      refine ⟨{ a with skip := true }, .skipping hpending hahead, ?_, ?_⟩
      · rw [readStored, if_pos hbroken, if_neg hpending, delivered_resultsOf]
      · rw [readStored, if_pos hbroken, if_neg hpending]

/-- The next block is read. -/
theorem Salvaging.read : ∃ ms', (delivered (readStored q a last (.block prev fs)).1 ++ ms').Sublist ms ∧
      Salvaging q (readStored q a last (.block prev fs)).2.1 (readStored q a last (.block prev fs)).2.2
        (blockCrc q prev fs) blks ps ms' := by
  obtain ⟨_, hsound, hdelivered, hnext⟩ := h.resumed
  obtain ⟨ms', hsound', hsub⟩ := hsound.assemble
  have hdiffers := h.differs
  have hnonzero := h.nonzero
  rw [crcs, nodup_cons] at hdiffers
  rw [crcs, mem_cons, not_or] at hnonzero
  refine ⟨ms', hdelivered ▸ hsub, ?_⟩
  rw [hnext]
  exact ⟨hdiffers.2, hnonzero.2, fun _ => ⟨Ne.symm hnonzero.1, Ne.symm hnonzero.1⟩, .inl ⟨rfl, hsound'⟩⟩

end

/-- Whatever is missing, what is delivered is some of the records, in their order. -/
theorem Salvaging.delivered {left : List Bytes} (hfits : ∀ fs ∈ blks, Fits q fs)
    (h : Salvaging q a last prev blks ps ms)
    (hleft : Mangled q ((chain q prev blks).map (Stored.bytes q)) left) :
    ∃ ts, left = ts.map (Stored.bytes q) ∧ (∀ t ∈ ts, t.Ok q) ∧
      (Logio.delivered (readAll q a last ts).1).Sublist ms := by
  induction blks generalizing prev last a ms left with
  | nil =>
    cases hleft
    exact ⟨[], rfl, by simp, nil_sublist ms⟩
  | cons fs blks ih =>
    have hfits' : ∀ gs ∈ blks, Fits q gs := fun gs hgs => hfits gs (mem_cons_of_mem _ hgs)
    cases hleft with
    | @keep _ _ left hleft =>
      obtain ⟨ms', hsub, hnext⟩ := h.read
      obtain ⟨ts, rfl, hok, hdelivered⟩ := ih hfits' hnext hleft
      refine ⟨.block prev fs :: ts, rfl, forall_mem_cons.2 ⟨hfits fs mem_cons_self, hok⟩, ?_⟩
      rw [readAll_cons, delivered_append]
      exact (hdelivered.append_left _).trans hsub
    | lose _ hleft =>
      obtain ⟨ms', hsub, hnext⟩ := h.lost
      obtain ⟨ts, rfl, hok, hdelivered⟩ := ih hfits' hnext hleft
      exact ⟨ts, rfl, hok, hdelivered.trans hsub⟩
    | @damage _ b _ left hb hleft =>
      obtain ⟨ms', hsub, hnext⟩ := h.lost
      obtain ⟨ts, rfl, hok, hdelivered⟩ := ih hfits' hnext hleft
      refine ⟨.damaged b :: ts, rfl, forall_mem_cons.2 ⟨hb, hok⟩, ?_⟩
      rw [readAll_cons, delivered_append]
      exact hdelivered.trans hsub

end Chain

/-! ## Whole sessions -/

section Sessions

variable {p : WriterParams} {inflate : Bytes → Bool × Bytes} {frs blks : List (List Piece)} {ps : List Piece}
  {s t : Recording}

/-- A call that is not aborted keeps the invariant, though an empty stream is not written. -/
theorem Recording.Inv.of_step (hsize : p.block_size_ < kMaximumRecordBlockSize) (hplain : p.deflate = none)
    (h : t.Inv p (p.reader inflate) frs blks ps) (hwriter : t.writer = s.writer) (hout : t.out = s.out)
    {call : WriterCall} {s' : Recording} (hs : s.step p call = some s') :
    ∃ (t' : Recording) (frs' blks' : List (List Piece)) (ps' : List Piece),
      t'.Inv p (p.reader inflate) frs' blks' ps' ∧ t'.writer = s'.writer ∧ t'.out = s'.out ∧
      (t'.extents.map Extent.record).Sublist (t.extents.map Extent.record ++ call.record) := by
  -- A record that is written, by a loop that is the same for both.
  have hone : ∀ data : Bytes, s.append p data (RecordWriter.appendLoop p (data.length + 1) true data s.writer) = some s' →
      ∃ (t' : Recording) (frs' blks' : List (List Piece)) (ps' : List Piece),
      t'.Inv p (p.reader inflate) frs' blks' ps' ∧ t'.writer = s'.writer ∧ t'.out = s'.out ∧
        (t'.extents.map Extent.record).Sublist (t.extents.map Extent.record ++ [data]) := by
    intro data hs
    obtain ⟨y, hloop, hdump⟩ := Option.bind_eq_some_iff.1 hs
    obtain ⟨t', frs', blks', ps', ht', hinv, -, hrecords⟩ := h.append_of_loop hsize data (by rw [hwriter]; exact hloop)
    obtain ⟨⟨dumped, out', w'⟩, hy, rfl⟩ := Option.map_eq_some_iff.1 hdump
    obtain ⟨⟨dumped', out'', w''⟩, hy', rfl⟩ := Option.map_eq_some_iff.1 ht'
    obtain ⟨rfl, rfl, rfl⟩ : dumped = dumped' ∧ out' = out'' ∧ w' = w'' := by simpa using hy.symm.trans hy'
    exact ⟨_, frs', blks', ps', hinv, rfl, by rw [hout], by rw [hrecords]⟩
  cases call with
  | buffer data =>
    rw [Recording.step, RecordWriter.bufferLoop, hplain] at hs
    exact hone data hs
  | stream data =>
    rw [Recording.step, RecordWriter.recordLoop, hplain] at hs
    by_cases hnil : data = []
    · -- Nothing is written, and the block under way is not large enough to be finished.
      have hcontent : ¬ p.dumpable_size_ < s.writer.content_.length := by
        rw [← hwriter, h.writer, content_writerAt]
        exact Nat.not_lt.2 h.content
      rw [RecordWriter.streamLoop, if_pos hnil, Recording.append, Option.bind_some] at hs
      dsimp only at hs
      rw [RecordWriter.maybeDump, if_neg hcontent, Option.map_some] at hs
      cases hs
      exact ⟨t, frs, blks, ps, h, hwriter, by rw [hout, List.append_nil], List.sublist_append_left _ _⟩
    · rw [RecordWriter.streamLoop, if_neg hnil] at hs
      exact hone data hs
  | finalize =>
    obtain ⟨⟨_, w⟩, hfin, rfl⟩ := Option.map_eq_some_iff.1 hs
    rw [← hwriter, h.writer] at hfin
    by_cases hps : ps = []
    · subst hps
      cases hfin
      exact ⟨t, frs, blks, [], h, h.writer, hout.trans (List.append_nil _).symm, List.sublist_append_left _ _⟩
    · have hfits : Fits (p.reader inflate) ps := by
        refine ⟨hsize, Nat.not_lt.1 fun hlt => ?_⟩
        have hlt : p.block_size_ < (contentBytes ps).length + kBlockTrailerEnd := hlt
        rw [RecordWriter.finalizeContent, content_writerAt, if_neg fun hnil => hps (contentBytes_eq_nil.1 hnil),
          if_pos hlt] at hfin
        cases hfin
      obtain ⟨t', blks', ht', hinv, -, _⟩ := h.finalize_of_fits hfits
      rw [Recording.step, h.writer, hfin, Option.map_some] at ht'
      cases ht'
      exact ⟨_, frs, blks', [], hinv, rfl, by rw [hout], by simp [WriterCall.record]⟩

/-- A run that is not aborted writes some of the records at least. -/
theorem Recording.Inv.of_run (hsize : p.block_size_ < kMaximumRecordBlockSize) (hplain : p.deflate = none)
    (h : t.Inv p (p.reader inflate) frs blks ps) (hwriter : t.writer = s.writer) (hout : t.out = s.out)
    {calls : List WriterCall} {s' : Recording} (hs : Library.run (Recording.step p) s calls = some s') :
    ∃ (t' : Recording) (frs' blks' : List (List Piece)) (ps' : List Piece),
      t'.Inv p (p.reader inflate) frs' blks' ps' ∧ t'.out = s'.out ∧
      (t'.extents.map Extent.record).Sublist (t.extents.map Extent.record ++ calls.flatMap WriterCall.record) := by
  induction calls generalizing s t frs blks ps with
  | nil =>
    cases hs
    exact ⟨t, frs, blks, ps, h, hout, by simp⟩
  | cons call calls ih =>
    obtain ⟨_, hstep, hrun⟩ := run_cons_eq_some.1 hs
    obtain ⟨_, _, _, _, h₁, hwriter₁, hout₁, hsub₁⟩ := h.of_step hsize hplain hwriter hout hstep
    obtain ⟨t₂, frs₂, blks₂, ps₂, h₂, hout₂, hsub₂⟩ := ih h₁ hwriter₁ hout₁ hrun
    refine ⟨t₂, frs₂, blks₂, ps₂, h₂, hout₂, hsub₂.trans ?_⟩
    rw [flatMap_cons, ← append_assoc]
    exact hsub₁.append_right _

/-- Blocks of a session are missing or damaged, and all checksums differ and are not zero. However the rest arrives, a
reader gives no record but those that were appended, each of them once at most and in their order. -/
theorem no_record_fabricated (p : WriterParams) (hplain : p.deflate = none) (inflate : Bytes → Bool × Bytes)
    (calls : List WriterCall) {s : Recording} (hs : record p calls = some s) (hpos : 0 < p.block_size_)
    (hcrc : ((0 : Int32) :: checksums p.block_size_ s.out).Nodup) {left : List Bytes}
    (hleft : Mangled (p.reader inflate) (blocksOf p.block_size_ s.out) left) (pieces : List Bytes)
    (hpieces : pieces.flatten = left.flatten) :
    ∃ results, RecordReader.feed (p.reader inflate) pieces {} [] = some results ∧
      (delivered results).Sublist (calls.flatMap WriterCall.record) := by
  obtain ⟨w, hw, hrun⟩ := Option.bind_eq_some_iff.1 hs
  have hsize : p.block_size_ < kMaximumRecordBlockSize := by
    rw [new] at hw
    split_ifs at hw with hsize
    exact hsize
  rw [new, if_pos hsize] at hw
  cases hw
  obtain ⟨t, _, blks, ps, hinv, hout, hsub⟩ :=
    (inv_init : Inv p (p.reader inflate) {} [] [] []).of_run hsize hplain rfl rfl hrun
  rw [← hout, hinv.out] at hcrc hleft
  have hcrc : ((0 : Int32) :: crcs (p.reader inflate) 0 blks).Nodup := by
    rw [← checksums_chainBytes hinv.fits hpos]
    exact hcrc
  have hleft : Mangled (p.reader inflate) ((chain (p.reader inflate) 0 blks).map (Stored.bytes (p.reader inflate)))
      left := by
    rw [← blocksOf_chainBytes hinv.fits hpos]
    exact hleft
  have hstart : Salvaging (p.reader inflate) {} 0 0 blks ps (t.extents.map Extent.record) := by
    refine ⟨hcrc, (nodup_cons.1 hcrc).1, fun hpending => absurd rfl hpending, .inl ⟨rfl, ?_⟩⟩
    rw [hinv.written.flatten]
    exact .clean (ahead_messages hinv.written.carries)
  obtain ⟨ts, rfl, hok, hdelivered⟩ := hstart.delivered hinv.fits hleft
  refine ⟨(readAll (p.reader inflate) {} 0 ts).1, ?_, hdelivered.trans hsub⟩
  exact @feed_all (p.reader inflate) {} ts 0 [] hok hpos pieces [] hpos (by simp [hpieces, flatMap])

/-- The first of three blocks is missing, and the last one is damaged. -/
theorem no_record_fabricated_small : ∃ s, record (smallBlocks none) twoRecords = some s ∧
      ∃ left, Mangled ((smallBlocks none).reader noInflate) (blocksOf 40 s.out) left ∧ left.length = 2 ∧
        ∃ results, RecordReader.feed ((smallBlocks none).reader noInflate) left {} [] = some results ∧
          (delivered results).Sublist [List.replicate 30 7, [1]] := by
  have hrun : (record (smallBlocks none) twoRecords).any
      (fun s => (blocksOf 40 s.out).length = 3 ∧ ((0 : Int32) :: checksums 40 s.out).Nodup) = true := by decide +kernel
  obtain ⟨s, hs, hrun⟩ := (Option.any_eq_true _ _).1 hrun
  rw [decide_eq_true_iff] at hrun
  obtain ⟨b₁, b₂, b₃, hblocks⟩ := length_eq_three.1 hrun.1
  have hleft : Mangled ((smallBlocks none).reader noInflate) (blocksOf 40 s.out) [b₂, replicate 40 0] := by
    rw [hblocks]
    exact .lose b₁ (.keep b₂ (.damage b₃ zeros_damaged .nil))
  exact ⟨s, hs, _, hleft, rfl, no_record_fabricated (smallBlocks none) rfl noInflate twoRecords hs (by decide) hrun.2
    hleft _ rfl⟩

end Sessions

end Whispercast.Logio
