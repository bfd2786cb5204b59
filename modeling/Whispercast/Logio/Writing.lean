import Whispercast.Logio.Recording

/-!
# Runs of a writer

With sizes that are admitted and without compression, no run of a `RecordWriter` is aborted, and what it has put out
is a chain of blocks with the records that were appended.
-/

namespace Whispercast.Logio

open Io Library RecordReader List Option Recording RecordFlags RecordWriter

variable {p : WriterParams} {inflate : Bytes → Bool × Bytes} {ps : List Piece} {prev : Int32}

/-- A writer with a block under way. -/
def writerAt (ps : List Piece) (prev : Int32) : RecordWriter := ⟨contentBytes ps, ps.length, prev⟩

@[simp] theorem content_writerAt : (writerAt ps prev).content_ = contentBytes ps := rfl

/-- The bytes of a chain of blocks. -/
def chainBytes (p : ReaderParams) (prev : Int32) (blks : List (List Piece)) : Bytes :=
  (chain p prev blks).flatMap (Stored.bytes p)

theorem chainBytes_append (p : ReaderParams) (blks blks' : List (List Piece)) :
    chainBytes p prev (blks ++ blks') = chainBytes p prev blks ++ chainBytes p (chainEnd p prev blks) blks' := by
  rw [chainBytes, chain_append, flatMap_append, chainBytes, chainBytes]

theorem length_chainBytes {p : ReaderParams} {blks : List (List Piece)} (h : ∀ fs ∈ blks, Fits p fs) :
    (chainBytes p prev blks).length = blks.length * p.block_size_ := by
  rw [chainBytes, length_flatMap_bytes (chain_ok h), length_chain]

theorem chainBytes_cut {p : ReaderParams} {blks : List (List Piece)} (h : ∀ fs ∈ blks, Fits p fs) {i : Nat}
    (hi : i ≤ blks.length) :
    (chainBytes p prev blks).take (i * p.block_size_) = chainBytes p prev (blks.take i) ∧
      (chainBytes p prev blks).drop (i * p.block_size_) = chainBytes p (chainEnd p prev (blks.take i)) (blks.drop i) := by
  have hlen : (chainBytes p prev (blks.take i)).length = i * p.block_size_ := by
    rw [length_chainBytes fun fs hfs => h fs (mem_of_mem_take hfs), length_take, Nat.min_eq_left hi]
  have hsplit := @chainBytes_append prev p (blks.take i) (blks.drop i)
  rw [take_append_drop] at hsplit
  rw [hsplit, take_left' hlen, drop_left' hlen]
  exact ⟨rfl, rfl⟩

/-! ## Steps of the writer -/

theorem putPiece_writerAt (first cont : Bool) (data : Bytes) :
    (writerAt ps prev).putPiece (flagsOf ⟨first, cont, data⟩) data = writerAt (ps ++ [⟨first, cont, data⟩]) prev := by
  simp [putPiece, writerAt, pieceBytes]

theorem finalizeContent_writerAt (inflate : Bytes → Bool × Bytes) (hps : ps ≠ []) (hfits : Fits (p.reader inflate) ps) :
    finalizeContent p (writerAt ps prev) =
      some (blockBytes (p.reader inflate) prev ps, writerAt [] (blockCrc (p.reader inflate) prev ps)) := by
  have hne : (writerAt ps prev).content_ ≠ [] := fun hnil => hps (contentBytes_eq_nil.1 hnil)
  have hsize : ¬ p.block_size_ < (writerAt ps prev).content_.length + kBlockTrailerEnd := Nat.not_lt.2 hfits.content
  rw [finalizeContent, if_neg hne, if_neg hsize]
  rfl

theorem finalizeContent_nil : finalizeContent p (writerAt [] prev) = some ([], writerAt [] prev) := if_pos rfl

/-- With sizes that are admitted the loop is not aborted. -/
theorem appendLoop_writerAt (inflate : Bytes → Bool × Bytes) (hp : p.Admitted) {n : Nat} {first : Bool} {data : Bytes}
    (hroom : kBlockTrailerEnd + kRecordHeaderSize + (contentBytes ps).length < p.block_size_) (hn : data.length < n) :
    ∃ y, appendLoop p n first data (writerAt ps prev) = some y := by
  induction n generalizing ps prev first data with
  | zero => omega
  | succ n ih =>
    have hcheck : ¬ p.block_size_ ≤ kBlockTrailerEnd + kRecordHeaderSize + (writerAt ps prev).content_.length :=
      Nat.not_le.2 hroom
    rw [appendLoop, if_neg hcheck]
    by_cases hlen : data.length ≤ p.block_size_ - kBlockTrailerEnd - kRecordHeaderSize - (contentBytes ps).length
    · exact ⟨_, if_pos hlen⟩
    · rw [content_writerAt, if_neg hlen]
      rw [kBlockTrailerEnd, kRecordHeaderSize] at hroom hlen ⊢
      have hflags : hasCont ||| (if first then isFirst else 0) =
          flagsOf ⟨first, true, data.take (p.block_size_ - 12 - 4 - (contentBytes ps).length)⟩ := by simp [flagsOf]
      have hfits : Fits (p.reader inflate)
          (ps ++ [⟨first, true, data.take (p.block_size_ - 12 - 4 - (contentBytes ps).length)⟩]) := by
        refine ⟨hp.size, ?_⟩
        simp only [contentBytes_append, contentBytes_cons, contentBytes_nil, append_nil, length_append,
          length_pieceBytes, kBlockTrailerEnd, WriterParams.reader, length_take]
        omega
      rw [hflags, putPiece_writerAt, finalizeContent_writerAt inflate (by simp) hfits, bind_some]
      have hsize := hp.room
      obtain ⟨y, hy⟩ := @ih []
        (blockCrc (p.reader inflate) prev
          (ps ++ [⟨first, true, data.take (p.block_size_ - 12 - 4 - (contentBytes ps).length)⟩])) false
        (data.drop (p.block_size_ - 12 - 4 - (contentBytes ps).length))
        (by rw [kBlockTrailerEnd, kRecordHeaderSize, contentBytes_nil, length_nil]; omega)
        (by rw [length_drop]; omega)
      exact ⟨_, map_eq_some_iff.2 ⟨y, hy, rfl⟩⟩

/-- The loop deals the pieces of the record to the block under way and new ones. -/
theorem appendLoop_eq_some (inflate : Bytes → Bool × Bytes) (hsize : p.block_size_ < kMaximumRecordBlockSize) {n : Nat}
    {first : Bool} {data : Bytes} {y : Bytes × Nat × RecordWriter}
    (h : appendLoop p n first data (writerAt ps prev) = some y) :
    ∃ fr, Carries first data fr ∧ (∀ fs ∈ (deal ps fr).1, Fits (p.reader inflate) fs) ∧
      Fits (p.reader inflate) (deal ps fr).2 ∧
      y = (chainBytes (p.reader inflate) prev (deal ps fr).1, (deal ps fr).1.length,
        writerAt (deal ps fr).2 (chainEnd (p.reader inflate) prev (deal ps fr).1)) := by
  induction n generalizing ps prev first data y with
  | zero => cases h
  | succ n ih =>
    rw [appendLoop] at h
    by_cases hcheck : p.block_size_ ≤ kBlockTrailerEnd + kRecordHeaderSize + (contentBytes ps).length
    · cases (if_pos hcheck).symm.trans h
    rw [content_writerAt, if_neg hcheck] at h
    rw [kBlockTrailerEnd, kRecordHeaderSize] at hcheck
    have hfits : ∀ f : Piece, f.data.length ≤ p.block_size_ - kBlockTrailerEnd - kRecordHeaderSize -
        (contentBytes ps).length → Fits (p.reader inflate) (ps ++ [f]) := by
      intro f hf
      rw [kBlockTrailerEnd, kRecordHeaderSize] at hf
      refine ⟨hsize, ?_⟩
      simp only [contentBytes_append, contentBytes_cons, contentBytes_nil, append_nil, length_append,
        length_pieceBytes, kBlockTrailerEnd, WriterParams.reader]
      omega
    by_cases hlen : data.length ≤ p.block_size_ - kBlockTrailerEnd - kRecordHeaderSize - (contentBytes ps).length
    · rw [if_pos hlen] at h
      refine ⟨[⟨first, false, data⟩], .last first data, by simp [deal], by simpa [deal] using hfits _ hlen, ?_⟩
      have hbits : flagsOf ⟨first, false, data⟩ = if first then isFirst else 0 := by simp [flagsOf]
      have hput := @putPiece_writerAt ps prev first false data
      rw [hbits] at hput
      rw [hput] at h
      exact (Option.some.inj h).symm
    · -- The block is filled, and the rest of the record goes on in a new one.
      rw [if_neg hlen] at h
      set available := p.block_size_ - kBlockTrailerEnd - kRecordHeaderSize - (contentBytes ps).length with havailable
      rw [kBlockTrailerEnd, kRecordHeaderSize] at havailable
      have htake : (data.take available).length = available := length_take_of_le (by omega)
      have hne : data.take available ≠ [] := by
        intro hnil
        rw [hnil, length_nil] at htake
        omega
      have hblock := hfits ⟨first, true, data.take available⟩ (by rw [htake])
      have hbits : flagsOf ⟨first, true, data.take available⟩ =
          hasCont ||| if first then isFirst else 0 := by simp [flagsOf]
      rw [← hbits, putPiece_writerAt, finalizeContent_writerAt inflate (by simp) hblock, bind_some] at h
      obtain ⟨z, hz, rfl⟩ := map_eq_some_iff.1 h
      obtain ⟨fr, hcarries, hfitsAll, hfitsLast, rfl⟩ := ih hz
      have hcarried : Carries first data (⟨first, true, data.take available⟩ :: fr) := by
        have hmore := Carries.more first hne hcarries
        rwa [take_append_drop] at hmore
      obtain ⟨g, _, rfl, -⟩ := hcarries.first_eq
      refine ⟨_, hcarried, ?_, hfitsLast, ?_⟩
      · intro fs hfs
        rcases mem_cons.1 hfs with rfl | hfs
        · exact hblock
        · exact hfitsAll fs hfs
      · simp [deal, chainBytes, chain, chainEnd, Stored.bytes]

/-! ## Invariant -/

/-- The records lie in the blocks of a chain, which have been put out, and in the block under way. -/
structure Recording.Inv (p : WriterParams) (q : ReaderParams) (s : Recording) (frs blks : List (List Piece))
    (ps : List Piece) : Prop where
  written : Written s.extents frs blks ps
  writer : s.writer = writerAt ps (chainEnd q 0 blks)
  out : s.out = chainBytes q 0 blks
  fits : ∀ fs ∈ blks, Fits q fs
  content : (contentBytes ps).length ≤ p.dumpable_size_

variable {s : Recording} {frs blks : List (List Piece)}

theorem Recording.inv_init : Recording.Inv p (p.reader inflate) {} [] [] [] where
  written := .nil
  writer := rfl
  out := rfl
  fits := by simp
  content := Nat.zero_le _

/-- The part of `AppendRecord` behind the loop keeps the records. -/
theorem Recording.Inv.maybeDump {es : List Extent} {w : RecordWriter} {out : Bytes} (before : Bytes)
    (count : Nat) (hwritten : Written es frs blks ps) (hw : w = writerAt ps (chainEnd (p.reader inflate) 0 blks))
    (hout : before ++ out = chainBytes (p.reader inflate) 0 blks) (hfits : ∀ fs ∈ blks, Fits (p.reader inflate) fs)
    (hlast : Fits (p.reader inflate) ps) :
    ∃ dumped out' w' blks' ps', RecordWriter.maybeDump p (out, count, w) = some (dumped, out', w') ∧
      Recording.Inv p (p.reader inflate) ⟨w', before ++ out', es⟩ frs blks' ps' ∧ Grown frs blks ps frs blks' ps' := by
  by_cases hdump : p.dumpable_size_ < (contentBytes ps).length
  · have hne : ps ≠ [] := by
      rintro rfl
      simp at hdump
    refine ⟨true, out ++ blockBytes (p.reader inflate) (chainEnd (p.reader inflate) 0 blks) ps, _, blks ++ [ps], [], ?_,
      { written := hwritten.dump, writer := rfl, out := ?_, fits := ?_, content := Nat.zero_le _ }, .dump⟩
    · rw [RecordWriter.maybeDump, hw, content_writerAt, if_pos hdump, finalizeContent_writerAt inflate hne hlast, chainEnd_append]
      rfl
    · rw [← append_assoc, hout, chainBytes_append]
      simp [chainBytes, chain, Stored.bytes]
    · intro fs hfs
      rcases mem_append.1 hfs with hfs | hfs
      · exact hfits fs hfs
      · rw [mem_singleton] at hfs
        exact hfs ▸ hlast
  · refine ⟨decide (1 ≤ count), out, w, blks, ps, ?_,
      { written := hwritten, writer := hw, out := hout, fits := hfits, content := Nat.not_lt.1 hdump }, .refl⟩
    rw [RecordWriter.maybeDump, hw, content_writerAt, if_neg hdump]

/-- A record is appended by a loop that is not aborted. -/
theorem Recording.Inv.append_of_loop (hsize : p.block_size_ < kMaximumRecordBlockSize)
    (h : s.Inv p (p.reader inflate) frs blks ps) (data : Bytes) {y : Bytes × Nat × RecordWriter}
    (hloop : appendLoop p (data.length + 1) true data s.writer = some y) :
    ∃ s' frs' blks' ps', s.append p data (some y) = some s' ∧
      s'.Inv p (p.reader inflate) frs' blks' ps' ∧ Grown frs blks ps frs' blks' ps' ∧
      s'.extents.map Extent.record = s.extents.map Extent.record ++ [data] := by
  have hpos : 0 < (p.reader inflate).block_size_ := by
    by_cases hcheck : p.block_size_ ≤ kBlockTrailerEnd + kRecordHeaderSize + s.writer.content_.length
    · cases (if_pos hcheck).symm.trans hloop
    · exact Nat.lt_of_le_of_lt (Nat.zero_le _) (Nat.not_le.1 hcheck)
  rw [h.writer] at hloop
  obtain ⟨fr, hcarries, hfits, hlast, rfl⟩ := appendLoop_eq_some inflate hsize hloop
  have hblocks : s.out.length / p.block_size_ = blks.length := by
    rw [h.out, length_chainBytes h.fits]
    exact Nat.mul_div_cancel _ hpos
  obtain ⟨_, _, _, blks', ps', hdump, hinv, hgrown⟩ := Inv.maybeDump s.out
    (deal ps fr).1.length (h.written.append hcarries) rfl (by rw [h.out, chainBytes_append]) (by
      intro fs hfs
      rcases mem_append.1 hfs with hfs | hfs
      · exact h.fits fs hfs
      · exact hfits fs hfs) hlast
  rw [chainEnd_append] at hdump
  refine ⟨_, _, _, _, ?_, hinv, (Grown.deal ps fr).trans hgrown, by simp⟩
  rw [append, bind_some]
  dsimp only
  rw [hdump, hblocks]
  rfl

/-- A record is appended. -/
theorem Recording.Inv.append (hp : p.Admitted) (h : s.Inv p (p.reader inflate) frs blks ps) (data : Bytes) :
    ∃ s' frs' blks' ps', s.append p data (appendLoop p (data.length + 1) true data s.writer) = some s' ∧
      s'.Inv p (p.reader inflate) frs' blks' ps' ∧ Grown frs blks ps frs' blks' ps' ∧
      s'.extents.map Extent.record = s.extents.map Extent.record ++ [data] := by
  have hroom := hp.room
  have hcontent := h.content
  obtain ⟨y, hy⟩ := @appendLoop_writerAt p ps (chainEnd (p.reader inflate) 0 blks) inflate hp _ true data
    (show kBlockTrailerEnd + kRecordHeaderSize + (contentBytes ps).length < p.block_size_ by omega)
    (Nat.lt_succ_self data.length)
  rw [← h.writer] at hy
  rw [hy]
  exact h.append_of_loop hp.size data hy

/-- The block under way is finished, into which its pieces fit. -/
theorem Recording.Inv.finalize_of_fits (hfits : Fits (p.reader inflate) ps)
    (h : s.Inv p (p.reader inflate) frs blks ps) :
    ∃ s' blks', s.step p .finalize = some s' ∧ s'.Inv p (p.reader inflate) frs blks' [] ∧
      Grown frs blks ps frs blks' [] ∧ s'.extents = s.extents := by
  rw [step, h.writer]
  by_cases hps : ps = []
  · subst hps
    refine ⟨s, blks, ?_, h, .refl, rfl⟩
    rw [finalizeContent_nil, map_some]
    simp only [append_nil, ← h.writer]
  · set last := chainEnd (p.reader inflate) 0 blks with hlast
    refine ⟨{ s with
      writer := writerAt [] (blockCrc (p.reader inflate) last ps)
      out := s.out ++ blockBytes (p.reader inflate) last ps }, blks ++ [ps], ?_, {
      written := h.written.dump
      writer := ?_
      out := ?_
      fits := ?_
      content := Nat.zero_le _ }, .dump, rfl⟩
    · rw [finalizeContent_writerAt inflate hps hfits, map_some]
    · simp [chainEnd_append, chainEnd, hlast]
    · rw [chainBytes_append, h.out]
      simp [chainBytes, chain, Stored.bytes, hlast]
    · intro gs hgs
      rcases mem_append.1 hgs with hgs | hgs
      · exact h.fits gs hgs
      · rw [mem_singleton] at hgs
        exact hgs ▸ hfits

/-- The block under way is finished. -/
theorem Recording.Inv.finalize (hp : p.Admitted) (h : s.Inv p (p.reader inflate) frs blks ps) :
    ∃ s' blks', s.step p .finalize = some s' ∧ s'.Inv p (p.reader inflate) frs blks' [] ∧
      Grown frs blks ps frs blks' [] ∧ s'.extents = s.extents := by
  have hroom := hp.room
  have hcontent := h.content
  exact h.finalize_of_fits ⟨hp.size, show (contentBytes ps).length + kBlockTrailerEnd ≤ p.block_size_ by omega⟩

/-- A call keeps the invariant. -/
theorem Recording.Inv.step (hp : p.Admitted) (hplain : p.deflate = none)
    (h : s.Inv p (p.reader inflate) frs blks ps) {call : WriterCall} (hcall : call.Proper) :
    ∃ s' frs' blks' ps', s.step p call = some s' ∧ s'.Inv p (p.reader inflate) frs' blks' ps' ∧
      Grown frs blks ps frs' blks' ps' ∧ s'.extents.map Extent.record = s.extents.map Extent.record ++ call.record := by
  cases call with
  | buffer data =>
    rw [Recording.step, bufferLoop, hplain]
    exact h.append hp data
  | stream data =>
    rw [Recording.step, recordLoop, hplain]
    rw [streamLoop, if_neg hcall]
    exact h.append hp data
  | finalize =>
    obtain ⟨s', blks', hstep, hinv, hgrown, hextents⟩ := h.finalize hp
    exact ⟨s', frs, blks', [], hstep, hinv, hgrown, by rw [hextents, WriterCall.record, List.append_nil]⟩

/-- A record is appended and the block under way finished: the last block has the end of the record. -/
theorem Recording.Inv.finish (hp : p.Admitted) (hplain : p.deflate = none)
    (h : s.Inv p (p.reader inflate) frs blks ps) (data : Bytes) :
    ∃ s₁ s₂ es frs' blks' last, s.step p (.buffer data) = some s₁ ∧ s₁.step p .finalize = some s₂ ∧
      Written es frs' blks' last ∧ last ≠ [] ∧ (∀ fs ∈ blks' ++ [last], Fits (p.reader inflate) fs) ∧
      s₂.out = chainBytes (p.reader inflate) 0 (blks' ++ [last]) ∧
      es.map Extent.record = s.extents.map Extent.record ++ [data] := by
  have hroom := hp.room
  have hcontent := h.content
  obtain ⟨y, hy⟩ := @appendLoop_writerAt p ps (chainEnd (p.reader inflate) 0 blks) inflate hp _ true data
    (show kBlockTrailerEnd + kRecordHeaderSize + (contentBytes ps).length < p.block_size_ by omega)
    (Nat.lt_succ_self data.length)
  obtain ⟨fr, hcarries, hfits, hlast, rfl⟩ := appendLoop_eq_some inflate hp.size hy
  have hne : (deal ps fr).2 ≠ [] := deal_ne_nil ps hcarries.ne_nil
  set blks' := blks ++ (deal ps fr).1 with hblks
  have hall : ∀ fs ∈ blks' ++ [(deal ps fr).2], Fits (p.reader inflate) fs := by
    intro fs hfs
    rw [hblks, List.append_assoc] at hfs
    rcases List.mem_append.1 hfs with hmem | hmem
    · exact h.fits fs hmem
    · rcases List.mem_append.1 hmem with hmem | hmem
      · exact hfits fs hmem
      · exact List.mem_singleton.1 hmem ▸ hlast
  have hout : s.out ++ (chainBytes (p.reader inflate) (chainEnd (p.reader inflate) 0 blks) (deal ps fr).1 ++
      blockBytes (p.reader inflate) (chainEnd (p.reader inflate) 0 blks') (deal ps fr).2) =
        chainBytes (p.reader inflate) 0 (blks' ++ [(deal ps fr).2]) := by
    rw [hblks, chainBytes_append, chainBytes_append, ← h.out, List.append_assoc, chainBytes, chainBytes]
    simp [chain, Stored.bytes]
  have hfinal : finalizeContent p (writerAt (deal ps fr).2 (chainEnd (p.reader inflate) 0 blks')) =
      some (blockBytes (p.reader inflate) (chainEnd (p.reader inflate) 0 blks') (deal ps fr).2,
        writerAt [] (blockCrc (p.reader inflate) (chainEnd (p.reader inflate) 0 blks') (deal ps fr).2)) :=
    finalizeContent_writerAt inflate hne hlast
  have hloop : bufferLoop p data s.writer = some (chainBytes (p.reader inflate) (chainEnd (p.reader inflate) 0 blks)
      (deal ps fr).1, (deal ps fr).1.length, writerAt (deal ps fr).2 (chainEnd (p.reader inflate) 0 blks')) := by
    rw [bufferLoop, hplain, h.writer, hblks, chainEnd_append]
    exact hy
  set last := (deal ps fr).2
  set prev := chainEnd (p.reader inflate) 0 blks'
  set out := chainBytes (p.reader inflate) (chainEnd (p.reader inflate) 0 blks) (deal ps fr).1
  set block := blockBytes (p.reader inflate) prev last
  let n := s.out.length / p.block_size_
  let es := s.extents ++ [⟨data, n, n + (deal ps fr).1.length⟩]
  have hwritten := h.written.append hcarries
  -- The block is put out behind the record, or by the call that finishes it.
  by_cases hdump : p.dumpable_size_ < (contentBytes last).length
  · have hstep₁ : s.step p (.buffer data) =
        some ⟨writerAt [] (blockCrc (p.reader inflate) prev last), s.out ++ (out ++ block), es⟩ := by
      rw [Recording.step, Recording.append, hloop, Option.bind_some]
      dsimp only
      rw [RecordWriter.maybeDump, content_writerAt, if_pos hdump, hfinal, Option.map_some, Option.map_some]
    refine ⟨_, ⟨writerAt [] (blockCrc (p.reader inflate) prev last), s.out ++ (out ++ block) ++ [], es⟩, _, _, _, _,
      hstep₁, ?_, hwritten, hne, hall,
      (List.append_nil _).trans hout, by simp⟩
    rw [Recording.step, finalizeContent_nil, Option.map_some]
  · have hstep₁ : s.step p (.buffer data) = some ⟨writerAt last prev, s.out ++ out, es⟩ := by
      rw [Recording.step, Recording.append, hloop, Option.bind_some]
      dsimp only
      rw [RecordWriter.maybeDump, content_writerAt, if_neg hdump, Option.map_some]
    refine ⟨_, ⟨writerAt [] (blockCrc (p.reader inflate) prev last), s.out ++ out ++ block, es⟩, _, _, _, _, hstep₁, ?_,
      hwritten, hne, hall, (List.append_assoc _ _ _).trans hout, by simp⟩
    rw [Recording.step, hfinal, Option.map_some]

variable {calls : List WriterCall}

/-- No run is aborted, and all records are in the blocks. -/
theorem Recording.Inv.run (hp : p.Admitted) (hplain : p.deflate = none) (h : s.Inv p (p.reader inflate) frs blks ps) (hcalls : ∀ call ∈ calls, call.Proper) :
    ∃ s' frs' blks' ps', Library.run (Recording.step p) s calls = some s' ∧ s'.Inv p (p.reader inflate) frs' blks' ps' ∧
      Grown frs blks ps frs' blks' ps' ∧
      s'.extents.map Extent.record = s.extents.map Extent.record ++ calls.flatMap WriterCall.record := by
  induction calls generalizing s frs blks ps with
  | nil => exact ⟨s, frs, blks, ps, rfl, h, .refl, by simp⟩
  | cons call calls ih =>
    obtain ⟨s₁, _, _, _, hstep, hinv₁, hgrown₁, hrecords₁⟩ := h.step hp hplain (hcalls call mem_cons_self)
    obtain ⟨s₂, frs₂, blks₂, ps₂, hrun, hinv₂, hgrown₂, hrecords₂⟩ :=
      ih hinv₁ fun c hc => hcalls c (mem_cons_of_mem _ hc)
    refine ⟨s₂, frs₂, blks₂, ps₂, run_cons_eq_some.2 ⟨s₁, hstep, hrun⟩, hinv₂, hgrown₁.trans hgrown₂, ?_⟩
    rw [hrecords₂, hrecords₁, flatMap_cons, append_assoc]

theorem record_eq (hp : p.Admitted) (calls : List WriterCall) :
    record p calls = Library.run (Recording.step p) {} calls := by
  rw [record, new, if_pos hp.size, bind_some]

theorem run_written (hp : p.Admitted) (hplain : p.deflate = none) (inflate : Bytes → Bool × Bytes) (hcalls : ∀ call ∈ calls, call.Proper) :
    ∃ s frs blks ps, record p calls = some s ∧ s.Inv p (p.reader inflate) frs blks ps ∧
      s.extents.map Extent.record = calls.flatMap WriterCall.record := by
  obtain ⟨s, frs, blks, ps, hrun, hinv, -, hrecords⟩ :=
    (inv_init : Inv p (p.reader inflate) {} [] [] []).run hp hplain hcalls
  exact ⟨s, frs, blks, ps, (record_eq hp calls).trans hrun, hinv, by simpa using hrecords⟩

/-- A run that ends with `FinalizeContent`. -/
theorem run_finalized (hp : p.Admitted) (hplain : p.deflate = none) (inflate : Bytes → Bool × Bytes) (hcalls : ∀ call ∈ calls, call.Proper) :
    ∃ s frs blks, record p (calls ++ [.finalize]) = some s ∧ s.Inv p (p.reader inflate) frs blks [] ∧
      s.extents.map Extent.record = calls.flatMap WriterCall.record := by
  obtain ⟨s, frs, blks, _, hrun, hinv, hrecords⟩ := run_written hp hplain inflate hcalls
  obtain ⟨s', blks', hstep, hinv', -, hextents⟩ := hinv.finalize hp
  refine ⟨s', frs, blks', ?_, hinv', by rw [hextents, hrecords]⟩
  rw [record_eq hp] at hrun ⊢
  rw [run_append hrun, run_cons, hstep]
  rfl

end Whispercast.Logio
