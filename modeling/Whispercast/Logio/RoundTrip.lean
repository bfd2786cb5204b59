import Whispercast.Logio.Writing

/-!
# Records are read back

What a `RecordWriter` has written is read back by a `RecordReader` however it arrives. A writer that compresses does
not mark its records as compressed, so that the reader gives the compressed records.
-/

namespace Whispercast.Logio

open Io Library RecordReader List Option RecordWriter WriterCall

section

variable {p : WriterParams} {inflate : Bytes → Bool × Bytes} {s : Recording} {frs blks : List (List Piece)}
  {ps : List Piece}

theorem Written.carries {es : List Extent} (h : Written es frs blks ps) :
    List.Forall₂ (Carries true) (es.map Extent.record) frs := by
  have hholds := h.holds
  rw [forall₂_map_left_iff]
  exact hholds

/-- A finished output is read as the records. -/
theorem Recording.Inv.feed (hp : p.Admitted) (h : s.Inv p (p.reader inflate) frs blks []) {pieces : List Bytes}
    (hpieces : pieces.flatten = s.out) :
    RecordReader.feed (p.reader inflate) pieces {} [] =
      some ((s.extents.map Extent.record).map fun data => (ReadResult.ok, data)) := by
  have hpos : 0 < (p.reader inflate).block_size_ := Nat.lt_of_le_of_lt (Nat.zero_le _) hp.room
  have hflatten := h.written.flatten
  rw [append_nil] at hflatten
  have hread := @feed_all (p.reader inflate) {} (chain (p.reader inflate) 0 blks) 0 [] (chain_ok h.fits) hpos pieces []
    hpos (by rw [nil_append, append_nil, hpieces, h.out, chainBytes])
  rw [readAll_chain (fun hbroken => hbroken.1 rfl), hflatten, Assembler.assemble_messages h.written.carries] at hread
  rw [show ({} : RecordReader) = between {} 0 from rfl, hread]
  simp [resultsOf, resultOf, Function.comp_def]

/-- Every record that was appended is read back, in order and without an error. -/
theorem records_round_trip (p : WriterParams) (hp : p.Admitted) (hplain : p.deflate = none)
    (inflate : Bytes → Bool × Bytes) (calls : List WriterCall) (hcalls : ∀ call ∈ calls, call.Proper) :
    ∃ s, record p (calls ++ [.finalize]) = some s ∧ p.block_size_ ∣ s.out.length ∧ s.writer.content_ = [] ∧
      ∀ pieces : List Bytes, pieces.flatten = s.out →
        RecordReader.feed (p.reader inflate) pieces {} [] =
          some ((calls.flatMap WriterCall.record).map fun data => (ReadResult.ok, data)) := by
  obtain ⟨s, _, _, hrun, hinv, hrecords⟩ := run_finalized hp hplain inflate hcalls
  refine ⟨s, hrun, ?_, by rw [hinv.writer]; rfl, ?_⟩
  · rw [hinv.out, length_chainBytes hinv.fits]
    exact Dvd.intro_left _ rfl
  · intro pieces hpieces
    rw [hinv.feed hp hpieces, hrecords]

end

/-! ## Samples -/

/-- One byte for zlib's `crc32`. -/
def crc32Byte (crc : UInt32) (b : UInt8) : UInt32 :=
  (List.range 8).foldl (fun crc _ => if crc &&& 1 = 1 then (crc >>> 1) ^^^ 0xEDB88320 else crc >>> 1) (crc ^^^ b.toUInt32)

/-- zlib's `crc32`. -/
def crc32 (s : Bytes) : Int32 := (s.foldl crc32Byte 0xFFFFFFFF ^^^ 0xFFFFFFFF).toInt32

example : crc32 [49, 50, 51, 52, 53, 54, 55, 56, 57] = (0xCBF43926 : UInt32).toInt32 := by decide +kernel

/-- Blocks of 40 bytes. -/
def smallBlocks (deflate : Option (Bytes → Bytes)) : WriterParams where
  block_size_ := 40
  dumpable_size_ := 20
  computeCRC := crc32
  deflate := deflate

theorem smallBlocks_admitted (deflate : Option (Bytes → Bytes)) : (smallBlocks deflate).Admitted where
  size := show 40 < kMaximumRecordBlockSize by decide
  room := show kRecordHeaderSize + 20 + kBlockTrailerEnd < 40 by decide

/-- An inflation that fails, where no record is compressed. -/
def noInflate (_ : Bytes) : Bool × Bytes := (false, [])

/-- An empty record, and one of two blocks. -/
def sampleCalls : List WriterCall := [.buffer [], .finalize, .stream (List.replicate 30 7)]

theorem records_round_trip_small :
    ∃ s, record (smallBlocks none) (sampleCalls ++ [.finalize]) = some s ∧ 40 ∣ s.out.length ∧
      s.writer.content_ = [] ∧ ∀ pieces : List Bytes, pieces.flatten = s.out →
        RecordReader.feed ((smallBlocks none).reader noInflate) pieces {} [] =
          some [(.ok, []), (.ok, List.replicate 30 7)] :=
  records_round_trip (smallBlocks none) (smallBlocks_admitted none) rfl noInflate sampleCalls (by decide)

/-! ## Compressed records -/

section Compressed

variable {p : WriterParams} {deflate : Bytes → Bytes} {s t : Recording}

/-- The writer without compression. -/
def WriterParams.plain (p : WriterParams) : WriterParams := { p with deflate := none }

/-- The calls without compression that write the same. An empty stream writes nothing. -/
def WriterCall.compressed (deflate : Bytes → Bytes) : WriterCall → List WriterCall
  | .buffer data => if deflate data = [] then [] else [.stream (deflate data)]
  | .stream data => if deflate data = [] then [] else [.stream (deflate data)]
  | .finalize => [.finalize]

/-- Two recordings put out the same, and go on so. -/
structure Recording.Same (p : WriterParams) (s t : Recording) : Prop where
  writer : s.writer = t.writer
  out : s.out = t.out
  content : s.writer.content_.length ≤ p.dumpable_size_

/-- The loop does not look at the compression. -/
theorem appendLoop_plain (n : Nat) (first : Bool) (data : Bytes) (w : RecordWriter) :
    RecordWriter.appendLoop p.plain n first data w = RecordWriter.appendLoop p n first data w := by
  induction n generalizing first data w with
  | zero => rfl
  | succ n ih =>
    simp only [appendLoop, ih]
    rfl

theorem content_finalizeContent {w w' : RecordWriter} {block : Bytes}
    (h : RecordWriter.finalizeContent p w = some (block, w')) : w'.content_ = [] := by
  rw [finalizeContent] at h
  split_ifs at h with hnil
  · cases h
    exact hnil
  · cases h
    rfl

/-- A block that is large enough has been finished. -/
theorem content_maybeDump {w w' : RecordWriter} {out out' : Bytes} {count : Nat} {dumped : Bool}
    (h : RecordWriter.maybeDump p (out, count, w) = some (dumped, out', w')) :
    w'.content_.length ≤ p.dumpable_size_ := by
  rw [maybeDump] at h
  split_ifs at h with hdump
  · obtain ⟨⟨_, _⟩, hfin, heq⟩ := map_eq_some_iff.1 h
    cases heq
    rw [content_finalizeContent hfin]
    exact Nat.zero_le _
  · cases h
    exact Nat.not_lt.1 hdump

theorem Recording.Same.append (h : s.Same p t) {data data' : Bytes} {loop : Option (Bytes × Nat × RecordWriter)}
    {t' : Recording} (ht : t.append p.plain data' loop = some t') :
    ∃ s', s.append p data loop = some s' ∧ s'.Same p t' := by
  obtain ⟨⟨out, count, w⟩, rfl, ht⟩ := bind_eq_some_iff.1 ht
  obtain ⟨⟨dumped, out', w'⟩, hdump, rfl⟩ := map_eq_some_iff.1 ht
  have hdump : maybeDump p (out, count, w) = some (dumped, out', w') := hdump
  refine ⟨⟨w', s.out ++ out', s.extents ++ [⟨data, s.out.length / p.block_size_, s.out.length / p.block_size_ + count⟩]⟩,
    ?_, rfl, congrArg (· ++ out') h.out, content_maybeDump hdump⟩
  simp only [Recording.append, bind_some, hdump, map_some]

/-- A writer that compresses puts out what one that does not puts out for the compressed records. -/
theorem Recording.Same.step (hz : p.deflate = some deflate) (h : s.Same p t) (call : WriterCall) {t' : Recording}
    (ht : run (Recording.step p.plain) t (call.compressed deflate) = some t') :
    ∃ s', s.step p call = some s' ∧ s'.Same p t' := by
  have hone : ∀ data : Bytes,
      run (Recording.step p.plain) t (if deflate data = [] then [] else [.stream (deflate data)]) = some t' →
      ∃ s', s.append p data (streamLoop p (deflate data) s.writer) = some s' ∧ s'.Same p t' := by
    intro data ht
    by_cases hnil : deflate data = []
    · -- Nothing is written, and the block under way is not large enough to be finished.
      rw [if_pos hnil] at ht
      cases ht
      have hcontent : ¬ p.dumpable_size_ < s.writer.content_.length := Nat.not_lt.2 h.content
      refine ⟨⟨s.writer, s.out ++ [], s.extents ++
        [⟨data, s.out.length / p.block_size_, s.out.length / p.block_size_ + 0⟩]⟩, ?_, h.writer,
        (append_nil _).trans h.out, h.content⟩
      simp only [streamLoop, hnil, if_true, Recording.append, bind_some, maybeDump,
        hcontent, if_false, map_some]
    · rw [if_neg hnil, run_cons_eq_some] at ht
      obtain ⟨t₁, ht₁, hrun⟩ := ht
      cases hrun
      have hloop : streamLoop p (deflate data) s.writer =
          recordLoop p.plain (deflate data) t.writer := by
        rw [h.writer, recordLoop, streamLoop, ← appendLoop_plain]
        rfl
      rw [hloop]
      exact h.append ht₁
  cases call with
  | buffer data =>
    rw [Recording.step, bufferLoop, hz]
    exact hone data ht
  | stream data =>
    rw [Recording.step, recordLoop, hz]
    exact hone data ht
  | finalize =>
    obtain ⟨t₁, ht₁, hrun⟩ := run_cons_eq_some.1 ht
    cases hrun
    obtain ⟨⟨block, w⟩, hfin, rfl⟩ := map_eq_some_iff.1 ht₁
    have hfin : finalizeContent p s.writer = some (block, w) := by
      rw [h.writer]
      exact hfin
    refine ⟨{ s with writer := w, out := s.out ++ block }, ?_, rfl, congrArg (· ++ block) h.out, ?_⟩
    · rw [Recording.step, hfin, map_some]
    · rw [content_finalizeContent hfin]
      exact Nat.zero_le _

theorem Recording.Same.run (hz : p.deflate = some deflate) (h : s.Same p t) {calls : List WriterCall} {t' : Recording}
    (ht : Library.run (Recording.step p.plain) t (calls.flatMap (WriterCall.compressed deflate)) = some t') :
    ∃ s', Library.run (Recording.step p) s calls = some s' ∧ s'.Same p t' := by
  induction calls generalizing s t with
  | nil =>
    cases ht
    exact ⟨s, rfl, h⟩
  | cons call calls ih =>
    rw [flatMap_cons, run_append_eq_some] at ht
    obtain ⟨_, ht₁, ht⟩ := ht
    obtain ⟨s₁, hs₁, h₁⟩ := h.step hz call ht₁
    obtain ⟨s', hs', h'⟩ := ih h₁ ht
    exact ⟨s', run_cons_eq_some.2 ⟨s₁, hs₁, hs'⟩, h'⟩

theorem WriterCall.compressed_proper (deflate : Bytes → Bytes) (calls : List WriterCall) :
    ∀ call ∈ calls.flatMap (WriterCall.compressed deflate), call.Proper := by
  intro call hcall
  obtain ⟨c, -, hc⟩ := mem_flatMap.1 hcall
  cases c with
  | finalize =>
    rw [compressed, mem_singleton] at hc
    rw [hc]
    trivial
  | buffer data | stream data =>
    rw [compressed] at hc
    split_ifs at hc with hnil
    · cases hc
    · rw [mem_singleton] at hc
      rw [hc]
      exact hnil

/-- The compressed records, but for those that are empty. -/
theorem WriterCall.record_compressed (deflate : Bytes → Bytes) (calls : List WriterCall) :
    (calls.flatMap (WriterCall.compressed deflate)).flatMap WriterCall.record =
      ((calls.flatMap WriterCall.record).map deflate).filter fun data => data ≠ [] := by
  induction calls with
  | nil => rfl
  | cons call calls ih =>
    rw [flatMap_cons, flatMap_append, ih, flatMap_cons, map_append, filter_append]
    congr 1
    cases call with
    | finalize => rfl
    | buffer data | stream data =>
      by_cases hnil : deflate data = [] <;> simp [compressed, record, hnil]

/-- Compression leaves a list of records as it is only when it leaves each of them as it is. -/
theorem filter_map_eq_self (f : Bytes → Bytes) (l : List Bytes) :
    (l.map f).filter (fun data => data ≠ []) = l ↔ ∀ data ∈ l, f data = data ∧ data ≠ [] := by
  induction l with
  | nil => simp
  | cons data l ih =>
    by_cases hnil : f data = []
    · have hlen : ((l.map f).filter fun data => data ≠ []).length ≤ l.length :=
        (length_filter_le _ _).trans (length_map f).le
      refine iff_of_false ?_ ?_
      · intro heq
        rw [map_cons, filter_cons_of_neg (by simp [hnil])] at heq
        rw [heq, length_cons] at hlen
        omega
      · intro hall
        obtain ⟨heq, hne⟩ := hall data mem_cons_self
        exact hne (heq ▸ hnil)
    · rw [map_cons, filter_cons_of_pos (by simp [hnil]), List.cons.injEq, ih, forall_mem_cons]
      constructor
      · exact fun h => ⟨⟨h.1, h.1 ▸ hnil⟩, h.2⟩
      · exact fun h => ⟨h.1.1, h.2⟩

/-- A writer that compresses does not mark its records, and the reader gives them as they are. -/
theorem deflated_records (hp : p.Admitted) (hz : p.deflate = some deflate) (inflate : Bytes → Bool × Bytes)
    (calls : List WriterCall) :
    ∃ s, record p (calls ++ [.finalize]) = some s ∧ ∀ pieces : List Bytes, pieces.flatten = s.out →
      RecordReader.feed (p.reader inflate) pieces {} [] =
        some ((((calls.flatMap WriterCall.record).map deflate).filter fun data => data ≠ []).map
          fun data => (ReadResult.ok, data)) := by
  have hplain : p.plain.Admitted := ⟨hp.size, hp.room⟩
  obtain ⟨t, _, _, hrun, hinv, hrecords⟩ :=
    run_finalized hplain rfl inflate (compressed_proper deflate calls)
  rw [record, new, if_pos hplain.size, bind_some,
    show calls.flatMap (compressed deflate) ++ [finalize] =
      (calls ++ [finalize]).flatMap (compressed deflate) by simp [compressed]] at hrun
  have hsame : Recording.Same p {} {} := ⟨rfl, rfl, Nat.zero_le _⟩
  obtain ⟨s, hs, h⟩ := hsame.run hz hrun
  refine ⟨s, ?_, ?_⟩
  · rw [record, new, if_pos hp.size, bind_some]
    exact hs
  · intro pieces hpieces
    rw [h.out] at hpieces
    rw [← record_compressed, ← hrecords]
    exact hinv.feed hplain hpieces

/-- Records that were appended to a writer that compresses are read back when compression leaves each of them as it
is, and only then. -/
theorem deflated_round_trip_iff (p : WriterParams) (hp : p.Admitted) (deflate : Bytes → Bytes)
    (hz : p.deflate = some deflate) (inflate : Bytes → Bool × Bytes) (calls : List WriterCall) :
    (∃ s, record p (calls ++ [.finalize]) = some s ∧ ∀ pieces : List Bytes, pieces.flatten = s.out →
      RecordReader.feed (p.reader inflate) pieces {} [] =
        some ((calls.flatMap WriterCall.record).map fun data => (ReadResult.ok, data))) ↔
      ∀ data ∈ calls.flatMap WriterCall.record, deflate data = data ∧ data ≠ [] := by
  obtain ⟨s, hs, hfeed⟩ := deflated_records hp hz inflate calls
  rw [← filter_map_eq_self]
  constructor
  · rintro ⟨t, ht, hback⟩
    obtain rfl : s = t := Option.some.inj (hs.symm.trans ht)
    have hsame := (hfeed [s.out] (by simp)).symm.trans (hback [s.out] (by simp))
    exact map_injective_iff.2 (Prod.mk_right_injective _) (Option.some.inj hsame)
  · intro heq
    refine ⟨s, hs, fun pieces hpieces => ?_⟩
    rw [hfeed pieces hpieces, heq]

end Compressed

/-- A compression that does with the byte `a` what zlib does. -/
def deflateA (data : Bytes) : Bytes := if data = [97] then [0x4b, 0x04, 0x00] else 0x01 :: data

/-- Its inverse. -/
def inflateA (data : Bytes) : Bool × Bytes := if data = [0x4b, 0x04, 0x00] then (true, [97]) else (true, data.drop 1)

theorem inflateA_deflateA (data : Bytes) : inflateA (deflateA data) = (true, data) := by
  unfold deflateA
  split_ifs with ha
  · rw [ha]
    rfl
  · simp [inflateA]

theorem deflated_round_trip_a :
    (∃ s, record (smallBlocks (some deflateA)) ([.buffer [97]] ++ [.finalize]) = some s ∧
      ∀ pieces : List Bytes, pieces.flatten = s.out →
        RecordReader.feed ((smallBlocks (some deflateA)).reader inflateA) pieces {} [] = some [(.ok, [97])]) ↔
      ∀ data ∈ [[97]], deflateA data = data ∧ data ≠ [] :=
  deflated_round_trip_iff (smallBlocks (some deflateA)) (smallBlocks_admitted _) deflateA rfl inflateA [.buffer [97]]

/-- The record `a` comes back compressed, though it can be inflated. -/
theorem deflated_a_not_inflated : (∀ data, inflateA (deflateA data) = (true, data)) ∧
      ∃ s, record (smallBlocks (some deflateA)) [.buffer [97], .finalize] = some s ∧
        RecordReader.feed ((smallBlocks (some deflateA)).reader inflateA) [s.out] {} [] =
          some [(.ok, [0x4b, 0x04, 0x00])] := by
  refine ⟨inflateA_deflateA, ?_⟩
  obtain ⟨s, hs, hfeed⟩ := deflated_records (smallBlocks_admitted (some deflateA)) rfl inflateA [.buffer [97]]
  exact ⟨s, hs, hfeed [s.out] (by simp)⟩

end Whispercast.Logio
