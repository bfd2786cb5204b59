import Whispercast.Checkpoint.FileRoundTrip
import Whispercast.Logio.Damage

/-!
# Torn checkpoint files

What `ReadCheckpointFile` accepts. A file that is cut off, at any byte, has not the record of the end, so the last name
that is read from it is a key; a file with a damaged block is read up to that block. `ReadCheckpoint` passes over both.
-/

namespace Whispercast.Checkpoint

open Io Library Logio RecordReader CheckpointScan CheckpointWriter List

variable {crc : Bytes → Int32}

/-- A map that can be written: no key is the mark of the end, and the sizes are `int32`s. -/
structure Storable (m : StateMap) : Prop where
  sorted : m.Sorted
  keys : ∀ e ∈ m, e.1 ≠ kCheckpointEnd
  sizes : ∀ e ∈ m, e.1.length < 2 ^ 31 ∧ e.2.length < 2 ^ 31

/-- The files of a directory, in the order of their numbers. -/
def Numbered (files : CheckpointFiles) : Prop := (files.map Prod.fst).Pairwise (· < ·)

/-- A file that `CheckpointWriter` has written for the map. -/
def IsCheckpoint (crc : Bytes → Int32) (m : StateMap) (content : Bytes) : Prop :=
  ∃ files, Numbered files ∧
    writeCheckpointFile crc files m = some (true, files ++ [(CheckpointWriter.nextNumber files, content)])

/-- What is left of a checkpoint file that was cut off, or one of whose blocks was damaged. -/
inductive Torn (crc : Bytes → Int32) : Bytes → Prop where
  | cut {m : StateMap} {content part : Bytes} (hm : Storable m) (h : IsCheckpoint crc m content)
      (hpart : part <+: content) (hne : part ≠ content) : Torn crc part
  | damaged {m : StateMap} {content b : Bytes} {i : Nat} (hm : Storable m) (h : IsCheckpoint crc m content)
      (hi : i * kDefaultCheckpointBlockSize < content.length) (hb : Damaged (readerParams crc) b) :
      Torn crc (damage kDefaultCheckpointBlockSize i b content)

/-! ## Some of the records -/

namespace CheckpointScan

theorem takeRecords_begin (recs : List Bytes) :
    takeRecords {} (kCheckpointBegin :: recs) = takeRecords ⟨[], true, [], false⟩ recs := by
  rw [takeRecords, foldlM_cons]
  simp [takeRecord, takeRecords]

/-- Some of the records of the entries: the last name is a key, or still the one from before. -/
theorem takeRecords_some_entries {m : StateMap} (hkeys : ∀ e ∈ m, e.1 ≠ kCheckpointEnd) {recs : List Bytes}
    (h : recs <+: entryRecords m) (acc : StateMap) {name : Bytes} (hname : name ≠ kCheckpointEnd) :
    ∃ s, takeRecords ⟨acc, true, name, false⟩ recs = some s ∧ s.name ≠ kCheckpointEnd := by
  induction m generalizing recs acc name with
  | nil =>
    obtain rfl : recs = [] := prefix_nil.1 h
    exact ⟨_, rfl, hname⟩
  | cons e m ih =>
    have hkey := hkeys e mem_cons_self
    cases recs with
    | nil => exact ⟨_, rfl, hname⟩
    | cons r recs =>
      have hcons : entryRecords (e :: m) = e.1 :: e.2 :: entryRecords m := rfl
      rw [hcons, cons_prefix_cons] at h
      obtain ⟨rfl, h⟩ := h
      cases recs with
      | nil => exact ⟨_, rfl, hkey⟩
      | cons r recs =>
        obtain ⟨rfl, hrest⟩ := cons_prefix_cons.1 h
        exact ih (fun e' he' => hkeys e' (mem_cons_of_mem _ he')) hrest (acc.insert e.1 e.2) hkey

/-- The records of a checkpoint but for some at its end. -/
theorem takeRecords_cut {m : StateMap} (hkeys : ∀ e ∈ m, e.1 ≠ kCheckpointEnd) {recs : List Bytes}
    (h : recs <+: kCheckpointBegin :: (entryRecords m ++ [kCheckpointEnd]))
    (hne : recs ≠ kCheckpointBegin :: (entryRecords m ++ [kCheckpointEnd])) :
    ∃ s, takeRecords {} recs = some s ∧ s.name ≠ kCheckpointEnd := by
  cases recs with
  | nil => exact ⟨{}, rfl, show ([] : Bytes) ≠ kCheckpointEnd by decide⟩
  | cons r recs =>
    obtain ⟨rfl, hrest⟩ := cons_prefix_cons.1 h
    rw [takeRecords_begin]
    refine takeRecords_some_entries hkeys ?_ [] (show ([] : Bytes) ≠ kCheckpointEnd by decide)
    rcases prefix_concat_iff.1 hrest with heq | hentries
    · exact absurd (congrArg _ heq) hne
    · exact hentries

end CheckpointScan

/-! ## Some of the blocks -/

section Blocks

variable {q : ReaderParams} {es : List Extent} {frs blks : List (List Piece)} {last : List Piece} {n : Nat}

/-- From some of the blocks some of the records are read, but not the last one. -/
theorem readAll_cut (h : Written es frs blks last) (hlast : last ≠ []) (hn : n ≤ blks.length) :
    ∃ recs, recs <+: es.map Extent.record ∧ recs ≠ es.map Extent.record ∧
      (readAll q {} 0 (chain q 0 ((blks ++ [last]).take n))).1 = recs.map fun data => (ReadResult.ok, data) := by
  have hflatten := h.flatten
  have hcut := h.cutAt hn
  rw [take_append_of_le_length hn, readAll_chain (fun hbroken => hbroken.1 rfl)]
  generalize hbefore : (blks.take n).flatten = before at hcut
  cases hcut with
  | @between es₁ es₂ frs₁ frs₂ h₁ h₂ =>
    refine ⟨es₁.map Extent.record, by simp, ?_, ?_⟩
    · intro heq
      have hnil : es₂ = [] := by simpa using heq
      subst hnil
      obtain rfl : frs₂ = [] := forall₂_nil_left_iff.1 h₂
      have hlen := congrArg length hflatten
      have htake : (blks.take n).flatten.length + (blks.drop n).flatten.length = blks.flatten.length := by
        rw [← length_append, ← flatten_append, take_append_drop]
      have hpos := length_pos_of_ne_nil hlast
      rw [hbefore] at htake
      rw [length_append, append_nil] at hlen
      omega
    · rw [Assembler.assemble_messages (carries_records h₁)]
      simp [resultsOf, resultOf, Function.comp_def]
  | @inside es₁ es₂ frs₁ frs₂ e begun rest h₁ h₂ he hlast hfirst hbegun hrest hcut =>
    refine ⟨es₁.map Extent.record, by simp, by simp, ?_⟩
    obtain ⟨p, -, hopen⟩ := Assembler.assemble_begun he rfl hbegun hrest
    rw [Assembler.assemble_append, Assembler.assemble_messages (carries_records h₁), hopen]
    simp [resultsOf, resultOf, Function.comp_def]

theorem take_chain (h : n ≤ blks.length) : (chain q 0 blks).take n = chain q 0 (blks.take n) := by
  conv_lhs => rw [← take_append_drop n blks, chain_append]
  exact take_left' (by rw [length_chain, length_take_of_le h])

end Blocks

/-! ## Rejected files -/

section Rejected

variable {m : StateMap} {content part b : Bytes} {i : Nat}

/-- The records of a checkpoint. -/
def checkpointRecords (m : StateMap) : List Bytes :=
  kCheckpointBegin :: (CheckpointScan.entryRecords m ++ [kCheckpointEnd])

/-- The first blocks of a file, and what follows in the place of the others. -/
theorem readCheckpointFile_cut (hm : Storable m) {es : List Extent} {frs blks : List (List Piece)} {last : List Piece}
    (h : Written es frs blks last) (hlast : last ≠ []) (hfits : ∀ fs ∈ blks ++ [last], Fits (readerParams crc) fs)
    (hrecs : es.map Extent.record = checkpointRecords m) {n : Nat} (hn : n ≤ blks.length) (rest : Bytes) :
    ∃ k r s, r.content_ = [] ∧ s.name ≠ kCheckpointEnd ∧
      readCheckpointFile crc (chainBytes (readerParams crc) 0 ((blks ++ [last]).take n) ++ rest) =
        CheckpointScan.blockLoop (readerParams crc) (k + 1) r rest s := by
  obtain ⟨_, hcut, hne, hread⟩ := readAll_cut (q := readerParams crc) h hlast hn
  rw [hrecs] at hcut hne
  obtain ⟨s, htake, hname⟩ := takeRecords_cut hm.keys hcut hne
  have hfits' : ∀ fs ∈ (blks ++ [last]).take n, Fits (readerParams crc) fs :=
    fun fs hfs => hfits fs (mem_of_mem_take hfs)
  have hok : ∀ x ∈ (readAll (readerParams crc) {} 0 (chain (readerParams crc) 0 ((blks ++ [last]).take n))).1,
      x.1 = .ok := by
    intro x hx
    rw [hread] at hx
    obtain ⟨_, -, rfl⟩ := mem_map.1 hx
    rfl
  have htake' : takeRecords {}
      ((readAll (readerParams crc) {} 0 (chain (readerParams crc) 0 ((blks ++ [last]).take n))).1.map Prod.snd) =
        some s := by
    rw [hread, map_map]
    simpa [Function.comp_def] using htake
  have hle := length_chain_le hfits' (show 0 < kDefaultCheckpointBlockSize by decide)
  have hfuel : (chain (readerParams crc) 0 ((blks ++ [last]).take n)).length ≤
      (chainBytes (readerParams crc) 0 ((blks ++ [last]).take n) ++ rest).length := by
    rw [length_append]
    omega
  have hloop := blockLoop_append rfl (chain_ok hfits') hok htake' rest (Nat.le_succ_of_le hfuel)
  rw [Nat.succ_sub hfuel] at hloop
  exact ⟨_, _, s, rfl, hname, hloop⟩

/-- A file that is cut off is rejected. -/
theorem readCheckpointFile_prefix (hm : Storable m) (h : Finished (readerParams crc) content (checkpointRecords m))
    (hpart : part <+: content) (hne : part ≠ content) : ∃ got, readCheckpointFile crc part = some (false, got) := by
  obtain ⟨_, _, blks, last, hwritten, hlast, hfits, rfl, hrecs⟩ := h
  obtain ⟨y, hy⟩ := hpart
  have hsplit : part ++ y = (chain (readerParams crc) 0 (blks ++ [last])).flatMap (Stored.bytes (readerParams crc)) ++ [] := by
    rw [hy, append_nil]
    rfl
  obtain ⟨ss₁, ss₂, tail, hss, rfl, htail, hrest⟩ := split_blocks (chain_ok hfits)
    (show ([] : Bytes).length < (readerParams crc).block_size_ by show 0 < kDefaultCheckpointBlockSize; decide) hsplit
  have hlen := congrArg length hss
  rw [length_chain, length_append, length_append, length_singleton] at hlen
  have hn : ss₁.length ≤ blks.length := by
    by_contra hall
    -- All blocks would be there, and nothing could follow.
    have hnil : ss₂ = [] := length_eq_zero_iff.1 (by omega)
    subst hnil
    rw [append_nil] at hss
    rw [flatMap_nil, nil_append, append_eq_nil_iff] at hrest
    rw [hrest.1, append_nil, ← hss] at hne
    exact hne rfl
  have hfirst : ss₁ = chain (readerParams crc) 0 ((blks ++ [last]).take ss₁.length) := by
    rw [← take_chain (by rw [length_append]; omega), hss, take_left]
  obtain ⟨k, r, s, -, hname, hread⟩ := readCheckpointFile_cut hm hwritten hlast hfits hrecs hn tail
  have hbytes : ss₁.flatMap (Stored.bytes (readerParams crc)) =
      chainBytes (readerParams crc) 0 ((blks ++ [last]).take ss₁.length) := by
    conv_lhs => rw [hfirst]
    rfl
  rw [hbytes, hread, blockLoop]
  by_cases htailNil : tail = []
  · exact ⟨_, by rw [if_pos htailNil, decide_eq_false hname]⟩
  · exact ⟨_, by rw [if_neg htailNil, if_pos (show tail.length < kDefaultCheckpointBlockSize from htail)]⟩

/-- A file with a damaged block is rejected. -/
theorem readCheckpointFile_damage (hm : Storable m) (h : Finished (readerParams crc) content (checkpointRecords m))
    (hi : i * kDefaultCheckpointBlockSize < content.length) (hb : Damaged (readerParams crc) b) :
    ∃ got, readCheckpointFile crc (damage kDefaultCheckpointBlockSize i b content) = some (false, got) := by
  obtain ⟨_, _, blks, last, hwritten, hlast, hfits, rfl, hrecs⟩ := h
  have hblock : (readerParams crc).block_size_ = kDefaultCheckpointBlockSize := rfl
  rw [length_chainBytes hfits, hblock] at hi
  have hn : i < (blks ++ [last]).length := Nat.lt_of_mul_lt_mul_right hi
  have hle : i ≤ blks.length := by
    rw [length_append, length_singleton] at hn
    omega
  have hlen : b.length = kDefaultCheckpointBlockSize := hb.length
  obtain ⟨k, r, s, hr, -, hread⟩ := readCheckpointFile_cut hm hwritten hlast hfits hrecs hle
    (b ++ (chainBytes (readerParams crc) 0 (blks ++ [last])).drop ((i + 1) * kDefaultCheckpointBlockSize))
  have hcut : (chainBytes (readerParams crc) 0 (blks ++ [last])).take (i * kDefaultCheckpointBlockSize) =
      chainBytes (readerParams crc) 0 ((blks ++ [last]).take i) := (chainBytes_cut hfits hn.le).1
  have hreturns : RecordReader.readRecord (readerParams crc) true r (b ++ []) = some (.crcCorrupted, [], r, []) :=
    (Returns.damaged hb hr []).readRecord
  rw [append_nil] at hreturns
  rw [damage, hcut, hread, blockLoop, if_neg (by
    intro hnil
    rw [(append_eq_nil_iff.1 hnil).1] at hlen
    exact absurd hlen (by decide)), if_neg (by rw [length_append, hlen]; omega)]
  dsimp only
  rw [take_left' hlen, recordLoop, hreturns, Option.bind_some]
  exact ⟨_, rfl⟩

end Rejected

/-! ## The newest checkpoint -/

theorem numbered_lt_next {files : CheckpointFiles} (h : Numbered files) :
    ∀ f ∈ files, f.1 < CheckpointWriter.nextNumber files := by
  rcases eq_nil_or_concat files with rfl | ⟨_, last, rfl⟩
  · simp
  · rw [concat_eq_append] at h ⊢
    rw [Numbered, map_append, pairwise_append] at h
    intro f hf
    rw [nextNumber, getLast?_concat]
    show f.1 < last.1 + 1
    rcases mem_append.1 hf with hmem | hmem
    · have hlt := h.2.2 f.1 (mem_map_of_mem hmem) last.1 (by simp)
      omega
    · rw [mem_singleton.1 hmem]
      omega

variable {m : StateMap}

theorem insertAll_sorted (h : m.Sorted) : m.insertAll [] = m := by
  refine AssocList.eq_of_lookup ((show StateMap.Sorted [] from Pairwise.nil).insertAll m) h fun key => ?_
  rw [StateMap.lookup_insertAll, lookup_nil, Option.none_or]

/-- A map that can be written is written to a new file. -/
theorem writeCheckpointFile_eq (crc : Bytes → Int32) (hm : Storable m) {files : CheckpointFiles} (hfiles : Numbered files) :
    ∃ content, writeCheckpointFile crc files m =
        some (true, files ++ [(CheckpointWriter.nextNumber files, content)]) ∧
      Finished (readerParams crc) content (checkpointRecords m) := by
  obtain ⟨_, _, _, _, content, hbegin, hadd, hend, hfinished⟩ := @writes_checkpoint
    crc files (fun f hf => Nat.ne_of_lt (numbered_lt_next hfiles f hf)) m (AssocList.nodup_of_sorted hm.sorted) hm.sizes
  refine ⟨content, ?_, hfinished⟩
  rw [writeCheckpointFile, hbegin, Option.bind_some]
  dsimp only
  rw [hadd, Option.bind_some]
  rw [if_pos rfl, hend, Option.map_some]

theorem IsCheckpoint.finished {content : Bytes} (hm : Storable m) (h : IsCheckpoint crc m content) :
    Finished (readerParams crc) content (checkpointRecords m) := by
  obtain ⟨_, hfiles, hwrite⟩ := h
  obtain ⟨content', hwrite', hfinished⟩ := writeCheckpointFile_eq crc hm hfiles
  rw [hwrite'] at hwrite
  have heq : content' = content := by simpa using hwrite
  exact heq ▸ hfinished

theorem Torn.rejected {part : Bytes} (h : Torn crc part) : ∃ got, readCheckpointFile crc part = some (false, got) := by
  cases h with
  | cut hm h hpart hne => exact readCheckpointFile_prefix hm (h.finished hm) hpart hne
  | damaged hm h hi hb => exact readCheckpointFile_damage hm (h.finished hm) hi hb

/-- Rejected files are passed over. -/
theorem readNewest_rejected {content : Bytes} (hread : readCheckpointFile crc content = some (true, m))
    {newer : CheckpointFiles} (h : ∀ f ∈ newer, Torn crc f.2) (n : Nat) (older : CheckpointFiles) (got : StateMap) :
    readNewest crc got (newer ++ (n, content) :: older) = some (true, m) := by
  induction newer generalizing got with
  | nil =>
    rw [nil_append, readNewest, hread, Option.bind_some]
    rfl
  | cons f newer ih =>
    obtain ⟨got', hf⟩ := (h f mem_cons_self).rejected
    rw [cons_append, readNewest, hf, Option.bind_some]
    exact ih (fun f' hf' => h f' (mem_cons_of_mem _ hf')) got'

/-- A checkpoint file is read as the map that it was written for. No beginning of it but the whole is accepted, and no
file with a damaged block. So of the files of a directory the newest one that is whole gives the map, and nothing from
the torn ones behind it. -/
theorem checkpoint_believed (crc : Bytes → Int32) {m : StateMap} (hm : Storable m) {files : CheckpointFiles}
    (hfiles : Numbered files) :
    ∃ content, writeCheckpointFile crc files m =
        some (true, files ++ [(CheckpointWriter.nextNumber files, content)]) ∧
      readCheckpointFile crc content = some (true, m) ∧
      (∀ part, part <+: content → part ≠ content → ∃ got, readCheckpointFile crc part = some (false, got)) ∧
      (∀ i b, i * kDefaultCheckpointBlockSize < content.length → Damaged (readerParams crc) b →
        ∃ got, readCheckpointFile crc (damage kDefaultCheckpointBlockSize i b content) = some (false, got)) ∧
      ∀ (older newer : CheckpointFiles) (n : Nat), (∀ f ∈ newer, Torn crc f.2) →
        readCheckpoint crc (older ++ (n, content) :: newer) = some (true, m) := by
  obtain ⟨content, hwrite, hfinished⟩ := writeCheckpointFile_eq crc hm hfiles
  have hread : readCheckpointFile crc content = some (true, m) := by
    rw [readCheckpointFile_records hfinished, insertAll_sorted hm.sorted]
  refine ⟨content, hwrite, hread, ?_, ?_, ?_⟩
  · exact fun part hpart hne => readCheckpointFile_prefix hm hfinished hpart hne
  · exact fun i b hi hb => readCheckpointFile_damage hm hfinished hi hb
  · intro older newer n hnewer
    rw [readCheckpoint, reverse_append, reverse_cons, append_assoc]
    exact readNewest_rejected hread (fun f hf => hnewer f (mem_reverse.1 hf)) n _ []

theorem storable_pair : Storable [([107], [1, 2])] :=
  ⟨pairwise_singleton _ _, by decide, by decide⟩

theorem checkpoint_believed_pair :
    ∃ content, writeCheckpointFile crc32 [] [([107], [1, 2])] = some (true, [(0, content)]) ∧
      readCheckpointFile crc32 content = some (true, [([107], [1, 2])]) := by
  obtain ⟨content, hwrite, hread, -⟩ :=
    checkpoint_believed crc32 storable_pair (show Numbered [] from Pairwise.nil)
  exact ⟨content, hwrite, hread⟩

/-! ## Sizes -/

/-- A text of `2 ^ 31` bytes is appended as the empty record: its size is a negative `int32`, with zeros in its lowest
three bytes. -/
theorem append_large (w : CheckpointWriter) :
    CheckpointWriter.append crc w (List.replicate (2 ^ 31) 0) = CheckpointWriter.append crc w [] := by
  have hsize : (Int32.ofNat (2 ^ 31)).toInt < 0 := by decide
  have hnumber : NumStreamer.writeUInt24 (Int32.ofNat (2 ^ 31)).toUInt32.toNat .bigEndian =
      NumStreamer.writeUInt24 0 .bigEndian := by decide
  have hplain : (recordParams crc).deflate = none := rfl
  rw [append_of_lt (show ([] : Bytes).length < 2 ^ 31 by decide), append]
  rw [length_replicate, if_pos hsize, appendNegative, hnumber]
  by_cases hroom : (recordParams crc).block_size_ ≤
      kBlockTrailerEnd + kRecordHeaderSize + w.recorder_.content_.length
  · rw [if_pos hroom, RecordWriter.appendBuffer_nil_full hplain hroom]
  · rw [if_neg hroom, RecordWriter.appendBuffer_nil hplain (Nat.lt_of_not_le hroom), RecordWriter.putPiece,
      length_nil, append_nil]

/-- The checkpoint of a value with `2 ^ 31` bytes is read as that of an empty value. -/
theorem checkpoint_large_value :
    ∃ content, writeCheckpointFile crc32 [] [([107], List.replicate (2 ^ 31) 0)] = some (true, [(0, content)]) ∧
      readCheckpointFile crc32 content = some (true, [([107], [])]) := by
  have hempty : Storable [([107], [])] := ⟨pairwise_singleton _ _, by decide, by decide⟩
  obtain ⟨content, hwrite, hfinished⟩ :=
    writeCheckpointFile_eq crc32 hempty (show Numbered [] from Pairwise.nil)
  refine ⟨content, Eq.trans ?_ hwrite, by rw [readCheckpointFile_records hfinished]; rfl⟩
  simp only [writeCheckpointFile, addRecords, addRecord, append_large]

end Whispercast.Checkpoint
