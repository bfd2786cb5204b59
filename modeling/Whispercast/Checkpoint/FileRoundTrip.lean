import Whispercast.Checkpoint.CheckpointFile

/-!
# A checkpoint is read as it was written

`CheckpointWriter` writes the records of a `Recording`, some of them still in its buffer. `ReadCheckpointFile` takes them
block by block, and groups them into the entries of the map.
-/

namespace Whispercast.Checkpoint

open Io Library Logio RecordReader CheckpointScan List Option

variable {crc : Bytes → Int32}

theorem recordParams_admitted (crc : Bytes → Int32) : (recordParams crc).Admitted where
  size := show kDefaultCheckpointBlockSize < kMaximumRecordBlockSize by decide
  room := show kRecordHeaderSize + 9 * (kDefaultCheckpointBlockSize - kBlockTrailerEnd) / 10 + kBlockTrailerEnd <
    kDefaultCheckpointBlockSize by decide

/-! ## Reading -/

namespace CheckpointScan

variable {s s' : CheckpointScan} {p : ReaderParams}

/-- Records are grouped one after another. -/
def takeRecords (s : CheckpointScan) (recs : List Bytes) : Option CheckpointScan := recs.foldlM takeRecord s

theorem takeRecords_append (s : CheckpointScan) (recs recs' : List Bytes) :
    s.takeRecords (recs ++ recs') = (s.takeRecords recs).bind fun s => s.takeRecords recs' := foldlM_append

/-- The records of a block are taken. -/
theorem recordLoop_of_drains {r r' : RecordReader} {input : Bytes} {results : List (ReadResult × Bytes)}
    (h : Drains p r input results r' []) (hok : ∀ x ∈ results, x.1 = .ok)
    (hs : s.takeRecords (results.map Prod.snd) = some s') {n : Nat} (hn : results.length < n) :
    recordLoop p n r input s = some (.ok (r', s')) := by
  generalize hend : ([] : Bytes) = rest at h
  induction h generalizing s n with
  | done h =>
    obtain ⟨n, rfl⟩ : ∃ k, n = k + 1 := ⟨n - 1, by omega⟩
    cases hs
    rw [recordLoop, h.readRecord, bind_some]
    simp [← hend]
  | @more _ _ _ _ _ _ result data results h hresult _ _ ih =>
    obtain ⟨n, rfl⟩ : ∃ k, n = k + 1 := ⟨n - 1, by omega⟩
    obtain rfl : result = .ok := hok _ mem_cons_self
    obtain ⟨_, hs₁, hs⟩ := bind_eq_some_iff.1 hs
    rw [recordLoop, h.readRecord, bind_some]
    dsimp only
    rw [if_neg hresult, if_neg (fun hne => hne rfl), hs₁]
    exact ih (fun x hx => hok x (mem_cons_of_mem _ hx)) hs (Nat.lt_of_succ_lt_succ hn) hend

section

variable (hblock : p.block_size_ = kDefaultCheckpointBlockSize) {ss : List Stored} (hss : ∀ s ∈ ss, s.Ok p)
    {a : Assembler UInt8} {last : Int32} (hok : ∀ x ∈ (readAll p a last ss).1, x.1 = .ok)
    (hs : s.takeRecords ((readAll p a last ss).1.map Prod.snd) = some s') {n : Nat}

include hblock hss hok hs

/-- The blocks of a file are read one after another, and what follows behind them. -/
theorem blockLoop_append (rest : Bytes) (hn : ss.length ≤ n) :
    blockLoop p n (between a last) (ss.flatMap (Stored.bytes p) ++ rest) s =
      blockLoop p (n - ss.length) (between (readAll p a last ss).2.1 (readAll p a last ss).2.2) rest s' := by
  induction ss generalizing a last s n with
  | nil =>
    cases hs
    rfl
  | cons b ss ih =>
    obtain ⟨n, rfl⟩ : ∃ k, n = k + 1 := ⟨n - 1, by rw [length_cons] at hn; omega⟩
    have hb := hss b mem_cons_self
    have hlen := Stored.Ok.length hb
    rw [hblock] at hlen
    have hpos : 0 < kDefaultCheckpointBlockSize := by decide
    rw [readAll_cons] at hok hs
    rw [map_append, takeRecords_append] at hs
    obtain ⟨_, hs₁, hs⟩ := bind_eq_some_iff.1 hs
    have hfirst : ∀ t ∈ [b], t.Ok p := fun t ht => hss t (mem_singleton.1 ht ▸ mem_cons_self)
    have hempty : ([] : Bytes).length < p.block_size_ := by
      rw [hblock]
      exact hpos
    have hone : Drains p (between a last) ([b].flatMap (Stored.bytes p) ++ []) (readAll p a last [b]).1
        (between (readAll p a last [b]).2.1 (readAll p a last [b]).2.2) [] := drains_all hfirst hempty
    have hsingle : (readAll p a last [b]).1 = (readStored p a last b).1 := by
      rw [readAll_cons]
      exact append_nil _
    rw [hsingle, flatMap_cons, flatMap_nil, append_nil, append_nil] at hone
    have hread := recordLoop_of_drains hone (fun x hx => hok x (mem_append_left _ hx)) hs₁
      (Nat.lt_succ_of_le hone.length_le)
    rw [flatMap_cons, append_assoc, blockLoop, if_neg (by
      intro hnil
      rw [(append_eq_nil_iff.1 hnil).1] at hlen
      exact absurd hlen (by decide)), if_neg (by rw [length_append, hlen]; omega)]
    dsimp only
    rw [take_left' hlen, drop_left' hlen]
    rw [show (b.bytes p).length + (between a last).content_.length + 1 = left (between a last) (b.bytes p) + 1 from rfl,
      hread, bind_some]
    have hrest := ih (fun t ht => hss t (mem_cons_of_mem _ ht)) (fun x hx => hok x (mem_append_right _ hx)) hs
      (Nat.le_of_succ_le_succ hn)
    rw [length_cons, Nat.add_sub_add_right]
    exact hrest

/-- A file of blocks is read to its end. -/
theorem blockLoop_blocks (hn : ss.length < n) : blockLoop p n (between a last) (ss.flatMap (Stored.bytes p)) s =
      some (decide (s'.name = kCheckpointEnd), s'.checkpoint) := by
  have hread := blockLoop_append hblock hss hok hs [] (Nat.le_of_lt hn)
  obtain ⟨k, hk⟩ : ∃ k, n - ss.length = k + 1 := ⟨n - ss.length - 1, by omega⟩
  rw [append_nil, hk] at hread
  rw [hread, blockLoop, if_pos rfl]

end

/-- The entries of a map, as records. -/
def entryRecords (m : StateMap) : List Bytes := m.flatMap fun e => [e.1, e.2]

theorem takeRecords_entries (m acc : StateMap) (name : Bytes) : takeRecords ⟨acc, true, name, false⟩ (entryRecords m) =
      some ⟨m.insertAll acc, true, (m.getLast?.map Prod.fst).getD name, false⟩ := by
  induction m generalizing acc name with
  | nil => rfl
  | cons e m ih =>
    have hstep : takeRecords ⟨acc, true, name, false⟩ (entryRecords (e :: m)) =
        takeRecords ⟨acc.insert e.1 e.2, true, e.1, false⟩ (entryRecords m) := rfl
    rw [hstep, ih]
    cases m with
    | nil => rfl
    | cons e' m => simp [getLast?_eq_some_getLast, StateMap.insertAll]

/-- The records of a checkpoint. -/
theorem takeRecords_checkpoint (m : StateMap) :
    takeRecords {} (kCheckpointBegin :: (entryRecords m ++ [kCheckpointEnd])) =
      some ⟨m.insertAll [], false, kCheckpointEnd, false⟩ := by
  have hbegin : takeRecords {} (kCheckpointBegin :: (entryRecords m ++ [kCheckpointEnd])) =
      takeRecords ⟨[], true, [], false⟩ (entryRecords m ++ [kCheckpointEnd]) := by
    rw [takeRecords, foldlM_cons]
    simp [takeRecord, takeRecords]
  rw [hbegin, takeRecords_append, takeRecords_entries, bind_some]
  rfl

end CheckpointScan

/-- A finished file: the blocks of some records, the last one with the end of the last record. -/
def Finished (q : ReaderParams) (content : Bytes) (recs : List Bytes) : Prop :=
  ∃ es frs blks last, Written es frs blks last ∧ last ≠ [] ∧ (∀ fs ∈ blks ++ [last], Fits q fs) ∧
    content = chainBytes q 0 (blks ++ [last]) ∧ es.map Extent.record = recs

theorem length_chain_le {q : ReaderParams} {blks : List (List Piece)} (h : ∀ fs ∈ blks, Fits q fs)
    (hpos : 0 < q.block_size_) : (chain q 0 blks).length ≤ (chainBytes q 0 blks).length := by
  rw [length_chain, length_chainBytes h]
  exact Nat.le_mul_of_pos_right _ hpos

theorem readAll_written {q : ReaderParams} {es : List Extent} {frs blks : List (List Piece)} {last : List Piece}
    (h : Written es frs blks last) :
    (RecordReader.readAll q {} 0 (chain q 0 (blks ++ [last]))).1 =
      (es.map Extent.record).map fun data => (ReadResult.ok, data) := by
  rw [readAll_chain (fun hbroken => hbroken.1 rfl), flatten_append, flatten_singleton, h.flatten,
    Assembler.assemble_messages h.carries]
  simp [resultsOf, resultOf, Function.comp_def]

/-- A file with the records of a checkpoint is read as its entries. -/
theorem readCheckpointFile_records {content : Bytes} {m : StateMap}
    (h : Finished (readerParams crc) content (kCheckpointBegin :: (CheckpointScan.entryRecords m ++ [kCheckpointEnd]))) :
    readCheckpointFile crc content = some (true, m.insertAll []) := by
  obtain ⟨_, _, blks, last, hwritten, -, hfits, rfl, hrecords⟩ := h
  have hall := readAll_written (q := readerParams crc) hwritten
  have hok : ∀ x ∈ (readAll (readerParams crc) {} 0 (chain (readerParams crc) 0 (blks ++ [last]))).1, x.1 = .ok := by
    intro x hx
    rw [hall] at hx
    obtain ⟨_, -, rfl⟩ := List.mem_map.1 hx
    rfl
  have htake : CheckpointScan.takeRecords {}
      ((readAll (readerParams crc) {} 0 (chain (readerParams crc) 0 (blks ++ [last]))).1.map Prod.snd) =
        some ⟨m.insertAll [], false, kCheckpointEnd, false⟩ := by
    rw [hall, hrecords, List.map_map]
    simpa [Function.comp_def] using CheckpointScan.takeRecords_checkpoint m
  exact CheckpointScan.blockLoop_blocks rfl (chain_ok hfits) hok htake
    (Nat.lt_succ_of_le (length_chain_le hfits (show 0 < kDefaultCheckpointBlockSize by decide)))

/-! ## Writing -/

namespace CheckpointWriter

/-- A writer with the open file `n` behind other files: what is in the file and in the buffer is the output of a
recording. -/
structure Tracks (w : CheckpointWriter) (files done : CheckpointFiles) (n : Nat) (s : Recording) : Prop where
  file : w.file_ = some n
  recorder : w.recorder_ = s.writer
  content : ∃ content, files = done ++ [(n, content)] ∧ content ++ w.buf_ = s.out ∧
    kDefaultCheckpointBlockSize ∣ content.length

variable {w : CheckpointWriter} {files done : CheckpointFiles} {n : Nat} {s : Recording}
  {frs blks : List (List Piece)} {ps : List Piece}

/-- A recording of a checkpoint so far. -/
abbrev Records (crc : Bytes → Int32) (s : Recording) (recs : List Bytes) : Prop :=
  ∃ frs blks ps, s.Inv (recordParams crc) (readerParams crc) frs blks ps ∧ s.extents.map Extent.record = recs

/-- A record whose size is an `int32` is appended as it is. -/
theorem append_of_lt {data : Bytes} (h : data.length < 2 ^ 31) :
    append crc w data = (RecordWriter.appendBuffer (recordParams crc) data w.recorder_).map
      fun (finished, out, recorder) => (finished, { w with recorder_ := recorder, buf_ := w.buf_ ++ out }) := by
  rw [CheckpointWriter.append]
  rw [toInt_int32 h, if_neg (by omega), Int.toNat_natCast, take_length]

variable {recs : List Bytes}

theorem Tracks.append (h : w.Tracks files done n s) (hs : Records crc s recs) {data : Bytes}
    (hsize : data.length < 2 ^ 31) :
    ∃ fin w' s', append crc w data = some (fin, w') ∧ w'.Tracks files done n s' ∧ w'.names_ = w.names_ ∧
      Records crc s' (recs ++ [data]) := by
  obtain ⟨_, _, _, hinv, hrecs⟩ := hs
  obtain ⟨s', frs', blks', ps', hstep, hinv', -, hrecs'⟩ :=
    hinv.step (recordParams_admitted crc) rfl (show (WriterCall.buffer data).Proper from trivial)
  obtain ⟨⟨_, _, r⟩, hloop, hmap⟩ := bind_eq_some_iff.1 hstep
  obtain ⟨⟨fin, out, r'⟩, hdump, rfl⟩ := map_eq_some_iff.1 hmap
  obtain ⟨content, hfiles, hcontent, hdvd⟩ := h.content
  refine ⟨fin, { w with recorder_ := r', buf_ := w.buf_ ++ out }, _, ?_,
    ⟨h.file, rfl, content, hfiles, by rw [← append_assoc, hcontent], hdvd⟩, rfl, frs', blks', ps', hinv', ?_⟩
  · rw [append_of_lt hsize, RecordWriter.appendBuffer, h.recorder, hloop, bind_some, hdump, map_some]
  · rw [hrecs', hrecs]
    rfl

section

variable (h : w.Tracks files done n s) (hs : Records crc s recs) (hnew : ∀ f ∈ done, f.1 ≠ n)

include h hs hnew

/-- The buffer is written to the file. -/
theorem Tracks.writeBuffer : writeBuffer w files = some ({ w with buf_ := [] }, done ++ [(n, s.out)]) ∧
      ({ w with buf_ := [] } : CheckpointWriter).Tracks (done ++ [(n, s.out)]) done n s := by
  obtain ⟨_, _, _, hinv, -⟩ := hs
  obtain ⟨_, hfiles, hcontent, hdvd⟩ := h.content
  have hout : kDefaultCheckpointBlockSize ∣ s.out.length := by
    rw [hinv.out, length_chainBytes hinv.fits]
    exact Nat.dvd_mul_left _ _
  have hbuf : kDefaultCheckpointBlockSize ∣ w.buf_.length := by
    rw [← hcontent, length_append] at hout
    exact (Nat.dvd_add_right hdvd).1 hout
  have hdone : done.map (fun f => if f.1 = n then (f.1, f.2 ++ w.buf_) else f) = done :=
    (map_congr_left fun f hf => if_neg (hnew f hf)).trans (map_id done)
  refine ⟨?_, h.file, h.recorder, s.out, rfl, append_nil _, hout⟩
  rw [CheckpointWriter.writeBuffer, h.file, bind_some, if_neg (fun hne => hne (Nat.mod_eq_zero_of_dvd hbuf)),
    hfiles, map_append, hdone]
  simp [hcontent]

/-- An entry is added. -/
theorem Tracks.addRecord {name value : Bytes} (hname : name ∉ w.names_) (hsizes : name.length < 2 ^ 31 ∧
      value.length < 2 ^ 31) :
    ∃ w' files' s', addRecord crc w files name value = some (true, w', files') ∧ w'.Tracks files' done n s' ∧
      w'.names_ = w.names_ ++ [name] ∧ Records crc s' (recs ++ [name, value]) := by
  have hnamed : ({ w with names_ := w.names_ ++ [name] } : CheckpointWriter).Tracks files done n s :=
    ⟨h.file, h.recorder, h.content⟩
  obtain ⟨fin₁, _, _, happend₁, h₁, hnames₁, hs₁⟩ := hnamed.append hs hsizes.1
  obtain ⟨fin₂, w₂, s₂, happend₂, h₂, hnames₂, hs₂⟩ := h₁.append hs₁ hsizes.2
  have hopen : ¬ w.file_.isNone = true := by simp [h.file]
  have hrecs : recs ++ [name] ++ [value] = recs ++ [name, value] := by simp
  rw [CheckpointWriter.addRecord, if_neg hopen, if_neg hname, happend₁, bind_some]
  dsimp only
  rw [happend₂, bind_some]
  by_cases hfin : (fin₁ || fin₂) = true
  · obtain ⟨hwrite, h₃⟩ := h₂.writeBuffer hs₂ hnew
    rw [if_pos hfin, hwrite, map_some]
    exact ⟨_, _, s₂, rfl, h₃, hnames₂.trans hnames₁, hrecs ▸ hs₂⟩
  · rw [if_neg hfin]
    exact ⟨w₂, files, s₂, rfl, h₂, hnames₂.trans hnames₁, hrecs ▸ hs₂⟩

/-- Entries are added one after another. -/
theorem Tracks.addRecords {m : StateMap} (hnodup : (w.names_ ++ AssocList.keys m).Nodup)
    (hsizes : ∀ e ∈ m, e.1.length < 2 ^ 31 ∧ e.2.length < 2 ^ 31) :
    ∃ w' files' s', addRecords crc w files m = some (true, w', files') ∧ w'.Tracks files' done n s' ∧
      Records crc s' (recs ++ CheckpointScan.entryRecords m) := by
  induction m generalizing w files s recs with
  | nil => exact ⟨w, files, s, rfl, h, by simpa [entryRecords] using hs⟩
  | cons e m ih =>
    have hname : e.1 ∉ w.names_ := by
      intro hmem
      exact (nodup_append.1 hnodup).2.2 e.1 hmem e.1 mem_cons_self rfl
    obtain ⟨_, _, _, hadd, h₁, hnames, hs₁⟩ := h.addRecord hs hnew hname (hsizes e mem_cons_self)
    obtain ⟨w₂, files₂, s₂, hall, h₂, hs₂⟩ := ih h₁ hs₁ (by rw [hnames]; simpa using hnodup)
      fun e' he' => hsizes e' (mem_cons_of_mem _ he')
    refine ⟨w₂, files₂, s₂, ?_, h₂, ?_⟩
    · rw [CheckpointWriter.addRecords, hadd, bind_some]
      exact hall
    · have hrecs : recs ++ [e.1, e.2] ++ entryRecords m =
          recs ++ entryRecords (e :: m) := by
        simp [entryRecords]
      exact hrecs ▸ hs₂

end

/-- A new file is begun. -/
theorem beginCheckpoint_tracks (files : CheckpointFiles) :
    ∃ w s, beginCheckpoint crc {} files = some (w, files ++ [(nextNumber files, [])]) ∧
      w.Tracks (files ++ [(nextNumber files, [])]) files (nextNumber files) s ∧ w.names_ = [] ∧
      Records crc s [kCheckpointBegin] := by
  have hopened : ({ file_ := some (nextNumber files) } : CheckpointWriter).Tracks (files ++ [(nextNumber files, [])])
      files (nextNumber files) {} := ⟨rfl, rfl, [], rfl, rfl, Nat.dvd_zero _⟩
  have hsize : kCheckpointBegin.length < 2 ^ 31 := by decide
  obtain ⟨_, w, s, happend, h, hnames, hs⟩ := hopened.append ⟨[], [], [], Recording.inv_init, rfl⟩ hsize
  refine ⟨w, s, ?_, h, hnames, hs⟩
  rw [beginCheckpoint, if_neg (by simp), RecordWriter.new, if_pos (recordParams_admitted crc).size, bind_some,
    happend, map_some]

/-- The file is finished. -/
theorem Tracks.endCheckpoint (h : w.Tracks files done n s) (hs : Records crc s recs) (hnew : ∀ f ∈ done, f.1 ≠ n) :
    ∃ content, endCheckpoint crc w files = some ({}, done ++ [(n, content)]) ∧
      Finished (readerParams crc) content (recs ++ [kCheckpointEnd]) := by
  obtain ⟨_, _, _, hinv, hrecs⟩ := hs
  obtain ⟨_, _, es, frs', blks', last, hstep₁, hstep₂, hwritten, hne, hfits, hout, hrecs'⟩ :=
    hinv.finish (recordParams_admitted crc) rfl kCheckpointEnd
  obtain ⟨⟨_, _, r⟩, hloop, hmap⟩ := bind_eq_some_iff.1 hstep₁
  obtain ⟨⟨fin, out, r₁⟩, hdump, rfl⟩ := map_eq_some_iff.1 hmap
  obtain ⟨⟨block, _⟩, hfinal, rfl⟩ := map_eq_some_iff.1 hstep₂
  obtain ⟨content, hfiles, hcontent, hdvd⟩ := h.content
  have happend : CheckpointWriter.append crc w kCheckpointEnd = some (fin, { w with recorder_ := r₁, buf_ := w.buf_ ++ out }) := by
    rw [append_of_lt (show kCheckpointEnd.length < 2 ^ 31 by decide), RecordWriter.appendBuffer, h.recorder, hloop,
      bind_some, hdump, map_some]
  have hwhole : content ++ (w.buf_ ++ out ++ block) = chainBytes (readerParams crc) 0 (blks' ++ [last]) := by
    refine Eq.trans ?_ hout
    rw [← hcontent]
    simp only [append_assoc]
  have hbuf : kDefaultCheckpointBlockSize ∣ (w.buf_ ++ out ++ block).length := by
    have hlen := (congrArg List.length hwhole).trans (length_chainBytes hfits)
    rw [length_append] at hlen
    exact (Nat.dvd_add_right hdvd).1 (hlen ▸ Nat.dvd_mul_left _ _)
  have hdone : ∀ buf : Bytes, done.map (fun f => if f.1 = n then (f.1, f.2 ++ buf) else f) = done := fun buf =>
    (map_congr_left fun f hf => if_neg (hnew f hf)).trans (map_id done)
  refine ⟨_, ?_, es, frs', blks', last, hwritten, hne, hfits, hwhole, by rw [hrecs', hrecs]⟩
  rw [CheckpointWriter.endCheckpoint, if_neg (by simp [h.file]), happend, bind_some]
  dsimp only
  rw [hfinal, bind_some]
  rw [CheckpointWriter.writeBuffer, h.file, bind_some, if_neg (fun hne => hne (Nat.mod_eq_zero_of_dvd hbuf)),
    map_some, hfiles, map_append, hdone]
  simp

/-- A checkpoint is written to a new file. -/
theorem writes_checkpoint (files : CheckpointFiles) (hnew : ∀ f ∈ files, f.1 ≠ nextNumber files) {m : StateMap}
    (hnodup : (AssocList.keys m).Nodup) (hsizes : ∀ e ∈ m, e.1.length < 2 ^ 31 ∧ e.2.length < 2 ^ 31) :
    ∃ w₁ files₁ w₂ files₂ content, beginCheckpoint crc {} files = some (w₁, files₁) ∧
      addRecords crc w₁ files₁ m = some (true, w₂, files₂) ∧
      endCheckpoint crc w₂ files₂ = some ({}, files ++ [(nextNumber files, content)]) ∧
      Finished (readerParams crc) content (kCheckpointBegin :: (CheckpointScan.entryRecords m ++ [kCheckpointEnd])) := by
  obtain ⟨w₁, _, hbegin, h₁, hnames, hs₁⟩ := beginCheckpoint_tracks files
  obtain ⟨w₂, files₂, _, hadd, h₂, hs₂⟩ := h₁.addRecords hs₁ hnew (by rwa [hnames]) hsizes
  obtain ⟨content, hend, hfinished⟩ := h₂.endCheckpoint hs₂ hnew
  exact ⟨w₁, _, w₂, files₂, content, hbegin, hadd, hend, hfinished⟩

end CheckpointWriter

end Whispercast.Checkpoint
