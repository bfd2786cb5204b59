import Whispercast.Logio.LogFiles

/-!
# A reader on a log

How a `LogReader` gets from block to block and from record to record in a log that was written whole.
-/

namespace Whispercast.Logio

open Io Library RecordReader List LogReader Option

/-- A log of these blocks is on the disk. -/
structure GoodLog (p : LogParams) (d : Disk) (blks : List (List Piece)) : Prop where
  fits : ∀ fs ∈ blks, Fits p.toReaderParams fs
  disk : HoldsLog (p.block_size_ * p.blocks_per_file_) d (chainBytes p.toReaderParams 0 blks)

/-- A reader at the `b`-th block of the `f`-th file. -/
def logAt (p : LogParams) (f b n : Nat) (reader : RecordReader) (buf : Bytes) (errors : Nat) : LogReader where
  file_ := some ⟨f, b * p.block_size_⟩
  file_num_ := f
  record_num_ := n
  reader_ := reader
  num_errors_ := errors
  buf_ := buf

/-- A record reader that is to take these pieces. -/
def cursor (fs : List Piece) (a : Assembler UInt8) (last : Int32) : RecordReader where
  content_ := contentBytes fs
  record_content_ := a.pending
  prev_block_crc_ := last
  skip_record_ := a.skip

variable {p : LogParams} {d : Disk} {blks bs bs' : List (List Piece)} {f b n errors : Nat} {reader : RecordReader}
  {buf : Bytes} {fs gs : List Piece} {a a' : Assembler UInt8} {last : Int32} {m : Bytes}

/-! ## Blocks -/

/-- Bytes of whole blocks are on the disk, from file 0 on. -/
structure HoldsBlocks (p : LogParams) (d : Disk) (out : Bytes) (blocks : Nat) : Prop where
  pos : 0 < p.block_size_ * p.blocks_per_file_
  length : out.length = blocks * p.block_size_
  file : ∀ n, n * (p.block_size_ * p.blocks_per_file_) ≤ out.length →
    d.file n = some ((out.drop (n * (p.block_size_ * p.blocks_per_file_))).take (p.block_size_ * p.blocks_per_file_))

namespace HoldsBlocks

variable {out : Bytes} {blocks done : Nat}

section

variable (h : HoldsBlocks p d out blocks)

include h

theorem size_pos : 0 < p.block_size_ := Nat.pos_of_mul_pos_right h.pos

theorem files_pos : 0 < p.blocks_per_file_ := Nat.pos_of_mul_pos_left h.pos

/-- A file is there whose number of blocks before it is not more than there are. -/
theorem file_blocks (hf : f * p.blocks_per_file_ ≤ blocks) :
    d.file f = some ((out.drop (f * (p.block_size_ * p.blocks_per_file_))).take
      (p.block_size_ * p.blocks_per_file_)) := by
  refine h.file f ?_
  rw [h.length, Nat.mul_left_comm, Nat.mul_comm p.block_size_]
  exact Nat.mul_le_mul_right _ hf

theorem openFile (hf : f * p.blocks_per_file_ ≤ blocks) (r : LogReader) :
    LogReader.openFile d f r = some (true, logAt p f 0 0 r.reader_.clear [] r.num_errors_) := by
  have hfile : (d.file (f : Int).toNat).isSome := by
    rw [Int.toNat_natCast, h.file_blocks hf]
    rfl
  rw [LogReader.openFile, if_neg (by omega), if_pos hfile, logAt, Nat.zero_mul]
  rfl

/-- The block behind the first `done` blocks. -/
theorem fileRead (hle : done ≤ blocks) (hpos : f * p.blocks_per_file_ + b = done) (hb : b < p.blocks_per_file_) :
    LogReader.fileRead p d ⟨f, b * p.block_size_⟩ = (out.drop (done * p.block_size_)).take p.block_size_ := by
  have hroom : b * p.block_size_ + p.block_size_ ≤ p.block_size_ * p.blocks_per_file_ := by
    rw [← Nat.succ_mul, Nat.mul_comm p.block_size_]
    exact Nat.mul_le_mul_right _ hb
  rw [LogReader.fileRead, h.file_blocks (show f * p.blocks_per_file_ ≤ blocks by omega), getD_some,
    drop_take, take_take,
    Nat.min_eq_left (show p.block_size_ ≤ p.block_size_ * p.blocks_per_file_ - b * p.block_size_ by omega),
    drop_drop]
  congr 2
  rw [← hpos, Nat.add_mul, Nat.mul_left_comm f, Nat.mul_comm p.block_size_]

/-- `ReadBlock` goes on to the next file when this one is full. -/
theorem readBlock (hpos : f * p.blocks_per_file_ + b ≤ blocks)
    (hb : b ≤ p.blocks_per_file_) (hc : reader.content_ = []) (errors : Nat) :
    ∃ f' b', f' * p.blocks_per_file_ + b' = f * p.blocks_per_file_ + b ∧ b' < p.blocks_per_file_ ∧
      LogReader.readBlock p d (logAt p f b 0 reader [] errors) = readHere p d (logAt p f' b' 0 reader [] errors) := by
  have hsize := h.size_pos
  have hfile : (logAt p f b 0 reader [] errors).file_ = some ⟨f, b * p.block_size_⟩ := rfl
  rw [LogReader.readBlock, hfile, bind_some]
  rcases Nat.lt_or_eq_of_le hb with hlt | rfl
  · refine ⟨f, b, rfl, hlt, if_neg ?_⟩
    intro heq
    rw [Nat.mul_comm p.block_size_] at heq
    exact absurd (Nat.eq_of_mul_eq_mul_right hsize heq) (Nat.ne_of_lt hlt)
  · have hclear : reader.clear = reader := by rw [RecordReader.clear, ← hc]
    have hopen := h.openFile (show (f + 1) * p.blocks_per_file_ ≤ blocks by rw [Nat.succ_mul]; exact hpos)
      (logAt p f p.blocks_per_file_ 0 reader [] errors)
    have hnum : (logAt p f p.blocks_per_file_ 0 reader [] errors).file_num_ + 1 = ((f + 1 : Nat) : Int) := rfl
    have hreader : (logAt p f p.blocks_per_file_ 0 reader [] errors).reader_ = reader := rfl
    refine ⟨f + 1, 0, by rw [Nat.succ_mul, Nat.add_zero], h.files_pos, (if_pos (Nat.mul_comm _ _)).trans ?_⟩
    rw [hnum, hopen, hreader, hclear]
    rfl

/-- There is no more block. -/
theorem readBlock_end (hpos : f * p.blocks_per_file_ + b = blocks)
    (hb : b ≤ p.blocks_per_file_) (hc : reader.content_ = []) (errors : Nat) :
    ∃ r, LogReader.readBlock p d (logAt p f b 0 reader [] errors) = some (false, r) := by
  obtain ⟨f', b', hpos', hb', hread⟩ := h.readBlock hpos.le hb hc errors
  have hbytes : LogReader.fileRead p d ⟨f', b' * p.block_size_⟩ = [] := by
    rw [h.fileRead Nat.le.refl (hpos'.trans hpos) hb', ← h.length, List.drop_length, List.take_nil]
  rw [hread, readHere, logAt, bind_some, if_neg (by simp), hbytes, if_pos (by simpa using h.size_pos)]
  exact ⟨_, rfl⟩

end

end HoldsBlocks

theorem GoodLog.blocks (h : GoodLog p d blks) : HoldsBlocks p d (chainBytes p.toReaderParams 0 blks) blks.length where
  pos := h.disk.pos
  length := length_chainBytes h.fits
  file := h.disk.file

/-- The next block is read. -/
theorem GoodLog.readBlock_next (h : GoodLog p d blks) (hblks : blks = bs ++ fs :: bs')
    (hpos : f * p.blocks_per_file_ + b = bs.length) (hb : b ≤ p.blocks_per_file_) (hc : reader.content_ = []) :
    LogReader.readBlock p d (logAt p f b 0 reader [] errors) =
      some (true, logAt p (bs.length / p.blocks_per_file_) (bs.length % p.blocks_per_file_ + 1) 0 reader
        (blockBytes p.toReaderParams (chainEnd p.toReaderParams 0 bs) fs) errors) := by
  have hfits := h.fits fs (hblks ▸ mem_append_right _ mem_cons_self)
  have hle : f * p.blocks_per_file_ + b ≤ blks.length := by rw [hpos, hblks, length_append]; omega
  obtain ⟨f', b', hpos', hb', hread⟩ := h.blocks.readBlock hle hb hc errors
  rw [hpos] at hpos' hle
  have hcut := (@chainBytes_cut 0 p.toReaderParams blks h.fits bs.length hle).2
  rw [hblks, take_left, drop_left, ← hblks] at hcut
  have hbytes : fileRead p d ⟨f', b' * p.block_size_⟩ =
      blockBytes p.toReaderParams (chainEnd p.toReaderParams 0 bs) fs := by
    rw [h.blocks.fileRead hle hpos' hb', hcut, chainBytes, chain, flatMap_cons]
    exact take_left' hfits.length_block
  have hdiv : bs.length / p.blocks_per_file_ = f' := by
    rw [← hpos', Nat.mul_comm, Nat.mul_add_div h.blocks.files_pos, Nat.div_eq_of_lt hb', Nat.add_zero]
  have hmod : bs.length % p.blocks_per_file_ = b' := by
    rw [← hpos', Nat.mul_comm, Nat.mul_add_mod, Nat.mod_eq_of_lt hb']
  rw [hread, readHere, logAt, bind_some, if_neg (by simp), hbytes, if_neg (by rw [hfits.length_block]; omega),
    hdiv, hmod, logAt, Nat.succ_mul]

/-! ## Records -/

/-- A record reader, with what is in the buffer, goes on as one that is to take these pieces. -/
def GoesOn (q : ReaderParams) (reader : RecordReader) (buf : Bytes) (fs : List Piece) (a : Assembler UInt8)
    (last : Int32) : Prop :=
  ∀ (out : Bool) (y : ReadResult × Bytes × RecordReader × Bytes), Returns q out (cursor fs a last) [] y →
    Returns q out reader buf y

theorem GoesOn.cursor (q : ReaderParams) (fs : List Piece) (a : Assembler UInt8) (last : Int32) :
    GoesOn q (cursor fs a last) [] fs a last := fun _ _ h => h

/-- A block in the buffer. -/
theorem GoesOn.block {q : ReaderParams} {prev : Int32} (hfits : Fits q fs) (hbroken : ¬ Broken prev last) :
    GoesOn q (Logio.cursor [] a last) (blockBytes q prev fs) fs a (blockCrc q prev fs) := by
  intro out y hy
  have hgo := @Returns.block q out (Logio.cursor [] a last) y prev fs hfits rfl [] (fun hbad => hbroken hbad.1)
    (by simpa [Logio.cursor, hbroken] using hy)
  rwa [append_nil] at hgo

section Pieces

variable {q : ReaderParams} {out : Bool} {y : ReadResult × Bytes × RecordReader × Bytes}

/-- Pieces are taken that complete nothing. -/
theorem returns_passed (hshort : Short gs) (h : a.assemble gs = ([], a'))
    (hgo : Returns q out (cursor fs a' last) [] y) : Returns q out (cursor (gs ++ fs) a last) [] y := by
  induction gs generalizing a with
  | nil =>
    rw [Assembler.assemble_nil, Prod.mk.injEq] at h
    exact h.2 ▸ hgo
  | cons f gs ih =>
    rw [Assembler.assemble_cons, Prod.mk.injEq, append_eq_nil_iff] at h
    obtain ⟨⟨hnone, hrest⟩, hlast⟩ := h
    have htake : a.take f = (none, (a.take f).2) := Prod.ext (toList_eq_nil_iff.1 hnone) rfl
    have hnext := ih (a := (a.take f).2) (fun g hg => hshort g (mem_cons_of_mem _ hg)) (Prod.ext hrest hlast)
    have hc : (cursor (f :: gs ++ fs) a last).content_ = pieceBytes f ++ contentBytes (gs ++ fs) := by
      rw [cons_append, cursor, contentBytes_cons]
    exact Returns.take_none (hshort f mem_cons_self) hc htake hnext

/-- The pieces of a block are used up. -/
theorem returns_noData (hsize : 0 < q.block_size_) (hshort : Short fs) (h : a.assemble fs = ([], a')) :
    Returns q out (cursor fs a last) [] (.noData, [], cursor [] a' last, []) := by
  have hend : Returns q out (cursor [] a' last) [] (.noData, [], cursor [] a' last, []) := Returns.noData rfl hsize
  have hgo := returns_passed hshort h hend
  rwa [append_nil] at hgo

/-- Pieces are taken that complete a record. -/
theorem returns_record (hshort : Short gs) (h : Completes a m gs) :
    Returns q out (cursor (gs ++ fs) a last) [] (.ok, if out then m else [], cursor fs {} last, []) := by
  induction h with
  | @last a a' m f h ha =>
    subst ha
    have hc : (cursor ([f] ++ fs) a last).content_ = pieceBytes f ++ contentBytes fs := by
      rw [singleton_append, cursor, contentBytes_cons]
    exact Returns.take_some (hshort f mem_cons_self) hc h
  | @more a a' m f gs h hrest ih =>
    have hc : (cursor (f :: gs ++ fs) a last).content_ = pieceBytes f ++ contentBytes (gs ++ fs) := by
      rw [cons_append, cursor, contentBytes_cons]
    exact Returns.take_none (hshort f mem_cons_self) hc h (ih fun g hg => hshort g (mem_cons_of_mem _ hg))

end Pieces

/-- What a call of `ReadRecord` of a log reader does. -/
theorem readRecord_logAt (f b n errors : Nat) {out : Bool} {result : ReadResult} {data : Bytes} {reader' : RecordReader} {buf' : Bytes}
    (h : Returns p.toReaderParams out reader buf (result, data, reader', buf')) :
    LogReader.readRecord p out (logAt p f b n reader buf errors) =
      some (result, data, logAt p f b n reader' buf' errors) := by
  rw [LogReader.readRecord, show (logAt p f b n reader buf errors).reader_ = reader from rfl,
    show (logAt p f b n reader buf errors).buf_ = buf from rfl, h.readRecord]
  rfl

/-- Where a record ends that a log reader has read: in the block that it had read, or in a later one. -/
inductive NextAt (p : LogParams) (f b n errors : Nat) (bs bs' : List (List Piece)) (fs : List Piece) (last : Int32)
    (fr : List Piece) : LogReader → Prop where
  | here {fs' : List Piece} (h : fs = fr ++ fs') :
      NextAt p f b n errors bs bs' fs last fr (logAt p f b (n + 1) (cursor fs' {} last) [] errors)
  | later {bs₁ bs₂ : List (List Piece)} {gs fs' : List Piece} (hblocks : bs' = bs₁ ++ (gs ++ fs') :: bs₂)
      (hpieces : fr = fs ++ (bs₁.flatten ++ gs)) (hgs : gs ≠ []) :
      NextAt p f b n errors bs bs' fs last fr
        (logAt p ((bs ++ bs₁).length / p.blocks_per_file_) ((bs ++ bs₁).length % p.blocks_per_file_ + 1) 1
          (cursor fs' {} (blockCrc p.toReaderParams (chainEnd p.toReaderParams 0 (bs ++ bs₁)) (gs ++ fs'))) [] errors)

/-- The pieces that were there complete nothing: the next block is read. -/
theorem GoodLog.nextLoop_block (h : GoodLog p d blks) {fuel : Nat} {blk : List Piece} (hblks : blks = bs ++ blk :: bs')
    (hpos : f * p.blocks_per_file_ + b = bs.length) (hb : b ≤ p.blocks_per_file_)
    (hgo : GoesOn p.toReaderParams reader buf fs a last) (hbroken : ¬ Broken (chainEnd p.toReaderParams 0 bs) last)
    (hshort : Short fs) (ha : a.assemble fs = ([], a')) :
    ∃ f' b' buf' crc, LogReader.nextLoop p d (fuel + 1) (logAt p f b n reader buf errors) =
        LogReader.nextLoop p d fuel (logAt p f' b' 0 (cursor [] a' last) buf' errors) ∧ blks = (bs ++ [blk]) ++ bs' ∧
      f' * p.blocks_per_file_ + b' = (bs ++ [blk]).length ∧ b' ≤ p.blocks_per_file_ ∧
      GoesOn p.toReaderParams (cursor [] a' last) buf' blk a' crc ∧
      ¬ Broken (chainEnd p.toReaderParams 0 (bs ++ [blk])) crc ∧ Short blk ∧ f' = bs.length / p.blocks_per_file_ ∧
      b' = bs.length % p.blocks_per_file_ + 1 ∧ crc = blockCrc p.toReaderParams (chainEnd p.toReaderParams 0 bs) blk := by
  have hread := readRecord_logAt f b n errors (hgo true _ (returns_noData h.blocks.size_pos hshort ha))
  have hblock := @GoodLog.readBlock_next p d blks bs bs' f b errors (cursor [] a' last) blk h hblks hpos hb rfl
  have hfits := h.fits blk (hblks ▸ mem_append_right _ mem_cons_self)
  have hcrc : chainEnd p.toReaderParams 0 (bs ++ [blk]) =
      blockCrc p.toReaderParams (chainEnd p.toReaderParams 0 bs) blk := by
    rw [chainEnd_append]
    rfl
  refine ⟨_, _, _, _, ?_, by rw [hblks, append_assoc]; rfl, ?_, Nat.mod_lt _ h.blocks.files_pos,
    GoesOn.block hfits hbroken, by rw [hcrc]; exact fun hbad => hbad.2.2 rfl, hfits.short, rfl, rfl, rfl⟩
  · rw [nextLoop, hread, bind_some]
    dsimp only
    rw [if_pos rfl, show ({ logAt p f b n (cursor [] a' last) [] errors with record_num_ := 0 } : LogReader) =
      logAt p f b 0 (cursor [] a' last) [] errors from rfl, hblock]
    rfl
  · rw [Nat.add_succ, Nat.div_add_mod', length_append]
    rfl

/-- The next record is read. -/
theorem GoodLog.nextLoop (h : GoodLog p d blks) {fuel : Nat} {fr more : List Piece} (hblks : blks = bs ++ bs')
    (hpos : f * p.blocks_per_file_ + b = bs.length) (hb : b ≤ p.blocks_per_file_)
    (hgo : GoesOn p.toReaderParams reader buf fs a last) (hbroken : ¬ Broken (chainEnd p.toReaderParams 0 bs) last)
    (hshort : Short fs) (hfr : Completes a m fr) (hpieces : fs ++ bs'.flatten = fr ++ more) (hfuel : bs'.length < fuel) :
    ∃ r, LogReader.nextLoop p d fuel (logAt p f b n reader buf errors) = some (true, m, r) ∧
      NextAt p f b n errors bs bs' fs last fr r := by
  induction bs' generalizing f b n reader buf fs a last fr bs fuel with
  | nil =>
    rw [flatten_nil, append_nil] at hpieces
    obtain ⟨fuel, rfl⟩ : ∃ k, fuel = k + 1 := ⟨fuel - 1, by omega⟩
    have hread := readRecord_logAt f b n errors
      (hgo true _ (hpieces ▸ returns_record (fun g hg => hshort g (hpieces ▸ mem_append_left _ hg)) hfr))
    refine ⟨_, ?_, .here hpieces⟩
    rw [nextLoop, hread]
    rfl
  | cons blk bs' ih =>
    obtain ⟨fuel, rfl⟩ : ∃ k, fuel = k + 1 := ⟨fuel - 1, by omega⟩
    rcases append_eq_append_iff.1 hpieces with ⟨c, hc, hmore⟩ | ⟨c, hc, hmore⟩
    · by_cases hnil : c = []
      · -- The record ends with the block.
        subst hnil
        rw [append_nil] at hc
        subst hc
        have hrecord := @returns_record [] fr a last m p.toReaderParams true hshort hfr
        rw [append_nil] at hrecord
        have hread := readRecord_logAt f b n errors (hgo true _ hrecord)
        refine ⟨_, ?_, .here (append_nil fr).symm⟩
        rw [nextLoop, hread]
        rfl
      · subst hc
        obtain ⟨_, hrest, hassemble⟩ := hfr.split hnil
        obtain ⟨_, _, _, _, hloop, hblks', hplace, hb', hgo', hbroken', hshort', rfl, rfl, rfl⟩ :=
          h.nextLoop_block hblks hpos hb hgo hbroken hshort hassemble
        obtain ⟨r, hnext, hat⟩ := ih hblks' hplace hb' hgo' hbroken' hshort' hrest (by rw [← hmore, flatten_cons])
          (by simpa using hfuel)
        refine ⟨r, ?_, ?_⟩
        · rw [hloop]
          exact hnext
        · cases hat with
          | @here fs' heq =>
            subst heq
            have hlater := @NextAt.later p f b n errors bs ((c ++ fs') :: bs') fs last (fs ++ c) [] bs' c fs' rfl rfl
              hnil
            rw [append_nil] at hlater
            exact hlater
          | @later bs₁ bs₂ gs fs' hblocks heq hgs =>
            have hlater := @NextAt.later p f b n errors bs (blk :: bs') fs last (fs ++ c) (blk :: bs₁) bs₂ gs fs'
              (by rw [hblocks]; rfl) (by rw [heq, flatten_cons, append_assoc]) hgs
            rw [show bs ++ blk :: bs₁ = bs ++ [blk] ++ bs₁ by simp] at hlater
            exact hlater
    · -- The record ends before the block does.
      subst hc
      have hread := readRecord_logAt f b n errors
        (hgo true _ (returns_record (fun g hg => hshort g (mem_append_left _ hg)) hfr))
      refine ⟨_, ?_, .here rfl⟩
      rw [nextLoop, hread]
      rfl

/-- No record is left. -/
theorem GoodLog.nextLoop_end (h : GoodLog p d blks) {fuel : Nat} (hblks : blks = bs ++ bs')
    (hpos : f * p.blocks_per_file_ + b = bs.length) (hb : b ≤ p.blocks_per_file_)
    (hgo : GoesOn p.toReaderParams reader buf [] a last) (hbroken : ¬ Broken (chainEnd p.toReaderParams 0 bs) last)
    (hnone : bs'.flatten = []) (hfuel : bs'.length < fuel) :
    ∃ r, LogReader.nextLoop p d fuel (logAt p f b n reader buf errors) = some (false, [], r) := by
  induction bs' generalizing f b n reader buf last bs fuel with
  | nil =>
    obtain ⟨fuel, rfl⟩ : ∃ k, fuel = k + 1 := ⟨fuel - 1, by omega⟩
    rw [List.append_nil] at hblks
    have hread := readRecord_logAt f b n errors (hgo true _ (returns_noData h.blocks.size_pos (by simp [Short]) rfl))
    obtain ⟨r, hblock⟩ := h.blocks.readBlock_end (hblks ▸ hpos) hb (show (cursor [] a last).content_ = [] from rfl) errors
    refine ⟨r, ?_⟩
    rw [LogReader.nextLoop, hread, bind_some]
    dsimp only
    rw [if_pos rfl, show ({ logAt p f b n (cursor [] a last) [] errors with record_num_ := 0 } : LogReader) =
      logAt p f b 0 (cursor [] a last) [] errors from rfl, hblock]
    rfl
  | cons blk bs' ih =>
    obtain ⟨fuel, rfl⟩ : ∃ k, fuel = k + 1 := ⟨fuel - 1, by omega⟩
    rw [List.flatten_cons, List.append_eq_nil_iff] at hnone
    obtain ⟨rfl, hnone⟩ := hnone
    obtain ⟨_, _, _, _, hloop, hblks', hplace, hb', hgo', hbroken', -, -⟩ :=
      h.nextLoop_block hblks hpos hb hgo hbroken (by simp [Short]) rfl
    obtain ⟨r, hnext⟩ := ih hblks' hplace hb' hgo' hbroken' hnone (by simpa using hfuel)
    refine ⟨r, ?_⟩
    rw [hloop]
    exact hnext

/-! ## What is delivered -/

theorem getNextRecord_logAt (p : LogParams) (d : Disk) (f b n : Nat) (reader : RecordReader) (buf : Bytes)
    (errors : Nat) : getNextRecord p d (logAt p f b n reader buf errors) =
      LogReader.nextLoop p d (LogReader.diskSize d + 2) (logAt p f b n reader buf errors) := by
  have hnot : ¬ (logAt p f b n reader buf errors).file_num_ = -1 := by
    show ¬ (f : Int) = -1
    omega
  rw [getNextRecord, if_neg hnot, if_neg hnot]
  rfl

/-- A file that is not open is opened first. -/
theorem GoodLog.getNextRecord_closed (h : GoodLog p d blks) (hf : f * p.blocks_per_file_ ≤ blks.length) (r : LogReader)
    (hclosed : r.file_ = none) (hnum : r.file_num_ = f) :
    getNextRecord p d r = LogReader.nextLoop p d (LogReader.diskSize d + 2)
      (logAt p f 0 0 r.reader_.clear [] r.num_errors_) := by
  have hnot : ¬ r.file_num_ = -1 := by omega
  rw [getNextRecord, if_neg hnot, if_neg hnot, if_pos hclosed, hnum, h.blocks.openFile hf]
  rfl

/-- `GetNextRecord` goes on with these pieces. -/
structure Ready (p : LogParams) (d : Disk) (blks : List (List Piece)) (pieces : List Piece) (r : LogReader) : Prop where
  at_block : ∃ (f b n : Nat) (reader : RecordReader) (buf : Bytes) (errors : Nat) (fs : List Piece) (last : Int32)
      (bs bs' : List (List Piece)), blks = bs ++ bs' ∧
    getNextRecord p d r = LogReader.nextLoop p d (LogReader.diskSize d + 2) (logAt p f b n reader buf errors) ∧
    f * p.blocks_per_file_ + b = bs.length ∧ b ≤ p.blocks_per_file_ ∧ GoesOn p.toReaderParams reader buf fs {} last ∧
    ¬ Broken (chainEnd p.toReaderParams 0 bs) last ∧ Short fs ∧ fs ++ bs'.flatten = pieces

theorem GoodLog.fuel (h : GoodLog p d blks) (hblks : blks = bs ++ bs') : bs'.length < LogReader.diskSize d + 2 := by
  have hsize := h.blocks.size_pos
  rw [h.disk.diskSize, h.blocks.length]
  have hle : blks.length * 1 ≤ blks.length * p.block_size_ := Nat.mul_le_mul_left _ hsize
  have hlen : bs'.length ≤ blks.length := by rw [hblks, length_append]; omega
  omega

/-- A reader that has just read a record. -/
theorem GoodLog.ready_nextAt (h : GoodLog p d blks) (hblks : blks = bs ++ bs')
    (hpos : f * p.blocks_per_file_ + b = bs.length) (hb : b ≤ p.blocks_per_file_)
    (hbroken : ¬ Broken (chainEnd p.toReaderParams 0 bs) last) (hshort : Short fs) {fr more : List Piece}
    (hpieces : fs ++ bs'.flatten = fr ++ more) {r : LogReader} (hr : NextAt p f b n errors bs bs' fs last fr r) :
    Ready p d blks more r := by
  cases hr with
  | @here fs' hfs =>
    subst hfs
    rw [append_assoc] at hpieces
    exact ⟨f, b, n + 1, _, [], errors, fs', last, bs, bs', hblks, getNextRecord_logAt _ _ _ _ _ _ _ _, hpos, hb,
      .cursor _ _ _ _, hbroken, fun g hg => hshort g (mem_append_right _ hg), append_cancel_left hpieces⟩
  | @later bs₁ bs₂ gs fs' hblocks hfr hgs =>
    have hfits := h.fits (gs ++ fs') (by rw [hblks, hblocks]; simp)
    have hcrc : chainEnd p.toReaderParams 0 (bs ++ bs₁ ++ [gs ++ fs']) =
        blockCrc p.toReaderParams (chainEnd p.toReaderParams 0 (bs ++ bs₁)) (gs ++ fs') := by
      rw [chainEnd_append]
      rfl
    refine ⟨_, _, 1, _, [], errors, fs', _, bs ++ bs₁ ++ [gs ++ fs'], bs₂, ?_, getNextRecord_logAt _ _ _ _ _ _ _ _, ?_,
      Nat.mod_lt _ h.blocks.files_pos, .cursor _ _ _ _, by rw [hcrc]; exact fun hbad => hbad.2.2 rfl,
      fun g hg => hfits.short g (mem_append_right _ hg), ?_⟩
    · rw [hblks, hblocks]
      simp
    · rw [← Nat.add_assoc, Nat.div_add_mod']
      simp [Nat.add_assoc]
    · rw [hblocks, hfr, flatten_append, flatten_cons] at hpieces
      simp only [append_assoc] at hpieces
      exact append_cancel_left (append_cancel_left (append_cancel_left hpieces))

/-- The records whose pieces are left are delivered. -/
theorem GoodLog.delivers (h : GoodLog p d blks) {ms : List Bytes} {frs : List (List Piece)}
    (hms : List.Forall₂ (Carries true) ms frs) {r : LogReader} (hr : Ready p d blks frs.flatten r) :
    Delivers p d r ms := by
  induction hms generalizing r with
  | nil =>
    obtain ⟨f, b, n, reader, buf, errors, fs, last, bs, bs', hblks, hnext, hpos, hb, hgo, hbroken, -, hpieces⟩ :=
      hr.at_block
    rw [flatten_nil, append_eq_nil_iff] at hpieces
    obtain ⟨rfl, hnone⟩ := hpieces
    obtain ⟨r', hend⟩ := @GoodLog.nextLoop_end p d blks bs bs' f b n errors reader buf {} last h _ hblks hpos hb hgo
      hbroken hnone (h.fuel hblks)
    exact .done (hnext.trans hend)
  | @cons m fr ms frs hm _ ih =>
    obtain ⟨f, b, n, reader, buf, errors, fs, last, bs, bs', hblks, hnext, hpos, hb, hgo, hbroken, hshort, hpieces⟩ :=
      hr.at_block
    obtain ⟨r', hloop, hat⟩ := @GoodLog.nextLoop p d blks bs bs' f b n errors reader buf fs {} last m h _ fr
      frs.flatten hblks hpos hb hgo hbroken hshort hm.completes (by rw [hpieces, flatten_cons]) (h.fuel hblks)
    exact .more (hnext.trans hloop) (ih (h.ready_nextAt hblks hpos hb hbroken hshort
      (by rw [hpieces, flatten_cons]) hat))

theorem LogReader.Delivers.unique {r : LogReader} {ms ms' : List Bytes} (h : Delivers p d r ms) (h' : Delivers p d r ms') :
    ms = ms' := by
  induction h generalizing ms' with
  | done h => cases h' with
    | done => rfl
    | more h' => simp [h] at h'
  | more h _ ih => cases h' with
    | done h' => simp [h] at h'
    | more h' hrest =>
      rw [h, some.injEq, Prod.mk.injEq, Prod.mk.injEq] at h'
      obtain ⟨-, rfl, rfl⟩ := h'
      rw [ih hrest]

end Whispercast.Logio
