import Whispercast.Library.Fragments
import Whispercast.Logio.RecordReader

/-!
# Blocks as the reader sees them

The content of a block is a list of pieces, which are fragments of records with a flag for each mark. `RecordReader`
takes the pieces of a block as an assembler takes fragments; between the blocks it compares checksums. What repeated
calls of `ReadRecord` give is computed here from the blocks themselves.
-/

namespace Whispercast.Logio

open Io Library List NumStreamer

/-- A piece of a record. -/
abbrev Piece : Type := Fragment UInt8

/-! ## Pieces -/

/-- The flags of a piece. -/
def flagsOf (f : Piece) : UInt8 :=
  (if f.cont then RecordFlags.hasCont else 0) ||| (if f.first then RecordFlags.isFirst else 0)

/-- A piece with its header. -/
def pieceBytes (f : Piece) : Bytes := flagsOf f :: (NumStreamer.writeUInt24 f.data.length .bigEndian ++ f.data)

/-- The content of a block. -/
def contentBytes (fs : List Piece) : Bytes := fs.flatMap pieceBytes

/-- Every piece is short enough for its header. -/
def Short (fs : List Piece) : Prop := ∀ f ∈ fs, f.data.length < 2 ^ 24

@[simp] theorem contentBytes_nil : contentBytes [] = [] := rfl

@[simp] theorem contentBytes_cons (f : Piece) (fs : List Piece) :
    contentBytes (f :: fs) = pieceBytes f ++ contentBytes fs := flatMap_cons

@[simp] theorem contentBytes_append (fs gs : List Piece) :
    contentBytes (fs ++ gs) = contentBytes fs ++ contentBytes gs := flatMap_append

@[simp] theorem length_pieceBytes (f : Piece) : (pieceBytes f).length = f.data.length + 4 := by
  simp [pieceBytes, writeUInt24]
  omega

theorem contentBytes_eq_nil {fs : List Piece} : contentBytes fs = [] ↔ fs = [] := by
  cases fs with
  | nil => simp
  | cons f fs => simp [pieceBytes]

theorem length_data_le {f : Piece} {fs : List Piece} (h : f ∈ fs) : f.data.length + 4 ≤ (contentBytes fs).length := by
  induction fs with
  | nil => cases h
  | cons g fs ih =>
    rw [contentBytes_cons, length_append, length_pieceBytes]
    rcases mem_cons.1 h with rfl | h
    · omega
    · have := ih h
      omega

@[simp] theorem flagsOf_first (f : Piece) : flagsOf f &&& RecordFlags.isFirst ≠ 0 ↔ f.first = true := by
  cases hc : f.cont <;> cases hf : f.first <;> simp only [flagsOf, hc, hf] <;> decide

@[simp] theorem flagsOf_cont (f : Piece) : flagsOf f &&& RecordFlags.hasCont ≠ 0 ↔ f.cont = true := by
  cases hc : f.cont <;> cases hf : f.first <;> simp only [flagsOf, hc, hf] <;> decide

@[simp] theorem flagsOf_zipped (f : Piece) : flagsOf f &&& RecordFlags.isZipped = 0 := by
  cases hc : f.cont <;> cases hf : f.first <;> simp only [flagsOf, hc, hf] <;> decide

/-- The header of a piece, as the reader takes it apart. -/
theorem pieceBytes_shape (f : Piece) (hf : f.data.length < 2 ^ 24) :
    ∃ x y z, pieceBytes f = flagsOf f :: x :: y :: z :: f.data ∧
      ∀ rest, RecordReader.lengthAt (flagsOf f :: x :: y :: z :: rest) = f.data.length := by
  have hlen : (writeUInt24 f.data.length .bigEndian).length = 3 := writeNumber_length _ _ _
  have hnum : numberOf .bigEndian (writeUInt24 f.data.length .bigEndian) = f.data.length :=
    numberOf_writeNumber .bigEndian hf
  rcases hw : writeUInt24 f.data.length .bigEndian with _ | ⟨x, _ | ⟨y, _ | ⟨z, _ | ⟨u, _⟩⟩⟩⟩ <;>
    rw [hw] at hlen <;> try cases hlen
  rw [hw] at hnum
  exact ⟨x, y, z, by rw [pieceBytes, hw]; rfl, fun rest => hnum⟩

namespace RecordReader

/-! ## The reader at a piece -/

/-- The assembler in a reader. -/
def assembler (r : RecordReader) : Assembler UInt8 := ⟨r.record_content_, r.skip_record_⟩

/-- The reader with another content and another assembler. -/
def set (r : RecordReader) (content : Bytes) (a : Assembler UInt8) : RecordReader :=
  { r with content_ := content, record_content_ := a.pending, skip_record_ := a.skip }

@[simp] theorem set_content (r : RecordReader) (content : Bytes) (a : Assembler UInt8) :
    (r.set content a).content_ = content := rfl

/-- What a call gives for what the assembler gives. -/
def resultOf (out : Bool) : Assembled UInt8 → ReadResult × Bytes
  | .message m => (.ok, if out then m else [])
  | .unfinished => (.crcCorrupted, [])

variable {p : ReaderParams} {out : Bool} {r : RecordReader} {input : Bytes} {f : Piece} {rest : Bytes}

theorem length_skipRecord {r' : RecordReader} (h : skipRecord r = some r') :
    r'.content_.length < r.content_.length := by
  rw [skipRecord] at h
  split at h
  · rename_i flags x y z rest heq
    cases h
    rw [heq]
    simp
    omega
  · cases h

theorem skipRecord_piece (hf : f.data.length < 2 ^ 24) (hc : r.content_ = pieceBytes f ++ rest) :
    skipRecord r = some { r with content_ := rest, skip_record_ := f.cont } := by
  obtain ⟨x, y, z, hshape, hlen⟩ := pieceBytes_shape f hf
  rw [hshape] at hc
  have hcont : decide (flagsOf f &&& RecordFlags.hasCont ≠ 0) = f.cont := by
    rw [Bool.eq_iff_iff, decide_eq_true_iff, flagsOf_cont]
  simp only [skipRecord, hc, cons_append, hlen, hcont, drop_left]

/-- Turns that are allowed beyond those that are needed make no difference. -/
theorem skipRecords_enough {n m : Nat} (hn : r.content_.length < n) (hm : r.content_.length < m) :
    skipRecords m r = skipRecords n r := by
  induction n generalizing r m with
  | zero => omega
  | succ n ih =>
    cases m with
    | zero => omega
    | succ m =>
      rw [skipRecords, skipRecords]
      split_ifs with hmore
      · rcases hskip : skipRecord r with _ | r'
        · rfl
        · have hlt : r'.content_.length < r.content_.length := length_skipRecord hskip
          exact ih (by omega) (by omega)
      · rfl

/-- What a turn does at a piece is what the assembler does with it. -/
theorem readPiece_piece (hf : f.data.length < 2 ^ 24) (hskip : r.skip_record_ = false)
    (hc : r.content_ = pieceBytes f ++ rest) :
    readPiece p out r = some (match r.assembler.take f with
      | (some o, a) => .returned (resultOf out o).1 (resultOf out o).2 (r.set rest a)
      | (none, a) => .next (r.set rest a)) := by
  obtain ⟨x, y, z, hshape, hlen⟩ := pieceBytes_shape f hf
  rw [hshape] at hc
  have hnot : flagsOf f &&& RecordFlags.isFirst = 0 ↔ f.first = false := by
    rw [← not_iff_not, Bool.not_eq_false]
    exact flagsOf_first f
  have hcont : ¬ flagsOf f &&& RecordFlags.hasCont = 0 ↔ f.cont = true := flagsOf_cont f
  simp only [readPiece, hc, cons_append, hlen, drop_left, take_left, hcont, flagsOf_zipped, hnot,
    assembler, hskip, Assembler.take, ne_eq, Bool.not_eq_false]
  rw [if_neg Bool.false_ne_true]
  by_cases hbad : f.first = true ∧ ¬ r.record_content_ = []
  · rw [if_pos hbad, if_pos hbad]
    simp [set, resultOf]
  · rw [if_neg hbad, if_neg hbad]
    split_ifs <;> simp_all [set, resultOf]

/-! ## Calls -/

/-- A call of `ReadRecord` returns this, however many turns it is allowed beyond those that it may need. -/
def Returns (p : ReaderParams) (out : Bool) (r : RecordReader) (input : Bytes)
    (y : ReadResult × Bytes × RecordReader × Bytes) : Prop :=
  ∀ n, input.length + r.content_.length < n → readLoop p out n r input = some y

variable {y : ReadResult × Bytes × RecordReader × Bytes} {a : Assembler UInt8}

theorem Returns.readRecord (h : Returns p out r input y) : readRecord p out r input = some y :=
  h _ (Nat.lt_succ_self _)

/-- The loop on a content that has been read. -/
theorem readLoop_content (n : Nat) (hc : r.content_ ≠ []) : readLoop p out (n + 1) r input =
      (skipRecords (r.content_.length + 1) r).bind fun r =>
        if r.content_ = [] then readLoop p out n r input
        else (readPiece p out r).bind (Turn.andThen input fun r => readLoop p out n r input) := by
  have hnot : ¬ (ReadResult.ok = .crcBlockBroken ∧ r.record_content_ ≠ []) := by simp
  simp only [readLoop, if_neg hc, Option.bind_some, if_neg hnot, ne_eq, not_true_eq_false, if_false]

/-- A piece is taken, and the call goes on. -/
theorem Returns.take_none (hf : f.data.length < 2 ^ 24) (hc : r.content_ = pieceBytes f ++ rest)
    (ht : r.assembler.take f = (none, a)) (h : Returns p out (r.set rest a) input y) : Returns p out r input y := by
  have hlen : r.content_.length = f.data.length + 4 + rest.length := by rw [hc, length_append, length_pieceBytes]
  have hne : r.content_ ≠ [] := by
    intro hnil
    rw [hnil, length_nil] at hlen
    omega
  intro n hn
  obtain ⟨n, rfl⟩ : ∃ k, n = k + 1 := ⟨n - 1, by omega⟩
  rw [readLoop_content n hne]
  cases hskip : r.skip_record_ with
  | true =>
    have htake : r.set rest a = { r with content_ := rest, skip_record_ := f.cont } := by
      rw [assembler, hskip, Assembler.take, if_pos rfl, Prod.mk.injEq] at ht
      rw [← ht.2]
      rfl
    rw [skipRecords, if_pos ⟨hskip, hne⟩, skipRecord_piece hf hc, Option.bind_some, ← htake]
    by_cases hrest : rest = []
    · -- The content is used up, and the next turn reads a block.
      rw [hlen, show f.data.length + 4 + rest.length = (f.data.length + 3 + rest.length) + 1 by omega, skipRecords,
        if_neg (by simp [hrest]), Option.bind_some, if_pos (by simpa using hrest)]
      exact h n (by rw [set_content]; omega)
    · have hrestlen : (r.set rest a).content_.length = rest.length := rfl
      have hmore := h (n + 1) (by omega)
      rw [readLoop_content n (by simpa using hrest)] at hmore
      rw [← hmore]
      congr 1
      exact skipRecords_enough (by omega) (by omega)
  | false =>
    rw [skipRecords, if_neg (by simp [hskip]), Option.bind_some, if_neg hne, readPiece_piece hf hskip hc, ht]
    exact h n (by rw [set_content]; omega)

/-- A piece is taken, and the call returns. -/
theorem Returns.take_some (hf : f.data.length < 2 ^ 24) (hc : r.content_ = pieceBytes f ++ rest)
    {o : Assembled UInt8} (ht : r.assembler.take f = (some o, a)) :
    Returns p out r input ((resultOf out o).1, (resultOf out o).2, r.set rest a, input) := by
  have hne : r.content_ ≠ [] := by
    intro hnil
    have hlen := congrArg length (hnil.symm.trans hc)
    rw [length_nil, length_append, length_pieceBytes] at hlen
    omega
  have hskip : r.skip_record_ = false := by
    rw [← Bool.not_eq_true]
    intro hskip
    rw [assembler, hskip, Assembler.take, if_pos rfl] at ht
    cases ht
  intro n hn
  obtain ⟨n, rfl⟩ : ∃ k, n = k + 1 := ⟨n - 1, by omega⟩
  rw [readLoop_content n hne, skipRecords, if_neg (by simp [hskip]), Option.bind_some, if_neg hne,
    readPiece_piece hf hskip hc, ht]
  rfl

/-! ## Numbers in a block -/

theorem int32At_writeInt32 (x : Int32) (s : Bytes) : int32At (NumStreamer.writeInt32 x .bigEndian ++ s) = x := by
  have hlen : (writeInt32 x .bigEndian).length = 4 := writeNumber_length _ _ _
  have hnum : numberOf .bigEndian (writeInt32 x .bigEndian) = x.toUInt32.toNat :=
    numberOf_writeNumber .bigEndian (UInt32.toNat_lt x.toUInt32)
  rw [int32At, take_append_of_le_length (by omega), take_of_length_le (by omega), hnum, UInt32.ofNat_toNat]
  rfl

theorem writeInt32_int32At {s : Bytes} (h : 4 ≤ s.length) :
    NumStreamer.writeInt32 (int32At s) .bigEndian = s.take 4 := by
  have hlen : (s.take 4).length = 4 := by rw [length_take]; omega
  have hlt : beValue (s.take 4) < 2 ^ 32 := by
    have hlt := beValue_lt (s.take 4)
    rwa [hlen] at hlt
  have hback := beBytes_beValue (s.take 4)
  rw [hlen] at hback
  have hnat : (UInt32.ofNat (beValue (s.take 4))).toNat = beValue (s.take 4) := by
    rw [UInt32.toNat_ofNat', Nat.mod_eq_of_lt hlt]
  rw [int32At, writeInt32, writeNumber, numberOf, UInt32.toUInt32_toInt32]
  rw [hnat, hback]

/-! ## Blocks -/

/-- The checksum of a block. -/
def blockCrc (p : ReaderParams) (prev : Int32) (fs : List Piece) : Int32 :=
  p.computeCRC (RecordWriter.blockBody p.block_size_ (contentBytes fs) prev)

/-- A block, with the checksum of the block before. -/
def blockBytes (p : ReaderParams) (prev : Int32) (fs : List Piece) : Bytes :=
  RecordWriter.blockBody p.block_size_ (contentBytes fs) prev ++
    NumStreamer.writeInt32 (blockCrc p prev fs) .bigEndian

/-- The pieces fit in a block. -/
structure Fits (p : ReaderParams) (fs : List Piece) : Prop where
  size : p.block_size_ < kMaximumRecordBlockSize
  content : (contentBytes fs).length + kBlockTrailerEnd ≤ p.block_size_

/-- A block whose checksum is not that of its bytes. -/
structure Damaged (p : ReaderParams) (b : Bytes) : Prop where
  length : b.length = p.block_size_
  trailer : kBlockTrailerEnd ≤ p.block_size_
  differs : p.computeCRC (b.take (p.block_size_ - 4)) ≠ int32At (b.drop (p.block_size_ - 4))

variable {prev : Int32} {fs : List Piece} {b : Bytes}

theorem Fits.short (h : Fits p fs) : Short fs := by
  intro f hf
  have hlen := length_data_le hf
  have hsize := h.size
  have hcontent := h.content
  rw [kMaximumRecordBlockSize] at hsize
  omega

theorem Fits.length_body (h : Fits p fs) :
    (RecordWriter.blockBody p.block_size_ (contentBytes fs) prev).length = p.block_size_ - 4 := by
  have hcontent := h.content
  rw [kBlockTrailerEnd] at hcontent
  simp [RecordWriter.blockBody, writeInt32, kBlockTrailerEnd]
  omega

theorem Fits.length_block (h : Fits p fs) : (blockBytes p prev fs).length = p.block_size_ := by
  have hcontent := h.content
  rw [kBlockTrailerEnd] at hcontent
  rw [blockBytes, length_append, h.length_body, writeInt32, writeNumber_length]
  omega

/-- A block is read. -/
theorem readNextBlock_block (h : Fits p fs) (hc : r.content_ = []) (rest : Bytes) :
    readNextBlock p r (blockBytes p prev fs ++ rest) =
      some (if Broken prev r.prev_block_crc_ then .crcBlockBroken else .ok,
        { r with content_ := contentBytes fs, prev_block_crc_ := blockCrc p prev fs }, rest) := by
  have hlen := @Fits.length_block p prev fs h
  have hcontent := h.content
  have hsize := h.size
  rw [kBlockTrailerEnd] at hcontent
  rw [kMaximumRecordBlockSize] at hsize
  -- The three parts of a block, and the numbers in the trailer.
  set content := contentBytes fs with hcontentDef
  have hpad : (content ++ replicate (p.block_size_ - content.length - 12) 0).length = p.block_size_ - 12 := by
    rw [length_append, length_replicate]
    omega
  have hsplit : blockBytes p prev fs ++ rest =
      (content ++ replicate (p.block_size_ - content.length - 12) 0) ++
        (writeInt32 (Int32.ofNat content.length) .bigEndian ++
          (writeInt32 prev .bigEndian ++
            (writeInt32 (blockCrc p prev fs) .bigEndian ++ rest))) := by
    simp only [blockBytes, RecordWriter.blockBody, kBlockTrailerEnd, append_assoc, hcontentDef]
  have hfour : ∀ x : Int32, (writeInt32 x .bigEndian).length = 4 := fun x =>
    writeNumber_length _ _ _
  have htoInt : (Int32.ofNat content.length).toInt = content.length := Int32.toInt_ofNat_of_lt (by omega)
  have hdrop : (blockBytes p prev fs ++ rest).drop p.block_size_ = rest := by rw [← hlen, drop_left]
  have hshort : ¬ (blockBytes p prev fs ++ rest).length < p.block_size_ := by
    rw [length_append, hlen]
    omega
  rw [readNextBlock, if_neg hshort, if_neg (by rw [kBlockTrailerEnd]; omega)]
  simp only [hdrop, kBlockTrailerEnd]
  rw [hsplit, drop_left' hpad, take_left' hpad, int32At_writeInt32, drop_left' (hfour _),
    int32At_writeInt32, show (8 : Nat) = 4 + 4 from rfl, ← drop_drop, drop_left' (hfour _),
    drop_left' (hfour _), int32At_writeInt32]
  have hcrc : p.computeCRC (content ++ replicate (p.block_size_ - content.length - 12) 0 ++
      writeInt32 (Int32.ofNat content.length) .bigEndian ++ writeInt32 prev .bigEndian) =
      blockCrc p prev fs := rfl
  have hok : ¬ (blockCrc p prev fs ≠ blockCrc p prev fs ∨
      (p.block_size_ - kBlockTrailerEnd : Int) < content.length) := by
    rw [kBlockTrailerEnd, not_or, not_not]
    exact ⟨rfl, by omega⟩
  rw [acceptBlock, hcrc, htoInt, if_neg hok, if_neg (show ¬ ((content.length : Int) < 0) by omega)]
  simp only [Int.toNat_natCast, hc, nil_append, append_assoc, take_left]

/-- A block that is damaged is left out. -/
theorem readNextBlock_damaged (h : Damaged p b) (rest : Bytes) :
    readNextBlock p r (b ++ rest) = some (.crcCorrupted, r, rest) := by
  have hlen := h.length
  have htrailer := h.trailer
  rw [kBlockTrailerEnd] at htrailer
  have hdrop : (b ++ rest).drop p.block_size_ = rest := by rw [← hlen, drop_left]
  rw [readNextBlock, if_neg (by rw [length_append]; omega), if_neg (by rw [kBlockTrailerEnd]; omega)]
  simp only [hdrop, kBlockTrailerEnd]
  -- The numbers that are written again are the bytes of the block.
  have htemp : (b ++ rest).take (p.block_size_ - 12) ++
      writeInt32 (int32At ((b ++ rest).drop (p.block_size_ - 12))) .bigEndian ++
        writeInt32 (int32At (((b ++ rest).drop (p.block_size_ - 12)).drop 4)) .bigEndian =
      b.take (p.block_size_ - 4) := by
    rw [writeInt32_int32At (by simp; omega), writeInt32_int32At (by simp; omega), append_assoc, ← take_add,
      ← take_add, take_append_of_le_length (by omega)]
    congr 1
    omega
  have hcrc : int32At (((b ++ rest).drop (p.block_size_ - 12)).drop 8) = int32At (b.drop (p.block_size_ - 4)) := by
    rw [drop_drop, show p.block_size_ - 12 + 8 = p.block_size_ - 4 by omega,
      drop_append_of_le_length (by omega), int32At, int32At,
      take_append_of_le_length (by rw [length_drop]; omega)]
  rw [acceptBlock, htemp, hcrc, if_pos (Or.inl h.differs)]

end RecordReader

end Whispercast.Logio
