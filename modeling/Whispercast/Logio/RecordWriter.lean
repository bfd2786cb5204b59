import Whispercast.Io.NumStreaming

/-!
# Writing records

Model of `io::RecordWriter` (`common/io/logio/recordio.cc`). Records are cut into pieces, and pieces are collected in
blocks of one size. The output of a call is what it appends to the stream that it is given. zlib's `crc32` and
`ZlibDeflateWrapper::Deflate` are parameters. A `CHECK` that fails is `none`.
-/

namespace Whispercast.Logio

open Io List NumStreamer

/-- `RecordWriter::kBlockTrailerEnd`: the size of the content, the checksum of the block before, and the checksum. -/
def kBlockTrailerEnd : Nat := 12

def kRecordHeaderSize : Nat := 4

def kMaximumRecordBlockSize : Nat := 0xFFFFFF

namespace RecordFlags

def hasCont : UInt8 := 1
def isZipped : UInt8 := 2
def isFirst : UInt8 := 4

end RecordFlags

/-- What a `RecordWriter` is made with. -/
structure WriterParams where
  block_size_ : Nat
  dumpable_size_ : Nat
  /-- `ComputeCRC`. -/
  computeCRC : Bytes → Int32
  /-- `Deflate` of a whole record, if `zlib_ != NULL`. -/
  deflate : Option (Bytes → Bytes) := none

structure RecordWriter where
  content_ : Bytes := []
  content_record_count_ : Nat := 0
  prev_block_crc_ : Int32 := 0
  deriving DecidableEq

namespace RecordWriter

/-- The constructor. -/
def new (p : WriterParams) : Option RecordWriter := if p.block_size_ < kMaximumRecordBlockSize then some {} else none

/-- A block but for its checksum. -/
def blockBody (blockSize : Nat) (content : Bytes) (prevCrc : Int32) : Bytes :=
  content ++ List.replicate (blockSize - content.length - kBlockTrailerEnd) 0 ++
    NumStreamer.writeInt32 (Int32.ofNat content.length) .bigEndian ++ NumStreamer.writeInt32 prevCrc .bigEndian

def finalizeContent (p : WriterParams) (w : RecordWriter) : Option (Bytes × RecordWriter) :=
  if w.content_ = [] then some ([], w)
  else if p.block_size_ < w.content_.length + kBlockTrailerEnd then none
  else
    let body := blockBody p.block_size_ w.content_ w.prev_block_crc_
    let crc := p.computeCRC body
    some (body ++ NumStreamer.writeInt32 crc .bigEndian, { prev_block_crc_ := crc })

/-- A piece of a record is written to the block. -/
def putPiece (w : RecordWriter) (flags : UInt8) (data : Bytes) : RecordWriter :=
  { w with
    content_ := w.content_ ++ flags :: (NumStreamer.writeUInt24 data.length .bigEndian ++ data)
    content_record_count_ := w.content_record_count_ + 1 }

/-- The loop of `AppendRecord`: what is put out, and `written_block_count`. -/
def appendLoop (p : WriterParams) : Nat → Bool → Bytes → RecordWriter → Option (Bytes × Nat × RecordWriter)
  | 0, _, _, _ => none
  | n + 1, is_first, data, w =>
    if p.block_size_ ≤ kBlockTrailerEnd + kRecordHeaderSize + w.content_.length then none
    else
      let available := p.block_size_ - kBlockTrailerEnd - kRecordHeaderSize - w.content_.length
      let first := if is_first then RecordFlags.isFirst else 0
      if data.length ≤ available then some ([], 0, w.putPiece first data)
      else
        (finalizeContent p (w.putPiece (RecordFlags.hasCont ||| first) (data.take available))).bind
          fun (block, w) => (appendLoop p n false (data.drop available) w).map
            fun (out, written_block_count, w) => (block ++ out, written_block_count + 1, w)

/-- The part of `AppendRecord` behind the loop. -/
def maybeDump (p : WriterParams) : Bytes × Nat × RecordWriter → Option (Bool × Bytes × RecordWriter)
  | (out, written_block_count, w) =>
    if p.dumpable_size_ < w.content_.length then
      (finalizeContent p w).map fun (block, w) => (true, out ++ block, w)
    else some (decide (1 ≤ written_block_count), out, w)

/-- The loop of `AppendRecord(in, out, is_zipped)`, which writes nothing for an empty stream. -/
def streamLoop (p : WriterParams) (data : Bytes) (w : RecordWriter) : Option (Bytes × Nat × RecordWriter) :=
  if data = [] then some ([], 0, w) else appendLoop p (data.length + 1) true data w

/-- The loop that a call of `AppendRecord(buffer, size, out)` runs: its own, or that of the other function on the
compressed record. -/
def bufferLoop (p : WriterParams) (data : Bytes) (w : RecordWriter) : Option (Bytes × Nat × RecordWriter) :=
  match p.deflate with
  | some deflate => streamLoop p (deflate data) w
  | none => appendLoop p (data.length + 1) true data w

/-- The loop that a call of `AppendRecord(in, out)` runs. -/
def recordLoop (p : WriterParams) (data : Bytes) (w : RecordWriter) : Option (Bytes × Nat × RecordWriter) :=
  match p.deflate with
  | some deflate => streamLoop p (deflate data) w
  | none => streamLoop p data w

/-- `AppendRecord(buffer, size, out)`. -/
def appendBuffer (p : WriterParams) (data : Bytes) (w : RecordWriter) : Option (Bool × Bytes × RecordWriter) :=
  (bufferLoop p data w).bind (maybeDump p)

/-- `AppendRecord(in, out)`. -/
def appendStream (p : WriterParams) (data : Bytes) (w : RecordWriter) : Option (Bool × Bytes × RecordWriter) :=
  (recordLoop p data w).bind (maybeDump p)

/-! ## The two entry points -/

variable {p : WriterParams} {w : RecordWriter} {data : Bytes}

/-- A writer that has more under way than a block holds, and wants to put it out. No `AppendRecord` leaves one. -/
def Overfull (p : WriterParams) (w : RecordWriter) : Prop :=
  p.dumpable_size_ < w.content_.length ∧ p.block_size_ < w.content_.length + kBlockTrailerEnd

/-- A record with bytes goes through the same loop on both ways, and so does everything that is compressed. -/
theorem bufferLoop_eq_recordLoop (h : data ≠ [] ∨ p.deflate ≠ none) (w : RecordWriter) :
    bufferLoop p data w = recordLoop p data w := by
  cases hdeflate : p.deflate with
  | some deflate => simp only [bufferLoop, recordLoop, hdeflate]
  | none =>
    have hdata : data ≠ [] := by
      rcases h with h | h
      · exact h
      · exact absurd hdeflate h
    simp only [bufferLoop, recordLoop, hdeflate, streamLoop, if_neg hdata]

/-- Without compression the stream entry point writes nothing for the empty record. -/
theorem appendStream_nil (hdeflate : p.deflate = none) (w : RecordWriter) :
    appendStream p [] w = maybeDump p ([], 0, w) := by
  simp [appendStream, recordLoop, hdeflate, streamLoop]

/-- The other one writes the header of a piece. -/
theorem appendBuffer_nil (hdeflate : p.deflate = none)
    (hroom : kBlockTrailerEnd + kRecordHeaderSize + w.content_.length < p.block_size_) :
    appendBuffer p [] w = maybeDump p ([], 0, w.putPiece RecordFlags.isFirst []) := by
  rw [appendBuffer, bufferLoop, hdeflate]
  simp [appendLoop, Nat.not_le.2 hroom]

theorem appendBuffer_nil_full (hdeflate : p.deflate = none)
    (hroom : p.block_size_ ≤ kBlockTrailerEnd + kRecordHeaderSize + w.content_.length) :
    appendBuffer p [] w = none := by
  rw [appendBuffer, bufferLoop, hdeflate]
  simp [appendLoop, hroom]

theorem length_content_putPiece (w : RecordWriter) (flags : UInt8) (data : Bytes) :
    (w.putPiece flags data).content_.length = w.content_.length + kRecordHeaderSize + data.length := by
  simp [putPiece, writeUInt24, kRecordHeaderSize]
  omega

theorem maybeDump_eq_none_iff (out : Bytes) (n : Nat) : maybeDump p (out, n, w) = none ↔ Overfull p w := by
  rw [maybeDump, Overfull]
  by_cases hdump : p.dumpable_size_ < w.content_.length
  · have hcontent : w.content_ ≠ [] := ne_nil_of_length_pos (by omega)
    rw [if_pos hdump, finalizeContent, if_neg hcontent]
    by_cases hsize : p.block_size_ < w.content_.length + kBlockTrailerEnd <;> simp [hdump, hsize]
  · simp [hdump]

/-- Two blocks whose contents are a header apart are different in the number that gives the size. -/
theorem blockBody_ne {content content' : Bytes} {prev prev' : Int32} {tail tail' : Bytes} (blockSize : Nat)
    (hlen : content'.length = content.length + kRecordHeaderSize)
    (hsize : content'.length + kBlockTrailerEnd ≤ blockSize) :
    blockBody blockSize content prev ++ tail ≠ blockBody blockSize content' prev' ++ tail' := by
  intro heq
  have hcut : ∀ (u : Bytes) (v : Int32) (t : Bytes), u.length + kBlockTrailerEnd ≤ blockSize →
      ((blockBody blockSize u v ++ t).drop (blockSize - kBlockTrailerEnd)).take 4 =
        writeInt32 (Int32.ofNat u.length) .bigEndian := by
    intro u v t hu
    have hpad : (u ++ replicate (blockSize - u.length - kBlockTrailerEnd) 0).length =
        blockSize - kBlockTrailerEnd := by
      rw [length_append, length_replicate]
      omega
    rw [blockBody, append_assoc, append_assoc, drop_left' hpad]
    exact take_left' (by simp [writeInt32])
  have hnumbers := hcut content prev tail (by omega)
  rw [heq, hcut content' prev' tail' hsize] at hnumbers
  have hsame : Int32.ofNat content'.length = Int32.ofNat content.length := by
    -- Both numbers are read from the same bytes.
    have hread := readInt32_gets (σ := Unit) (Int32.ofNat content'.length) .bigEndian []
    rw [hnumbers, readInt32_gets] at hread
    simpa using hread.symm
  have hmod := congrArg (fun x : Int32 => x.toBitVec.toNat) hsame
  simp only [Int32.toBitVec_ofNat', BitVec.toNat_ofNat] at hmod
  rw [kRecordHeaderSize] at hlen
  omega

/-- The two entry points agree on a record that has bytes, and on every record that is compressed. They never agree on
the empty record, a writer apart that is beyond help. -/
theorem appendBuffer_eq_appendStream_iff (p : WriterParams) (data : Bytes) (w : RecordWriter) :
    appendBuffer p data w = appendStream p data w ↔ data ≠ [] ∨ p.deflate ≠ none ∨ Overfull p w := by
  by_cases hsame : data ≠ [] ∨ p.deflate ≠ none
  · have hagree : appendBuffer p data w = appendStream p data w := by
      rw [appendBuffer, appendStream, bufferLoop_eq_recordLoop hsame]
    simp only [hagree, true_iff]
    rcases hsame with h | h
    · exact Or.inl h
    · exact Or.inr (Or.inl h)
  · obtain ⟨rfl, hdeflate⟩ : data = [] ∧ p.deflate = none := by
      rwa [not_or, not_not, not_not] at hsame
    have hcond : ([] : Bytes) ≠ [] ∨ p.deflate ≠ none ∨ Overfull p w ↔ Overfull p w := by simp [hdeflate]
    rw [hcond, appendStream_nil hdeflate]
    by_cases hroom : p.block_size_ ≤ kBlockTrailerEnd + kRecordHeaderSize + w.content_.length
    · -- The buffer entry point is aborted.
      rw [appendBuffer_nil_full hdeflate hroom, eq_comm, maybeDump_eq_none_iff]
    · rw [Nat.not_le] at hroom
      rw [appendBuffer_nil hdeflate hroom]
      have hfull : ¬ Overfull p w := by
        intro h
        have hsize := h.2
        omega
      simp only [hfull, iff_false]
      have hlen : (w.putPiece RecordFlags.isFirst []).content_.length = w.content_.length + kRecordHeaderSize :=
        length_content_putPiece w _ []
      have hfits : (w.putPiece RecordFlags.isFirst []).content_.length + kBlockTrailerEnd ≤ p.block_size_ := by omega
      by_cases hdump : p.dumpable_size_ < w.content_.length
      · -- Both put out a block, with different sizes in it.
        rw [maybeDump, maybeDump, if_pos hdump, if_pos (by omega), finalizeContent, finalizeContent,
          if_neg (ne_nil_of_length_pos (by omega)), if_neg (ne_nil_of_length_pos (by omega)),
          if_neg (by omega), if_neg (by omega)]
        intro heq
        simp only [Option.map_some, Option.some.injEq, Prod.mk.injEq, true_and, nil_append] at heq
        exact blockBody_ne p.block_size_ hlen hfits heq.1.symm
      · rw [maybeDump, maybeDump, if_neg hdump]
        split_ifs with hdump'
        · intro heq
          obtain ⟨y, -, hy⟩ := Option.map_eq_some_iff.1 heq
          simp at hy
        · intro heq
          have hcontent := congrArg (fun r : Option (Bool × Bytes × RecordWriter) =>
            r.elim 0 fun r => r.2.2.content_.length) heq
          simp only [Option.elim_some] at hcontent
          rw [kRecordHeaderSize] at hlen
          omega

/-- The empty record of a new writer: a header from the buffer, nothing from the stream. -/
theorem appendBuffer_ne_appendStream_empty :
    appendBuffer ⟨64, 40, fun _ => 0, none⟩ [] {} = some (false, [], ⟨[4, 0, 0, 0], 1, 0⟩) ∧
      appendStream ⟨64, 40, fun _ => 0, none⟩ [] {} = some (false, [], {}) := by
  decide

end RecordWriter

end Whispercast.Logio
