import Whispercast.Logio.Blocks

/-!
# What is read from stored blocks

A stream of blocks, whole or damaged, is given to a `RecordReader` in arbitrary pieces. What repeated calls of
`ReadRecord` give is `readAll` of the blocks: the assembler on the pieces of each block, the errors for blocks that
are damaged or out of order, and a skip where a record was pending when the chain of checksums broke.
-/

namespace Whispercast.Logio

open Io Library RecordReader List Option

/-- A block in the stream. -/
inductive Stored where
  | block (prev : Int32) (fs : List Piece)
  | damaged (b : Bytes)

namespace Stored

def bytes (p : ReaderParams) : Stored → Bytes
  | .block prev fs => blockBytes p prev fs
  | .damaged b => b

/-- The block can be written, or is damaged indeed. -/
def Ok (p : ReaderParams) : Stored → Prop
  | .block _ fs => Fits p fs
  | .damaged b => Damaged p b

end Stored

namespace RecordReader

/-- The results for what an assembler gives. -/
def resultsOf (os : List (Assembled UInt8)) : List (ReadResult × Bytes) := os.map (resultOf true)

/-- What a block gives to a reader with this assembler and this checksum of the last block. -/
def readStored (p : ReaderParams) (a : Assembler UInt8) (last : Int32) :
    Stored → List (ReadResult × Bytes) × Assembler UInt8 × Int32
  | .damaged _ => ([(.crcCorrupted, [])], a, last)
  | .block prev fs =>
    let crc := blockCrc p prev fs
    if Broken prev last then
      if a.pending = [] then ((.crcBlockBroken, []) :: resultsOf (a.assemble fs).1, (a.assemble fs).2, crc)
      else (resultsOf (Assembler.assemble { a with skip := true } fs).1,
        (Assembler.assemble { a with skip := true } fs).2, crc)
    else (resultsOf (a.assemble fs).1, (a.assemble fs).2, crc)

/-- What blocks give one after another. -/
def readAll (p : ReaderParams) : Assembler UInt8 → Int32 → List Stored →
    List (ReadResult × Bytes) × Assembler UInt8 × Int32
  | a, last, [] => ([], a, last)
  | a, last, s :: ss =>
    let (results, a, last) := readStored p a last s
    let (results', a, last) := readAll p a last ss
    (results ++ results', a, last)

theorem readAll_cons (p : ReaderParams) (a : Assembler UInt8) (last : Int32) (s : Stored) (ss : List Stored) :
    readAll p a last (s :: ss) =
      ((readStored p a last s).1 ++
          (readAll p (readStored p a last s).2.1 (readStored p a last s).2.2 ss).1,
        (readAll p (readStored p a last s).2.1 (readStored p a last s).2.2 ss).2) := rfl

theorem readAll_append (p : ReaderParams) (a : Assembler UInt8) (last : Int32) (ss ts : List Stored) :
    readAll p a last (ss ++ ts) =
      ((readAll p a last ss).1 ++ (readAll p (readAll p a last ss).2.1 (readAll p a last ss).2.2 ts).1,
        (readAll p (readAll p a last ss).2.1 (readAll p a last ss).2.2 ts).2) := by
  induction ss generalizing a last with
  | nil => simp [readAll]
  | cons s ss ih => simp [readAll_cons, ih]

variable {p : ReaderParams} {out : Bool} {r r' : RecordReader} {input input' : Bytes} {a : Assembler UInt8}
  {y : ReadResult × Bytes × RecordReader × Bytes} {results : List (ReadResult × Bytes)}

/-! ## Calls that read a block -/

/-- A block is read, and the call goes on with its pieces; a record that was pending is skipped where the chain is
broken. -/
theorem Returns.block {prev : Int32} {fs : List Piece} (h : Fits p fs) (hc : r.content_ = []) (rest : Bytes)
    (hok : ¬ (Broken prev r.prev_block_crc_ ∧ r.record_content_ = []))
    (hgo : Returns p out
      { r with
        content_ := contentBytes fs, prev_block_crc_ := blockCrc p prev fs
        skip_record_ := decide (Broken prev r.prev_block_crc_) || r.skip_record_ } rest y) :
    Returns p out r (blockBytes p prev fs ++ rest) y := by
  have hlen := @Fits.length_block p prev fs h
  have hcontent := h.content
  rw [kBlockTrailerEnd] at hcontent
  intro n hn
  rw [length_append, hlen] at hn
  obtain ⟨n, rfl⟩ : ∃ k, n = k + 1 := ⟨n - 1, by omega⟩
  rw [readLoop, if_pos hc, readNextBlock_block h hc, bind_some]
  by_cases hfs : contentBytes fs = []
  · -- Nothing is in the block, so that the next turn reads another one.
    have hnext := hgo n (by rw [hfs, length_nil]; omega)
    rw [← hnext]
    by_cases hbroken : Broken prev r.prev_block_crc_
    · have hpending : r.record_content_ ≠ [] := fun hnil => hok ⟨hbroken, hnil⟩
      simp [hbroken, hpending, hfs, skipRecords]
    · simp [hbroken, hfs, skipRecords]
  · have hnext := hgo (n + 1) (by dsimp only; omega)
    rw [readLoop_content n hfs] at hnext
    rw [← hnext]
    by_cases hbroken : Broken prev r.prev_block_crc_
    · have hpending : r.record_content_ ≠ [] := fun hnil => hok ⟨hbroken, hnil⟩
      simp [hbroken, hpending]
    · simp [hbroken]

/-- A block that is out of order is reported when no record is pending; it is read all the same. -/
theorem Returns.broken {prev : Int32} {fs : List Piece} (h : Fits p fs) (hc : r.content_ = []) (rest : Bytes)
    (hbroken : Broken prev r.prev_block_crc_) (hpending : r.record_content_ = []) :
    Returns p out r (blockBytes p prev fs ++ rest) (.crcBlockBroken, [],
      { r with content_ := contentBytes fs, prev_block_crc_ := blockCrc p prev fs }, rest) := by
  intro n hn
  obtain ⟨n, rfl⟩ : ∃ k, n = k + 1 := ⟨n - 1, by omega⟩
  rw [readLoop, if_pos hc, readNextBlock_block h hc, bind_some]
  simp [hbroken, hpending]

theorem Returns.damaged {b : Bytes} (h : Damaged p b) (hc : r.content_ = []) (rest : Bytes) :
    Returns p out r (b ++ rest) (.crcCorrupted, [], r, rest) := by
  intro n hn
  obtain ⟨n, rfl⟩ : ∃ k, n = k + 1 := ⟨n - 1, by omega⟩
  rw [readLoop, if_pos hc, readNextBlock_damaged h, bind_some]
  simp

theorem Returns.noData (hc : r.content_ = []) (h : input.length < p.block_size_) :
    Returns p out r input (.noData, [], r, input) := by
  intro n hn
  obtain ⟨n, rfl⟩ : ∃ k, n = k + 1 := ⟨n - 1, by omega⟩
  rw [readLoop, if_pos hc, readNextBlock, if_pos h, bind_some]
  simp

/-! ## Repeated calls -/

/-- What is left to be read. -/
def left (r : RecordReader) (input : Bytes) : Nat := input.length + r.content_.length

/-- Repeated calls up to `READ_NO_DATA`, each of which makes less of what is left. -/
inductive Drains (p : ReaderParams) :
    RecordReader → Bytes → List (ReadResult × Bytes) → RecordReader → Bytes → Prop where
  | done {r r' : RecordReader} {input input' : Bytes} (h : Returns p true r input (.noData, [], r', input')) :
      Drains p r input [] r' input'
  | more {r r' r'' : RecordReader} {input input' input'' : Bytes} {result : ReadResult} {data : Bytes}
      {results : List (ReadResult × Bytes)} (h : Returns p true r input (result, data, r', input'))
      (hresult : result ≠ .noData) (hlt : left r' input' < left r input) (hrest : Drains p r' input' results r'' input'') :
      Drains p r input ((result, data) :: results) r'' input''

section

variable (h : Drains p r input results r' input')

include h

theorem Drains.length_le : results.length ≤ left r input := by
  induction h with
  | done => exact Nat.zero_le _
  | more _ _ hlt _ ih => simp only [length_cons]; omega

theorem Drains.drainLoop {n : Nat} (hn : results.length < n) : drainLoop p n r input = some (results, r', input') := by
  induction h generalizing n with
  | done h =>
    obtain ⟨n, rfl⟩ : ∃ k, n = k + 1 := ⟨n - 1, by omega⟩
    rw [RecordReader.drainLoop, h.readRecord, bind_some]
    simp
  | more h hresult _ _ ih =>
    obtain ⟨n, rfl⟩ : ∃ k, n = k + 1 := ⟨n - 1, by omega⟩
    rw [length_cons] at hn
    rw [RecordReader.drainLoop, h.readRecord, bind_some]
    simp [hresult, ih (show _ < n by omega)]

theorem Drains.drain : drain p r input = some (results, r', input') :=
  h.drainLoop (Nat.lt_succ_of_le h.length_le)

end

/-- A call that does some work before it goes on as another one would. -/
theorem Drains.of_goes_on {s : RecordReader} {input'' : Bytes}
    (hgo : ∀ y, Returns p true s input'' y → Returns p true r input y) (hle : left s input'' ≤ left r input)
    (h : Drains p s input'' results r' input') : Drains p r input results r' input' := by
  cases h with
  | done h => exact .done (hgo _ h)
  | more h hresult hlt hrest => exact .more (hgo _ h) hresult (by omega) hrest

/-- The pieces of a block are taken as the assembler takes them. -/
theorem Drains.content {fs : List Piece} (hshort : Short fs) (hc : r.content_ = contentBytes fs)
    (h : Drains p (r.set [] (r.assembler.assemble fs).2) input results r' input') :
    Drains p r input (resultsOf (r.assembler.assemble fs).1 ++ results) r' input' := by
  induction fs generalizing r with
  | nil =>
    rw [contentBytes_nil] at hc
    have hset : r.set [] r.assembler = r := by rw [← hc]; rfl
    rwa [Assembler.assemble_nil, hset] at h
  | cons f fs ih =>
    have hf := hshort f mem_cons_self
    have hshort' : Short fs := fun g hg => hshort g (mem_cons_of_mem _ hg)
    rw [contentBytes_cons] at hc
    have hlen : r.content_.length = f.data.length + 4 + (contentBytes fs).length := by
      rw [hc, length_append, length_pieceBytes]
    rcases htake : r.assembler.take f with ⟨o, a⟩
    rw [Assembler.assemble_cons, htake] at h ⊢
    have hrest := ih (r := r.set (contentBytes fs) a) hshort' rfl h
    have hlt : left (r.set (contentBytes fs) a) input < left r input := by
      rw [left, left, set_content]
      omega
    cases o with
    | none => exact hrest.of_goes_on (fun y hy => hy.take_none hf hc htake) hlt.le
    | some o =>
      have hne : (resultOf true o).1 ≠ .noData := by cases o <;> simp [resultOf]
      exact .more (Returns.take_some hf hc htake) hne hlt hrest

/-- A block gives what `readStored` says. -/
theorem Drains.stored {s : Stored} (hs : s.Ok p) (hc : r.content_ = []) (rest : Bytes) (hpos : 0 < p.block_size_)
    (h : Drains p { r with
        record_content_ := (readStored p r.assembler r.prev_block_crc_ s).2.1.pending
        skip_record_ := (readStored p r.assembler r.prev_block_crc_ s).2.1.skip
        prev_block_crc_ := (readStored p r.assembler r.prev_block_crc_ s).2.2 } rest results r' input') :
    Drains p r (s.bytes p ++ rest) ((readStored p r.assembler r.prev_block_crc_ s).1 ++ results) r' input' := by
  cases s with
  | damaged b =>
    have hb : Damaged p b := hs
    refine .more (Returns.damaged hb hc rest) (by simp) ?_ h
    rw [left, left, Stored.bytes, length_append, hb.length]
    omega
  | block prev fs =>
    have hfits : Fits p fs := hs
    have hlen := @Fits.length_block p prev fs hfits
    have hcontent := hfits.content
    rw [kBlockTrailerEnd] at hcontent
    have hle : ∀ t : RecordReader, t.content_ = contentBytes fs →
        left t rest < left r (blockBytes p prev fs ++ rest) := by
      intro t ht
      rw [left, left, ht, length_append, hlen]
      omega
    rw [Stored.bytes]
    by_cases hbad : Broken prev r.prev_block_crc_ ∧ r.record_content_ = []
    · have hread : readStored p r.assembler r.prev_block_crc_ (.block prev fs) =
          ((.crcBlockBroken, []) :: resultsOf (r.assembler.assemble fs).1, (r.assembler.assemble fs).2,
            blockCrc p prev fs) := by
        rw [readStored, if_pos hbad.1]
        exact if_pos hbad.2
      rw [hread] at h ⊢
      rw [cons_append]
      have hrest := Drains.content (r := { r with
        content_ := contentBytes fs, prev_block_crc_ := blockCrc p prev fs }) hfits.short rfl
        (by simpa only [set, assembler, hc] using h)
      exact .more (Returns.broken hfits hc rest hbad.1 hbad.2) (by simp) (hle _ rfl) hrest
    · have hread : readStored p r.assembler r.prev_block_crc_ (.block prev fs) =
          (resultsOf (Assembler.assemble ⟨r.record_content_,
              decide (Broken prev r.prev_block_crc_) || r.skip_record_⟩ fs).1,
            (Assembler.assemble ⟨r.record_content_,
              decide (Broken prev r.prev_block_crc_) || r.skip_record_⟩ fs).2, blockCrc p prev fs) := by
        rw [readStored]
        by_cases hbroken : Broken prev r.prev_block_crc_
        · have hpending : ¬ r.assembler.pending = [] := fun hnil => hbad ⟨hbroken, hnil⟩
          rw [if_pos hbroken, if_neg hpending]
          simp [hbroken, assembler]
        · rw [if_neg hbroken]
          simp [hbroken, assembler]
      rw [hread] at h ⊢
      have hrest := Drains.content (r := { r with
        content_ := contentBytes fs, prev_block_crc_ := blockCrc p prev fs
        skip_record_ := decide (Broken prev r.prev_block_crc_) || r.skip_record_ }) hfits.short rfl
        (by simpa only [set, assembler, hc] using h)
      exact hrest.of_goes_on (fun y hy => Returns.block hfits hc rest hbad hy) (hle _ rfl).le

/-! ## Streams of blocks -/

/-- A reader between two blocks. -/
def between (a : Assembler UInt8) (last : Int32) : RecordReader where
  record_content_ := a.pending
  prev_block_crc_ := last
  skip_record_ := a.skip

variable {ss : List Stored} {last : Int32} {tail : Bytes}

theorem Stored.Ok.length {s : Stored} (h : s.Ok p) : (s.bytes p).length = p.block_size_ := by
  cases s with
  | block prev fs =>
    have hfits : Fits p fs := h
    exact hfits.length_block
  | damaged b =>
    have hb : Damaged p b := h
    exact hb.length

section

variable (hss : ∀ s ∈ ss, s.Ok p) (htail : tail.length < p.block_size_)

include hss htail

/-- All blocks of a stream are read. -/
theorem drains_all : Drains p (between a last) (ss.flatMap (Stored.bytes p) ++ tail) (readAll p a last ss).1
      (between (readAll p a last ss).2.1 (readAll p a last ss).2.2) tail := by
  induction ss generalizing a last with
  | nil => exact .done (Returns.noData rfl htail)
  | cons s ss ih =>
    have hrest := @ih (readStored p a last s).2.1 (readStored p a last s).2.2
      fun t ht => hss t (mem_cons_of_mem _ ht)
    rw [flatMap_cons, append_assoc, readAll_cons]
    exact Drains.stored (r := between a last) (hss s mem_cons_self) rfl _ (by omega) hrest

/-- What has arrived of a stream of blocks is some blocks and less than a block. -/
theorem split_blocks {x y : Bytes} (h : x ++ y = ss.flatMap (Stored.bytes p) ++ tail) :
    ∃ ss₁ ss₂ x', ss = ss₁ ++ ss₂ ∧ x = ss₁.flatMap (Stored.bytes p) ++ x' ∧ x'.length < p.block_size_ ∧
      x' ++ y = ss₂.flatMap (Stored.bytes p) ++ tail := by
  induction ss generalizing x with
  | nil =>
    have hlen := congrArg length h
    rw [flatMap_nil, nil_append, length_append] at hlen
    exact ⟨[], [], x, rfl, rfl, by omega, h⟩
  | cons s ss ih =>
    by_cases hx : x.length < p.block_size_
    · exact ⟨[], s :: ss, x, rfl, rfl, hx, h⟩
    · have hlen := Stored.Ok.length (hss s mem_cons_self)
      rw [flatMap_cons, append_assoc] at h
      obtain ⟨x', rfl⟩ : s.bytes p <+: x :=
        prefix_of_prefix_length_le ⟨_, rfl⟩ (h ▸ prefix_append x y) (by omega)
      rw [append_assoc] at h
      obtain ⟨ss₁, ss₂, x'', rfl, rfl, hx'', hrest⟩ :=
        ih (fun t ht => hss t (mem_cons_of_mem _ ht)) (append_cancel_left h)
      exact ⟨s :: ss₁, ss₂, x'', rfl, by rw [flatMap_cons, append_assoc], hx'', hrest⟩

/-- A stream of blocks gives the same however it is cut. -/
theorem feed_all (pieces : List Bytes) {rest : Bytes}
    (hrest : rest.length < p.block_size_) (h : rest ++ pieces.flatten = ss.flatMap (Stored.bytes p) ++ tail) :
    feed p pieces (between a last) rest = some (readAll p a last ss).1 := by
  induction pieces generalizing a last rest ss with
  | nil =>
    -- Less than a block holds no block.
    cases ss with
    | nil => rfl
    | cons s ss =>
      have hlen := congrArg length h
      have hs := Stored.Ok.length (hss s mem_cons_self)
      rw [flatten_nil, append_nil, flatMap_cons, length_append, length_append, hs] at hlen
      omega
  | cons piece pieces ih =>
    rw [flatten_cons, ← append_assoc] at h
    obtain ⟨ss₁, _, rest', rfl, hsplit, hrest', hnext⟩ := split_blocks hss htail h
    have hread := (@drains_all p a ss₁ last rest' (fun s hs => hss s (mem_append_left _ hs)) hrest').drain
    rw [← hsplit] at hread
    rw [feed, hread, bind_some]
    dsimp only
    rw [ih (fun s hs => hss s (mem_append_right _ hs)) hrest' hnext, readAll_append]
    rfl

end

end RecordReader

end Whispercast.Logio
