import Whispercast.Library.Run
import Whispercast.Logio.LogReader

/-!
# Seeking with a reader that was used before

`Seek` clears the content of the record reader, but neither a half-assembled record nor the checksum of the last
block. Where these do no harm, what is read after a seek does not depend on what was read before it.
-/

namespace Whispercast.Logio

open Io Library RecordReader LogReader Option

/-! ## Runs of a reader -/

/-- A call of a `LogReader`. -/
inductive ReaderCall where
  | getNextRecord
  | seek (pos : LogPos)
  | rewind

/-- One call. -/
def LogReader.step (p : LogParams) (d : Disk) (r : LogReader) : ReaderCall → Option LogReader
  | .getNextRecord => (getNextRecord p d r).map fun (_, _, r) => r
  | .seek pos => (seek p d pos r).map Prod.snd
  | .rewind => some (rewind d r)

/-- What calls of `GetNextRecord` give. -/
def LogReader.outputs (p : LogParams) (d : Disk) : Nat → LogReader → Option (List (Bool × Bytes))
  | 0, _ => some []
  | n + 1, r => (getNextRecord p d r).bind fun (more, data, r) => (outputs p d n r).map ((more, data) :: ·)

/-! ## The first sound block -/

/-- The checksum that a block has of the one before, where its own is right. -/
def soundPrev (q : ReaderParams) (block : Bytes) : Option Int32 :=
  let trailer := block.drop (q.block_size_ - kBlockTrailerEnd)
  if (acceptBlock q {} (block.take (q.block_size_ - kBlockTrailerEnd)) (int32At trailer) (int32At (trailer.drop 4))
    (int32At (trailer.drop 8))).1 = .crcCorrupted then none
  else some (int32At (trailer.drop 4))

/-- The checksum of the block before that the first sound block has, of those that are read from here on. -/
def nextSound (p : LogParams) (d : Disk) : Nat → LogReader → Option Int32
  | 0, _ => none
  | n + 1, r =>
    if r.buf_ ≠ [] ∧ p.block_size_ ≤ r.buf_.length then
      match soundPrev p.toReaderParams r.buf_ with
      | some crc => some crc
      | none => nextSound p d n { r with buf_ := r.buf_.drop p.block_size_ }
    else
      match readBlock p d { r with record_num_ := 0 } with
      | some (_, r) => nextSound p d n r
      | none => none

/-- A reader at the block of a position. -/
def startAt (p : LogParams) (d : Disk) (pos : LogPos) : LogReader :=
  if pos.IsNull then
    match d.first with
    | some n => { file_ := some { number := n }, file_num_ := n }
    | none => {}
  else
    { file_ := some ⟨pos.file_num_.toNat, pos.block_num_.toNat * p.block_size_⟩, file_num_ := pos.file_num_ }

/-- Nothing of what a reader has read before does harm behind a seek: no record is half assembled, the first sound
block does not look out of order, and where the short way is taken, no other file is open and nothing is left of it. -/
structure Harmless (p : LogParams) (d : Disk) (pos : LogPos) (r : LogReader) : Prop where
  record : r.reader_.record_content_ = []
  crc : ∀ n c, nextSound p d n (startAt p d pos) = some c → ¬ Broken c r.reader_.prev_block_crc_
  shortcut : ¬ pos.IsNull → Shortcut d pos → r.file_ = none ∨
    r.file_ = some ⟨pos.file_num_.toNat, 0⟩ ∧ r.reader_.content_ = [] ∧ r.buf_ = []

/-! ## Invariant -/

/-- A record is skipped only while one is half assembled. -/
def RecordReader.Held (r : RecordReader) : Prop := r.record_content_ = [] → r.skip_record_ = false

section Held

variable {q : ReaderParams} {r r' : RecordReader} {out : Bool}

theorem acceptBlock_cases (q : ReaderParams) (data : Bytes) (content_size prev_crc crc : Int32) :
    (∀ r, acceptBlock q r data content_size prev_crc crc = (.crcCorrupted, r)) ∨
      ∃ content, ∀ r, acceptBlock q r data content_size prev_crc crc =
        (if Broken prev_crc r.prev_block_crc_ then .crcBlockBroken else .ok,
          { r with prev_block_crc_ := crc, content_ := r.content_ ++ content }) := by
  by_cases hbad : q.computeCRC (data ++ NumStreamer.writeInt32 content_size .bigEndian ++
      NumStreamer.writeInt32 prev_crc .bigEndian) ≠ crc ∨ (q.block_size_ - kBlockTrailerEnd : Int) < content_size.toInt
  · exact .inl fun r => if_pos hbad
  · exact .inr ⟨_, fun r => if_neg hbad⟩

theorem RecordReader.readNextBlock_keeps {input input' : Bytes} {ret : ReadResult}
    (hread : readNextBlock q r input = some (ret, r', input')) :
    r'.record_content_ = r.record_content_ ∧ r'.skip_record_ = r.skip_record_ := by
  rw [RecordReader.readNextBlock] at hread
  split_ifs at hread
  · cases hread
    exact ⟨rfl, rfl⟩
  · dsimp only at hread
    rcases acceptBlock_cases q (input.take (q.block_size_ - kBlockTrailerEnd))
      (int32At (input.drop (q.block_size_ - kBlockTrailerEnd)))
      (int32At ((input.drop (q.block_size_ - kBlockTrailerEnd)).drop 4))
      (int32At ((input.drop (q.block_size_ - kBlockTrailerEnd)).drop 8)) with hbad | ⟨_, hok⟩
    · rw [hbad] at hread
      cases hread
      exact ⟨rfl, rfl⟩
    · rw [hok] at hread
      cases hread
      exact ⟨rfl, rfl⟩

theorem RecordReader.Held.skipRecords {n : Nat} (h : r.Held) (hskip : skipRecords n r = some r') :
    r'.Held ∧ (r'.skip_record_ = false ∨ r'.content_ = []) := by
  induction n generalizing r with
  | zero => cases hskip
  | succ n ih =>
    rw [RecordReader.skipRecords] at hskip
    split_ifs at hskip with hmore
    · obtain ⟨r₁, hone, hskip⟩ := bind_eq_some_iff.1 hskip
      refine ih ?_ hskip
      -- What is half assembled stays.
      have hrecord : r₁.record_content_ = r.record_content_ := by
        rw [skipRecord] at hone
        split at hone
        · cases hone
          rfl
        · cases hone
      intro hnil
      rw [hrecord] at hnil
      rw [h hnil] at hmore
      exact absurd hmore.1 Bool.false_ne_true
    · obtain rfl := Option.some.inj hskip
      refine ⟨h, ?_⟩
      rcases Bool.eq_false_or_eq_true r.skip_record_ with hs | hs
      · exact .inr (not_not.1 fun hne => hmore ⟨hs, hne⟩)
      · exact .inl hs

theorem readPiece_skip (hskip : r.skip_record_ = false) {t : Turn} (h : readPiece q out r = some t) : match t with
    | .returned _ _ r' => r'.skip_record_ = false
    | .next r' => r'.skip_record_ = false := by
  rw [readPiece] at h
  split at h
  · split_ifs at h <;> cases h <;> exact hskip
  · cases h

theorem RecordReader.Held.readLoop {n : Nat} {input : Bytes} {y : ReadResult × Bytes × RecordReader × Bytes} (h : r.Held)
    (hread : readLoop q out n r input = some y) : y.2.2.1.Held := by
  induction n generalizing r input with
  | zero => cases hread
  | succ n ih =>
    obtain ⟨⟨ret, r₁, _⟩, hblock, hread⟩ := bind_eq_some_iff.1 hread
    have h₁ : r₁.Held := by
      split_ifs at hblock
      · obtain ⟨hrecord, hskip⟩ := RecordReader.readNextBlock_keeps hblock
        exact fun hnil => hskip.trans (h (hrecord ▸ hnil))
      · cases hblock
        exact h
    dsimp only at hread
    set pending := ret = .crcBlockBroken ∧ r₁.record_content_ ≠ [] with hpending
    have h₂ : (if pending then { r₁ with skip_record_ := true } else r₁).Held := by
      split_ifs with hp
      · exact fun hnil => absurd hnil hp.2
      · exact h₁
    generalize (if pending then { r₁ with skip_record_ := true } else r₁) = r₂ at h₂ hread
    by_cases hret : (if pending then ReadResult.ok else ret) ≠ .ok
    · rw [if_pos hret] at hread
      cases hread
      exact h₂
    · rw [if_neg hret] at hread
      obtain ⟨r₃, hskip, hread⟩ := bind_eq_some_iff.1 hread
      obtain ⟨h₃, hdone⟩ := h₂.skipRecords hskip
      by_cases hnil : r₃.content_ = []
      · rw [if_pos hnil] at hread
        exact ih h₃ hread
      · rw [if_neg hnil] at hread
        obtain ⟨t, hpiece, hread⟩ := bind_eq_some_iff.1 hread
        have hfalse := readPiece_skip (hdone.resolve_right hnil) hpiece
        cases t with
        | returned result data r₄ =>
          cases hread
          exact fun _ => hfalse
        | next r₄ => exact ih (fun _ => hfalse) hread

end Held

/-- A file that is open is one of the log. -/
structure LogReader.Sane (d : Disk) (r : LogReader) : Prop where
  held : r.reader_.Held
  open_file : ∀ f, r.file_ = some f → (d.file f.number).isSome

section Sane

variable {p : LogParams} {d : Disk} {r r' : LogReader} {ok : Bool}

theorem LogReader.Sane.clear (h : r.Sane d) {s : LogReader} (hreader : s.reader_ = r.reader_.clear)
    (hfile : ∀ f, s.file_ = some f → (d.file f.number).isSome) : s.Sane d :=
  ⟨fun hnil => by
    rw [hreader] at hnil ⊢
    exact h.held hnil, hfile⟩

theorem LogReader.Sane.count (h : r.Sane d) (n : Nat) : ({ r with record_num_ := n } : LogReader).Sane d :=
  ⟨h.held, h.open_file⟩

theorem LogReader.Sane.rewind (h : r.Sane d) : (LogReader.rewind d r).Sane d := by
  rw [LogReader.rewind]
  cases d.first with
  | none => exact h.clear rfl fun f hf => by cases hf
  | some n => exact h.clear rfl fun f hf => by cases hf

/-- The file is opened, or there is none. -/
theorem openFile_cases {n : Int} (h : openFile d n r = some (ok, r')) :
    0 ≤ n ∧ r' = { r.closeInternal with
      file_num_ := n, file_ := if ok then some { number := n.toNat } else none } ∧
      ok = (d.file n.toNat).isSome := by
  rw [openFile] at h
  by_cases hneg : n < 0
  · rw [if_pos hneg] at h
    cases h
  · rw [if_neg hneg] at h
    cases hfile : (d.file n.toNat).isSome with
    | true =>
      rw [hfile, if_pos rfl] at h
      cases h
      exact ⟨Int.not_lt.1 hneg, rfl, rfl⟩
    | false =>
      rw [hfile, if_neg Bool.false_ne_true] at h
      cases h
      exact ⟨Int.not_lt.1 hneg, rfl, rfl⟩

section

variable (h : r.Sane d)

include h

theorem LogReader.Sane.openFile {n : Int} (hopen : openFile d n r = some (ok, r')) : r'.Sane d := by
  obtain ⟨-, rfl, hok⟩ := openFile_cases hopen
  refine h.clear rfl fun f hf => ?_
  cases ok with
  | false => cases hf
  | true =>
    cases hf
    exact hok.symm

theorem LogReader.Sane.readHere (hread : readHere p d r = some (ok, r')) : r'.Sane d := by
  obtain ⟨f, hf, hread⟩ := bind_eq_some_iff.1 hread
  split_ifs at hread
  · cases hread
    exact h
  · cases hread
    refine ⟨h.held, fun g hg => ?_⟩
    cases hg
    exact h.open_file f hf

theorem LogReader.Sane.readBlock (hread : readBlock p d r = some (ok, r')) : r'.Sane d := by
  obtain ⟨f, _, hread⟩ := bind_eq_some_iff.1 hread
  split_ifs at hread
  · obtain ⟨⟨opened, _⟩, hopen, hread⟩ := bind_eq_some_iff.1 hread
    have h₁ := h.openFile hopen
    cases opened with
    | false =>
      cases hread
      exact h₁
    | true => exact h₁.readHere hread
  · exact h.readHere hread

theorem LogReader.Sane.readRecord {out : Bool} {result : ReadResult} {data : Bytes}
    (hread : LogReader.readRecord p out r = some (result, data, r')) : r'.Sane d := by
  obtain ⟨y, hy, heq⟩ := map_eq_some_iff.1 hread
  cases heq
  exact ⟨h.held.readLoop hy, h.open_file⟩

theorem LogReader.Sane.skipTo {n : Nat} (hskip : skipTo p n r = some (ok, r')) : r'.Sane d := by
  induction n generalizing r with
  | zero =>
    cases hskip
    exact h
  | succ n ih =>
    obtain ⟨⟨result, _, _⟩, hread, hskip⟩ := bind_eq_some_iff.1 hskip
    have h₁ := h.readRecord hread
    dsimp only at hskip
    by_cases hresult : result ≠ .ok
    · rw [if_pos hresult] at hskip
      cases hskip
      exact h₁
    · rw [if_neg hresult] at hskip
      exact ih (h₁.count _) hskip

theorem LogReader.Sane.seek {pos : LogPos} (hseek : seek p d pos r = some (ok, r')) : r'.Sane d := by
  rw [LogReader.seek] at hseek
  split_ifs at hseek
  · cases hseek
    exact h.rewind
  · cases hseek
    exact ⟨h.held, h.open_file⟩
  · obtain ⟨⟨opened, r₁⟩, hopen, hseek⟩ := bind_eq_some_iff.1 hseek
    have h₁ := h.openFile hopen
    cases opened with
    | false =>
      cases hseek
      exact h₁
    | true =>
      replace hseek : advanceToPosInFile p d pos r₁ = some (ok, r') := hseek
      obtain ⟨f, hf, hseek⟩ := bind_eq_some_iff.1 hseek
      have hexists := h₁.open_file f hf
      dsimp only at hseek
      split_ifs at hseek
      · cases hseek
        exact h₁.clear rfl h₁.open_file
      · cases hseek
        exact h₁.clear rfl fun g hg => by cases hg; exact hexists
      · obtain ⟨⟨_, r₂⟩, hread, hseek⟩ := bind_eq_some_iff.1 hseek
        have h₂ : r₂.Sane d := by
          refine Sane.readBlock ?_ hread
          exact h₁.clear rfl fun g hg => by cases hg; exact hexists
        split_ifs at hseek
        · cases hseek
          exact h₂
        · exact (h₂.count 0).skipTo hseek

theorem LogReader.Sane.nextLoop {n : Nat} {data : Bytes}
    (hnext : nextLoop p d n r = some (ok, data, r')) : r'.Sane d := by
  induction n generalizing r with
  | zero => cases hnext
  | succ n ih =>
    obtain ⟨⟨_, _, _⟩, hread, hnext⟩ := bind_eq_some_iff.1 hnext
    have h₁ := h.readRecord hread
    dsimp only at hnext
    split_ifs at hnext
    · obtain ⟨⟨read, r₂⟩, hblock, hnext⟩ := bind_eq_some_iff.1 hnext
      have h₂ : r₂.Sane d := (h₁.count 0).readBlock hblock
      cases read with
      | true => exact ih h₂ hnext
      | false =>
        cases hnext
        exact h₂
    · cases hnext
      exact ⟨h₁.held, h₁.open_file⟩
    · cases hnext
      exact ⟨h₁.held, h₁.open_file⟩

end

/-- What `GetNextRecord` does before its loop. -/
def LogReader.opening (d : Disk) (r : LogReader) : Option (Bool × LogReader) :=
  let r := if r.file_num_ = -1 then LogReader.rewind d r else r
  if r.file_num_ = -1 then some (false, r)
  else if r.file_ = none then LogReader.openFile d r.file_num_ r
  else some (true, r)

theorem getNextRecord_eq (p : LogParams) (d : Disk) (r : LogReader) :
    getNextRecord p d r = (r.opening d).bind fun (opened, r) =>
      if opened then LogReader.nextLoop p d (diskSize d + 2) r else some (false, [], r) := by
  rw [getNextRecord, opening]
  split_ifs <;> rfl

theorem LogReader.Sane.opening (h : r.Sane d) (hopen : r.opening d = some (ok, r')) : r'.Sane d := by
  rw [LogReader.opening] at hopen
  have h₁ : (if r.file_num_ = -1 then LogReader.rewind d r else r).Sane d := by
    split_ifs
    · exact h.rewind
    · exact h
  generalize (if r.file_num_ = -1 then LogReader.rewind d r else r) = r₁ at h₁ hopen
  split_ifs at hopen
  · cases hopen
    exact h₁
  · exact h₁.openFile hopen
  · cases hopen
    exact h₁

theorem LogReader.Sane.step (h : r.Sane d) (call : ReaderCall) (hstep : r.step p d call = some r') : r'.Sane d := by
  cases call with
  | getNextRecord =>
    obtain ⟨⟨_, _, r₁⟩, hnext, rfl⟩ := map_eq_some_iff.1 hstep
    rw [getNextRecord_eq] at hnext
    obtain ⟨⟨opened, _⟩, hopen, hnext⟩ := bind_eq_some_iff.1 hnext
    have h₂ := h.opening hopen
    cases opened with
    | true => exact h₂.nextLoop hnext
    | false =>
      cases hnext
      exact h₂
  | seek pos =>
    obtain ⟨⟨_, r₁⟩, hseek, rfl⟩ := map_eq_some_iff.1 hstep
    exact h.seek hseek
  | rewind =>
    cases hstep
    exact h.rewind

theorem LogReader.sane_run {calls : List ReaderCall} (hrun : run (LogReader.step p d) {} calls = some r) : r.Sane d := by
  have hnew : Sane d {} := ⟨fun _ => rfl, fun f hf => by cases hf⟩
  exact run_invariant (I := Sane d) (M := fun _ => True) (fun _ call _ h _ hstep => h.step call hstep) hnew
    (fun _ _ => trivial) hrun

end Sane

end Whispercast.Logio
