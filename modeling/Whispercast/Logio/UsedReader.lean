import Whispercast.Logio.Positions
import Whispercast.Logio.Seeking

/-!
# A used reader is as good as a new one

Two readers that differ in the checksum of the last block only, and in the number of errors, give the same as soon as
the next sound block does not look out of order to either of them.
-/

namespace Whispercast.Logio

open Io Library LogReader Option RecordReader

/-- The reader with another number of errors and another checksum of the last block. -/
def LogReader.like (r : LogReader) (errors : Nat) (crc : Int32) : LogReader :=
  { r with num_errors_ := errors, reader_ := { r.reader_ with prev_block_crc_ := crc } }

/-- The checksum of the last block may be replaced by this one. -/
inductive Agree (p : LogParams) (d : Disk) (r : LogReader) (crc : Int32) : Prop where
  | same (h : crc = r.reader_.prev_block_crc_)
  | early (hnum : 0 ≤ r.file_num_) (hreader : r.reader_ = {})
      (hclosed : r.file_ = none → d.file r.file_num_.toNat = none)
      (hcrc : ∀ n x, nextSound p d n r = some x → ¬ Broken x crc)

variable {p : LogParams} {d : Disk} {r r' : LogReader} {crc : Int32} {ok out : Bool}

/-! ## Files -/

theorem like_self (r : LogReader) : r.like r.num_errors_ r.reader_.prev_block_crc_ = r := rfl

theorem rewind_like (d : Disk) (r : LogReader) (errors : Nat) (crc : Int32) :
    LogReader.rewind d (r.like errors crc) = (LogReader.rewind d r).like errors crc := by
  rw [rewind, rewind]
  cases d.first <;> rfl

theorem openFile_like (d : Disk) (n : Int) (r : LogReader) (errors : Nat) (crc : Int32) :
    openFile d n (r.like errors crc) = (openFile d n r).map fun (ok, r) => (ok, r.like errors crc) := by
  rw [openFile, openFile]
  split_ifs <;> rfl

theorem readHere_like (p : LogParams) (d : Disk) (r : LogReader) (errors : Nat) (crc : Int32) :
    readHere p d (r.like errors crc) = (readHere p d r).map fun (ok, r) => (ok, r.like errors crc) := by
  rw [readHere, readHere, show (r.like errors crc).file_ = r.file_ from rfl,
    show (r.like errors crc).buf_ = r.buf_ from rfl]
  cases r.file_ with
  | none => rfl
  | some f =>
    rw [bind_some, bind_some]
    split_ifs <;> rfl

theorem readBlock_like (p : LogParams) (d : Disk) (r : LogReader) (errors : Nat) (crc : Int32) :
    readBlock p d (r.like errors crc) = (readBlock p d r).map fun (ok, r) => (ok, r.like errors crc) := by
  rw [readBlock, readBlock, show (r.like errors crc).file_ = r.file_ from rfl,
    show (r.like errors crc).file_num_ = r.file_num_ from rfl]
  cases r.file_ with
  | none => rfl
  | some f =>
    rw [bind_some, bind_some]
    split_ifs
    · rw [openFile_like]
      rcases openFile d (r.file_num_ + 1) r with _ | ⟨_ | _, r₁⟩
      · rfl
      · rfl
      · exact readHere_like p d r₁ errors crc
    · exact readHere_like p d r errors crc

/-- What is left of the reader behind `ReadBlock`. -/
theorem readBlock_keeps (h : readBlock p d r = some (ok, r')) :
    (r'.reader_ = r.reader_ ∨ r'.reader_ = r.reader_.clear) ∧ (0 ≤ r.file_num_ → 0 ≤ r'.file_num_) ∧
      (r'.file_ = none → d.file r'.file_num_.toNat = none) := by
  have hhere : ∀ {r : LogReader}, readHere p d r = some (ok, r') →
      r'.reader_ = r.reader_ ∧ r'.file_num_ = r.file_num_ ∧ r'.file_ ≠ none := by
    intro r h
    obtain ⟨f, hf, h⟩ := bind_eq_some_iff.1 h
    split_ifs at h
    · cases h
      exact ⟨rfl, rfl, by rw [hf]; exact some_ne_none f⟩
    · cases h
      exact ⟨rfl, rfl, some_ne_none _⟩
  obtain ⟨f, hf, h⟩ := bind_eq_some_iff.1 h
  split_ifs at h
  · obtain ⟨⟨opened, _⟩, hopen, h⟩ := bind_eq_some_iff.1 h
    obtain ⟨hnum, rfl, hopened⟩ := openFile_cases hopen
    cases opened with
    | false =>
      cases h
      exact ⟨.inr rfl, fun _ => hnum, fun _ => not_isSome_iff_eq_none.1 (by rw [← hopened]; simp)⟩
    | true =>
      obtain ⟨hreader, hnum', hfile⟩ := hhere h
      exact ⟨.inr hreader, fun _ => hnum'.symm ▸ hnum, fun hnone => absurd hnone hfile⟩
  · obtain ⟨hreader, hnum, hfile⟩ := hhere h
    exact ⟨.inl hreader, fun hpos => hnum.symm ▸ hpos, fun hnone => absurd hnone hfile⟩

theorem nextSound_like (p : LogParams) (d : Disk) (n : Nat) (r : LogReader) (errors : Nat) (crc : Int32) :
    nextSound p d n (r.like errors crc) = nextSound p d n r := by
  induction n generalizing r with
  | zero => rfl
  | succ n ih =>
    rw [nextSound, nextSound, show (r.like errors crc).buf_ = r.buf_ from rfl]
    by_cases hbuf : r.buf_ ≠ [] ∧ p.block_size_ ≤ r.buf_.length
    · rw [if_pos hbuf, if_pos hbuf]
      cases soundPrev p.toReaderParams r.buf_ with
      | some x => rfl
      | none => exact ih { r with buf_ := r.buf_.drop p.block_size_ }
    · rw [if_neg hbuf, if_neg hbuf]
      have hread := readBlock_like p d { r with record_num_ := 0 } errors crc
      rw [LogReader.like] at hread ⊢
      rw [hread]
      rcases readBlock p d { r with record_num_ := 0 } with _ | ⟨ok, r₁⟩
      · rfl
      · exact ih r₁

theorem nextSound_count (p : LogParams) (d : Disk) (n : Nat) (r : LogReader) (k : Nat) :
    nextSound p d n { r with record_num_ := k } = nextSound p d n r := by
  induction n generalizing r with
  | zero => rfl
  | succ n ih =>
    rw [nextSound, nextSound]
    by_cases hbuf : r.buf_ ≠ [] ∧ p.block_size_ ≤ r.buf_.length
    · rw [if_pos hbuf, if_pos hbuf]
      cases soundPrev p.toReaderParams r.buf_ with
      | some x => rfl
      | none => exact ih { r with buf_ := r.buf_.drop p.block_size_ }
    · rw [if_neg hbuf, if_neg hbuf]

theorem Agree.count (h : Agree p d r crc) (k : Nat) : Agree p d { r with record_num_ := k } crc := by
  cases h with
  | same hsame => exact .same hsame
  | early hnum hreader hclosed hcrc =>
    exact .early hnum hreader hclosed fun n x hx => hcrc n x (nextSound_count p d n r k ▸ hx)

theorem Agree.errors (h : Agree p d r crc) (k : Nat) : Agree p d { r with num_errors_ := k } crc := by
  cases h with
  | same hsame => exact .same hsame
  | early hnum hreader hclosed hcrc =>
    refine .early hnum hreader hclosed fun n x hx => hcrc n x ?_
    rw [← nextSound_like p d n r k r.reader_.prev_block_crc_]
    exact hx

theorem Agree.readBlock (h : Agree p d r crc)
    (hbuf : crc = r.reader_.prev_block_crc_ ∨ ¬ (r.buf_ ≠ [] ∧ p.block_size_ ≤ r.buf_.length))
    (hread : readBlock p d { r with record_num_ := 0 } = some (ok, r')) : Agree p d r' crc := by
  obtain ⟨hreader', hnum', hclosed'⟩ := readBlock_keeps hread
  have hcrc' : r'.reader_.prev_block_crc_ = r.reader_.prev_block_crc_ := by
    rcases hreader' with h | h
    · rw [h]
    · rw [h, clear]
  rcases hbuf with hsame | hbuf
  · exact .same (hsame.trans hcrc'.symm)
  · cases h with
    | same hsame => exact .same (hsame.trans hcrc'.symm)
    | early hnum hreader hclosed hcrc =>
      refine .early (hnum' hnum) ?_ hclosed' fun n x hx => hcrc (n + 1) x ?_
      · rcases hreader' with h | h <;> rw [h]
        · exact hreader
        · rw [hreader]
          rfl
      · rw [nextSound, if_neg hbuf, hread]
        exact hx

/-! ## Records -/

/-- A record reader that has nothing but a checksum of the last block. -/
def withPrev (crc : Int32) : RecordReader where
  prev_block_crc_ := crc

/-- What the first block does to a reader that has nothing but a checksum. -/
theorem readRecord_withPrev (q : ReaderParams) (out : Bool) (buf : Bytes) :
    (buf.length < q.block_size_ ∧ ∀ crc, RecordReader.readRecord q out (withPrev crc) buf =
      some (.noData, [], withPrev crc, buf)) ∨
    (∀ crc, RecordReader.readRecord q out (withPrev crc) buf = none) ∨
    (buf ≠ [] ∧ q.block_size_ ≤ buf.length ∧ soundPrev q buf = none ∧ ∀ crc,
      RecordReader.readRecord q out (withPrev crc) buf =
        some (.crcCorrupted, [], withPrev crc, buf.drop q.block_size_)) ∨
    (buf ≠ [] ∧ q.block_size_ ≤ buf.length ∧ ∃ x, soundPrev q buf = some x ∧ ∀ crc, ¬ Broken x crc →
      RecordReader.readRecord q out (withPrev crc) buf = RecordReader.readRecord q out (withPrev 0) buf) := by
  have hnil : ∀ crc, (withPrev crc).content_ = [] := fun crc => rfl
  by_cases hlen : buf.length < q.block_size_
  · refine .inl ⟨hlen, fun crc => ?_⟩
    rw [RecordReader.readRecord, readLoop, if_pos (hnil crc), readNextBlock, if_pos hlen, bind_some]
    simp
  · by_cases hsmall : q.block_size_ < kBlockTrailerEnd
    · refine .inr (.inl fun crc => ?_)
      rw [RecordReader.readRecord, readLoop, if_pos (hnil crc), readNextBlock, if_neg hlen, if_pos hsmall]
      rfl
    · have hne : buf ≠ [] := by
        rw [kBlockTrailerEnd] at hsmall
        exact List.ne_nil_of_length_pos (by omega)
      have hblock : ∀ crc, readNextBlock q (withPrev crc) buf =
          (fun x => some (x.1, x.2, buf.drop q.block_size_)) (acceptBlock q (withPrev crc)
            (buf.take (q.block_size_ - kBlockTrailerEnd)) (int32At (buf.drop (q.block_size_ - kBlockTrailerEnd)))
            (int32At ((buf.drop (q.block_size_ - kBlockTrailerEnd)).drop 4))
            (int32At ((buf.drop (q.block_size_ - kBlockTrailerEnd)).drop 8))) := by
        intro crc
        rw [readNextBlock, if_neg hlen, if_neg hsmall]
      rcases acceptBlock_cases q (buf.take (q.block_size_ - kBlockTrailerEnd))
        (int32At (buf.drop (q.block_size_ - kBlockTrailerEnd)))
        (int32At ((buf.drop (q.block_size_ - kBlockTrailerEnd)).drop 4))
        (int32At ((buf.drop (q.block_size_ - kBlockTrailerEnd)).drop 8)) with hbad | ⟨_, hok⟩
      · refine .inr (.inr (.inl ⟨hne, Nat.not_lt.1 hlen, ?_, fun crc => ?_⟩))
        · rw [soundPrev, hbad, if_pos rfl]
        · rw [RecordReader.readRecord, readLoop, if_pos (hnil crc), hblock, hbad, bind_some]
          simp
      · refine .inr (.inr (.inr ⟨hne, Nat.not_lt.1 hlen,
          int32At ((buf.drop (q.block_size_ - kBlockTrailerEnd)).drop 4), ?_, fun crc hbroken => ?_⟩))
        · rw [soundPrev, hok, if_neg (by split_ifs <;> simp)]
        · have hzero : ∀ x : Int32, ¬ Broken x (withPrev 0).prev_block_crc_ := fun x hbad => hbad.2.1 rfl
          rw [RecordReader.readRecord, RecordReader.readRecord, readLoop, readLoop, if_pos (hnil crc), if_pos (hnil 0),
            hblock, hblock, hok, hok, if_neg (hzero _), if_neg (show ¬ Broken _ (withPrev crc).prev_block_crc_ from hbroken)]
          rfl

theorem Agree.readRecord (h : Agree p d r crc) (out : Bool) (errors : Nat) :
    (LogReader.readRecord p out r = none ∧ LogReader.readRecord p out (r.like errors crc) = none) ∨
      ∃ res data r' crc', LogReader.readRecord p out r = some (res, data, r') ∧
        LogReader.readRecord p out (r.like errors crc) = some (res, data, r'.like errors crc') ∧ Agree p d r' crc' ∧
        (res = .noData → crc' = r'.reader_.prev_block_crc_ ∨ ¬ (r'.buf_ ≠ [] ∧ p.block_size_ ≤ r'.buf_.length)) := by
  cases h with
  | same hsame =>
    have hreader : (r.like errors crc).reader_ = r.reader_ := by
      rw [hsame]
      rfl
    rw [LogReader.readRecord, LogReader.readRecord, hreader, show (r.like errors crc).buf_ = r.buf_ from rfl]
    rcases RecordReader.readRecord p.toReaderParams out r.reader_ r.buf_ with _ | ⟨res, data, reader, buf⟩
    · exact .inl ⟨rfl, rfl⟩
    · exact .inr ⟨res, data, _, reader.prev_block_crc_, rfl, rfl, .same rfl, fun _ => .inl rfl⟩
  | early hnum hreader hclosed hcrc =>
    have hleft : r.reader_ = withPrev 0 := hreader
    have hright : (r.like errors crc).reader_ = withPrev crc := by
      show ({ r.reader_ with prev_block_crc_ := crc } : RecordReader) = withPrev crc
      rw [hreader]
      rfl
    rw [LogReader.readRecord, LogReader.readRecord, hleft, hright, show (r.like errors crc).buf_ = r.buf_ from rfl]
    rcases readRecord_withPrev p.toReaderParams out r.buf_ with
      ⟨hshort, hread⟩ | hread | ⟨hne, hlen, hsound, hread⟩ | ⟨hne, hlen, x, hsound, hread⟩
    · rw [hread, hread]
      refine .inr ⟨.noData, [], _, crc, rfl, rfl, .early hnum rfl hclosed ?_, fun _ => .inr ?_⟩
      · exact fun n x hx => hcrc n x (by rw [← hx, ← hleft])
      · exact fun hbuf => absurd hbuf.2 (Nat.not_le.2 hshort)
    · rw [hread, hread]
      exact .inl ⟨rfl, rfl⟩
    · rw [hread, hread]
      refine .inr ⟨.crcCorrupted, [], _, crc, rfl, rfl, .early hnum rfl hclosed ?_, fun hres => by cases hres⟩
      intro n x hx
      refine hcrc (n + 1) x ?_
      rw [nextSound, if_pos ⟨hne, hlen⟩, hsound, ← hx, ← hleft]
    · have hfound : nextSound p d 1 r = some x := by rw [nextSound, if_pos ⟨hne, hlen⟩, hsound]
      rw [hread crc (hcrc 1 x hfound)]
      rcases RecordReader.readRecord p.toReaderParams out (withPrev 0) r.buf_ with _ | ⟨res, data, reader, buf⟩
      · exact .inl ⟨rfl, rfl⟩
      · exact .inr ⟨res, data, _, reader.prev_block_crc_, rfl, rfl, .same rfl, fun _ => .inl rfl⟩

theorem Agree.skipTo (h : Agree p d r crc) {errors n : Nat} (hskip : LogReader.skipTo p n r = some (ok, r')) :
    ∃ crc', LogReader.skipTo p n (r.like errors crc) = some (ok, r'.like errors crc') ∧ Agree p d r' crc' := by
  induction n generalizing r crc with
  | zero =>
    cases hskip
    exact ⟨crc, rfl, h⟩
  | succ n ih =>
    rw [skipTo] at hskip ⊢
    rcases h.readRecord false errors with ⟨hnone, -⟩ | ⟨res, _, _, crc₁, hread, hlike, h₁, -⟩
    · rw [hnone] at hskip
      cases hskip
    · rw [hread, bind_some] at hskip
      rw [hlike, bind_some]
      dsimp only at hskip ⊢
      by_cases hres : res ≠ .ok
      · rw [if_pos hres] at hskip ⊢
        cases hskip
        exact ⟨crc₁, rfl, h₁⟩
      · rw [if_neg hres] at hskip ⊢
        exact ih (h₁.count _) hskip

theorem Agree.nextLoop (h : Agree p d r crc) (errors n : Nat) :
    (LogReader.nextLoop p d n r = none ∧ LogReader.nextLoop p d n (r.like errors crc) = none) ∨
      ∃ ok data r' errors' crc', LogReader.nextLoop p d n r = some (ok, data, r') ∧
        LogReader.nextLoop p d n (r.like errors crc) = some (ok, data, r'.like errors' crc') ∧ Agree p d r' crc' := by
  induction n generalizing r crc with
  | zero => exact .inl ⟨rfl, rfl⟩
  | succ n ih =>
    rw [LogReader.nextLoop, LogReader.nextLoop]
    rcases h.readRecord true errors with ⟨hnone, hlike⟩ | ⟨res, data, r₁, crc₁, hread, hlike, h₁, hbuf⟩
    · rw [hnone, hlike]
      exact .inl ⟨rfl, rfl⟩
    · rw [hread, hlike, Option.bind_some, Option.bind_some]
      dsimp only
      by_cases hres : res = .noData
      · rw [if_pos hres, if_pos hres]
        have hblock := readBlock_like p d { r₁ with record_num_ := 0 } errors crc₁
        rcases hread' : LogReader.readBlock p d { r₁ with record_num_ := 0 } with _ | ⟨ok, r₂⟩
        · rw [hread'] at hblock
          exact .inl ⟨rfl, by rw [show LogReader.readBlock p d
            { r₁.like errors crc₁ with record_num_ := 0 } = none from hblock]; rfl⟩
        · rw [hread'] at hblock
          rw [show LogReader.readBlock p d { r₁.like errors crc₁ with record_num_ := 0 } =
            some (ok, r₂.like errors crc₁) from hblock, Option.bind_some, Option.bind_some]
          have h₂ := h₁.readBlock (hbuf hres) hread'
          cases ok with
          | false => exact .inr ⟨false, [], r₂, errors, crc₁, rfl, rfl, h₂⟩
          | true => exact ih h₂
      · rw [if_neg hres, if_neg hres]
        refine .inr ⟨true, data, _, if res ≠ .ok then errors + 1 else errors, crc₁, rfl, rfl, ?_⟩
        exact (h₁.errors (if res ≠ .ok then r₁.num_errors_ + 1 else r₁.num_errors_)).count (r₁.record_num_ + 1)

/-! ## Calls of `GetNextRecord` -/

theorem opening_like (d : Disk) (r : LogReader) (errors : Nat) (crc : Int32) :
    (r.like errors crc).opening d = (r.opening d).map fun (ok, r) => (ok, r.like errors crc) := by
  rw [opening, opening, show (r.like errors crc).file_num_ = r.file_num_ from rfl, rewind_like]
  have hone : (if r.file_num_ = -1 then (rewind d r).like errors crc else r.like errors crc) =
      (if r.file_num_ = -1 then rewind d r else r).like errors crc := by
    split_ifs <;> rfl
  rw [hone]
  generalize (if r.file_num_ = -1 then rewind d r else r) = r₁
  by_cases hnum : r₁.file_num_ = -1
  · rw [if_pos hnum, if_pos (show (r₁.like errors crc).file_num_ = -1 from hnum)]
    rfl
  · rw [if_neg hnum, if_neg (show ¬ (r₁.like errors crc).file_num_ = -1 from hnum)]
    by_cases hfile : r₁.file_ = none
    · rw [if_pos hfile, if_pos (show (r₁.like errors crc).file_ = none from hfile)]
      exact openFile_like d r₁.file_num_ r₁ errors crc
    · rw [if_neg hfile, if_neg (show ¬ (r₁.like errors crc).file_ = none from hfile)]
      rfl

theorem nextSound_closed (hfile : r.file_ = none) (hbuf : r.buf_ = []) (n : Nat) : nextSound p d n r = none := by
  cases n with
  | zero => rfl
  | succ n =>
    rw [nextSound, if_neg fun h => h.1 hbuf, readBlock, show ({ r with record_num_ := 0 } : LogReader).file_ =
      none from hfile, bind_none]

/-- The first block that is read is sound. -/
theorem nextSound_first (hbuf : r.buf_ = []) (hread : LogReader.readBlock p d { r with record_num_ := 0 } = some (ok, r'))
    (hne : r'.buf_ ≠ []) (hlen : p.block_size_ ≤ r'.buf_.length) {x c : Int32}
    (hsound : soundPrev p.toReaderParams r'.buf_ = some x) {n : Nat} (h : nextSound p d n r = some c) : c = x := by
  cases n with
  | zero => cases h
  | succ n =>
    rw [nextSound, if_neg fun h => h.1 hbuf, hread] at h
    cases n with
    | zero => cases h
    | succ n =>
      dsimp only at h
      rw [nextSound, if_pos ⟨hne, hlen⟩, hsound] at h
      exact (Option.some.inj h).symm

theorem opening_prev (h : r.opening d = some (ok, r')) : r'.reader_.prev_block_crc_ = r.reader_.prev_block_crc_ := by
  rw [opening] at h
  have hprev : (if r.file_num_ = -1 then rewind d r else r).reader_.prev_block_crc_ =
      r.reader_.prev_block_crc_ := by
    rw [rewind]
    cases d.first <;> split_ifs <;> rfl
  rw [← hprev]
  generalize (if r.file_num_ = -1 then rewind d r else r) = r₁ at h
  split_ifs at h
  · cases h
    rfl
  · obtain ⟨-, rfl, -⟩ := openFile_cases h
    rfl
  · cases h
    rfl

/-- A file that is not there is not there when it is tried again. -/
theorem Agree.opening (h : Agree p d r crc) (hopen : r.opening d = some (ok, r')) : Agree p d r' crc := by
  cases h with
  | same hsame => exact .same (hsame.trans (opening_prev hopen).symm)
  | early hnum hreader hclosed hcrc =>
    have hne : ¬ r.file_num_ = -1 := by omega
    rw [LogReader.opening] at hopen
    rw [if_neg hne, if_neg hne] at hopen
    by_cases hfile : r.file_ = none
    · rw [if_pos hfile] at hopen
      obtain ⟨-, rfl, hok⟩ := openFile_cases hopen
      rw [hclosed hfile] at hok
      subst hok
      have hcleared : r.closeInternal.reader_ = {} := by
        show r.reader_.clear = {}
        rw [hreader]
        rfl
      refine .early hnum hcleared (fun _ => hclosed hfile) fun n x hx => ?_
      rw [nextSound_closed rfl rfl] at hx
      cases hx
    · rw [if_neg hfile] at hopen
      cases hopen
      exact .early hnum hreader hclosed hcrc

/-- Behind the opening of a log, readers that agree give the same in the next call, and in the calls behind it. -/
theorem outputs_succ {n : Nat} (ih : ∀ {r : LogReader} {crc : Int32}, Agree p d r crc → ∀ errors,
      outputs p d n r = outputs p d n (r.like errors crc))
    {s s' : LogReader} (hs : s.opening d = some (ok, r)) {errors : Nat} (hs' : s'.opening d = some (ok, r.like errors crc))
    (h : Agree p d r crc) : outputs p d (n + 1) s = outputs p d (n + 1) s' := by
  rw [outputs, outputs, getNextRecord_eq, getNextRecord_eq, hs, hs', bind_some, bind_some]
  cases ok with
  | false => exact congrArg (Option.map _) (ih h errors)
  | true =>
    rcases h.nextLoop errors (diskSize d + 2) with
      ⟨hnone, hnone'⟩ | ⟨ok, _, _, errors', _, hnext, hnext', h'⟩
    · show (LogReader.nextLoop p d _ r).bind _ = (LogReader.nextLoop p d _ (r.like errors crc)).bind _
      rw [hnone, hnone']
    · show (LogReader.nextLoop p d _ r).bind _ = (LogReader.nextLoop p d _ (r.like errors crc)).bind _
      rw [hnext, hnext']
      exact congrArg (Option.map _) (ih h' errors')

/-- Readers that agree give the same in all calls. -/
theorem outputs_agree (h : Agree p d r crc) (errors : Nat) (n : Nat) :
    outputs p d n r = outputs p d n (r.like errors crc) := by
  induction n generalizing r errors crc with
  | zero => rfl
  | succ n ih =>
    rcases hopen : r.opening d with _ | ⟨_, _⟩
    · rw [outputs, outputs, getNextRecord_eq, getNextRecord_eq, opening_like, hopen]
      rfl
    · exact outputs_succ ih hopen (by rw [opening_like, hopen, map_some]) (h.opening hopen)

/-- All calls give the same as those of a reader that is behind the opening, which is done once only. -/
theorem outputs_opened {s : LogReader} (hs : s.opening d = some (ok, r)) {s' : LogReader}
    (hs' : s'.opening d = some (ok, r')) {errors : Nat} (hlike : r' = r.like errors crc) (h : Agree p d r crc) (n : Nat) :
    outputs p d n s = outputs p d n s' := by
  cases n with
  | zero => rfl
  | succ n => exact outputs_succ (fun h errors => outputs_agree h errors n) hs (hlike ▸ hs') h

/-! ## Seeking -/

section Seek

variable {pos : LogPos} {r₀ : LogReader} {calls : List ReaderCall}

/-- A record reader that holds no half-assembled record has nothing but a checksum when it is cleared. -/
theorem RecordReader.Held.clear (h : r.reader_.Held) (hrecord : r.reader_.record_content_ = []) :
    r.reader_.clear = withPrev r.reader_.prev_block_crc_ := by
  have hskip := h hrecord
  rw [RecordReader.clear, withPrev, hskip, hrecord]

/-- A reader that has tried to open a file. -/
def tried (d : Disk) (n : Int) : LogReader where
  file_num_ := n
  file_ := if (d.file n.toNat).isSome then some { number := n.toNat } else none

/-- A file that is opened by a reader without half-assembled record. -/
theorem openFile_held (h : r.Sane d) (hrecord : r.reader_.record_content_ = []) {n : Int} (hn : 0 ≤ n) :
    openFile d n r =
      some ((d.file n.toNat).isSome, (tried d n).like r.num_errors_ r.reader_.prev_block_crc_) := by
  have hclear : r.closeInternal.reader_ = withPrev r.reader_.prev_block_crc_ := h.held.clear hrecord
  rw [openFile]
  dsimp only
  rw [if_neg (Int.not_lt.2 hn), hclear, tried]
  cases (d.file n.toNat).isSome <;> rfl

theorem agree_tried {n : Int} (hn : 0 ≤ n)
    (hcrc : ∀ k c, nextSound p d k { file_ := some { number := n.toNat }, file_num_ := n } = some c → ¬ Broken c crc) :
    Agree p d (tried d n) crc := by
  refine .early hn rfl ?_ fun k c hc => ?_
  · intro hnone
    rw [tried] at hnone
    split_ifs at hnone with hfile
    exact not_isSome_iff_eq_none.1 hfile
  · rw [tried] at hc
    split_ifs at hc with hfile
    · exact hcrc k c hc
    · rw [nextSound_closed rfl rfl] at hc
      cases hc

/-- A used reader and a new one that are to open the same file. -/
theorem outputs_closed (h : r.Sane d) (hrecord : r.reader_.record_content_ = []) (hfile : r.file_ = none) {m : Int}
    (hm : 0 ≤ m) (hnum : r.file_num_ = m)
    (hcrc : ∀ k c, nextSound p d k { file_ := some { number := m.toNat }, file_num_ := m } = some c →
      ¬ Broken c r.reader_.prev_block_crc_) (n : Nat) :
    outputs p d n r = outputs p d n { file_num_ := m } := by
  have hopening : ∀ {s : LogReader}, s.Sane d → s.reader_.record_content_ = [] → s.file_ = none → s.file_num_ = m →
      s.opening d = some ((d.file m.toNat).isSome, (tried d m).like s.num_errors_ s.reader_.prev_block_crc_) := by
    intro s hs hsrecord hsfile hsnum
    have hne : ¬ s.file_num_ = -1 := by omega
    rw [opening, if_neg hne, if_neg hne, if_pos hsfile, hsnum, openFile_held hs hsrecord hm]
  have hnew : Sane d { file_num_ := m } := ⟨fun _ => rfl, fun f hf => by cases hf⟩
  exact (outputs_opened (hopening hnew rfl rfl rfl) (hopening h hrecord hfile hnum) rfl (agree_tried hm hcrc) n).symm

/-- What `AdvanceToPosInFile` does once the file is at the block. -/
def LogReader.skipInBlock (p : LogParams) (d : Disk) (pos : LogPos) (r : LogReader) : Option (Bool × LogReader) :=
  if pos.record_num_ = 0 then some (true, r)
  else (LogReader.readBlock p d r).bind fun (ok, r) =>
    if ok = false then some (false, r)
    else if r.buf_.length ≠ p.block_size_ then none
    else LogReader.skipTo p pos.record_num_.toNat { r with record_num_ := 0 }

theorem advance_eq (hnull : ¬ pos.IsNull) (hexists : (d.file pos.file_num_.toNat).isSome) (errors : Nat) (crc : Int32) :
    advanceToPosInFile p d pos ((tried d pos.file_num_).like errors crc) =
      if pos.block_num_ < 0 then
        some (false, { file_ := some { number := pos.file_num_.toNat }, file_num_ := pos.file_num_,
                       num_errors_ := errors, reader_ := withPrev crc })
      else ((startAt p d pos).like errors crc).skipInBlock p d pos := by
  have hfile : ((tried d pos.file_num_).like errors crc).file_ = some { number := pos.file_num_.toNat } := if_pos hexists
  rw [advanceToPosInFile, hfile, startAt, if_neg hnull]
  exact if_neg (not_not.2 rfl)

theorem Agree.skipInBlock (h : Agree p d r crc) (hbuf : r.buf_ = []) (hrecord : r.record_num_ = 0) {errors : Nat}
    (hskip : r.skipInBlock p d pos = some (ok, r')) :
    ∃ crc', (r.like errors crc).skipInBlock p d pos = some (ok, r'.like errors crc') ∧ Agree p d r' crc' := by
  rw [LogReader.skipInBlock] at hskip ⊢
  by_cases hfirst : pos.record_num_ = 0
  · rw [if_pos hfirst] at hskip ⊢
    cases hskip
    exact ⟨crc, rfl, h⟩
  · rw [if_neg hfirst] at hskip ⊢
    obtain ⟨⟨read, r₁⟩, hread, hskip⟩ := bind_eq_some_iff.1 hskip
    have h₁ : Agree p d r₁ crc := by
      rw [← show ({ r with record_num_ := 0 } : LogReader) = r by rw [← hrecord]] at hread
      exact h.readBlock (.inr fun hne => hne.1 hbuf) hread
    rw [readBlock_like, hread, map_some, bind_some]
    dsimp only at hskip ⊢
    cases read with
    | false =>
      cases hskip
      exact ⟨crc, rfl, h₁⟩
    | true =>
      by_cases hlen : r₁.buf_.length ≠ p.block_size_
      · rw [if_pos hlen] at hskip
        cases hskip
      · rw [if_neg hlen] at hskip
        rw [if_neg (show ¬ (r₁.like errors crc).buf_.length ≠ p.block_size_ from hlen)]
        exact (h₁.count 0).skipTo hskip

/-- The way from the beginning of a file to the block and the record in it. -/
theorem advance_like (hnull : ¬ pos.IsNull) (hpos : 0 ≤ pos.file_num_) (hexists : (d.file pos.file_num_.toNat).isSome)
    (hcrc : ∀ k c, nextSound p d k (startAt p d pos) = some c → ¬ Broken c crc) (errors : Nat)
    (hfresh : advanceToPosInFile p d pos (tried d pos.file_num_) = some (true, r₀)) :
    ∃ crc', advanceToPosInFile p d pos ((tried d pos.file_num_).like errors crc) =
      some (true, r₀.like errors crc') ∧ Agree p d r₀ crc' := by
  have hstart : startAt p d pos =
      { file_ := some ⟨pos.file_num_.toNat, pos.block_num_.toNat * p.block_size_⟩, file_num_ := pos.file_num_ } :=
    if_neg hnull
  have hagree : Agree p d (startAt p d pos) crc := by
    refine .early ?_ ?_ (fun hnone => ?_) hcrc <;> rw [hstart]
    · exact hpos
    · rw [hstart] at hnone
      cases hnone
  rw [← like_self (tried d pos.file_num_), advance_eq hnull hexists] at hfresh
  rw [advance_eq hnull hexists]
  by_cases hblock : pos.block_num_ < 0
  · rw [if_pos hblock] at hfresh
    cases hfresh
  · rw [if_neg hblock] at hfresh ⊢
    refine hagree.skipInBlock (by rw [hstart]) (by rw [hstart]) ?_
    rw [hstart] at hfresh ⊢
    exact hfresh

/-- Behind a seek that a new reader accepts, and that finds nothing harmful in a used one, both give the same. -/
theorem used_reader_seeks (p : LogParams) (d : Disk) (calls : List ReaderCall) (r : LogReader) (pos : LogPos)
    (r₀ : LogReader) (hrun : run (LogReader.step p d) {} calls = some r)
    (hfresh : LogReader.seek p d pos {} = some (true, r₀)) (h : Harmless p d pos r) :
    ∃ r', LogReader.seek p d pos r = some (true, r') ∧ ∀ n, outputs p d n r' = outputs p d n r₀ := by
  have hsane := sane_run hrun
  by_cases hnull : pos.IsNull
  · -- All begins at the first file, if there is one.
    rw [seek, if_pos hnull] at hfresh ⊢
    obtain rfl := (Prod.mk.inj (Option.some.inj hfresh)).2
    refine ⟨_, rfl, fun n => ?_⟩
    have hcrc := h.crc
    rw [startAt, if_pos hnull] at hcrc
    rw [rewind, rewind]
    cases hfirst : d.first with
    | none =>
      -- There is no file to open.
      have hnone : ∀ (n : Nat) (s : LogReader), s.file_num_ = -1 →
          outputs p d n s = some (List.replicate n (false, [])) := by
        intro n
        induction n with
        | zero => exact fun _ _ => rfl
        | succ n ih =>
          intro s hs
          rw [outputs, getNextRecord_eq, opening, if_pos hs, LogReader.rewind, hfirst]
          show (outputs p d n s.closeInternal).map _ = _
          rw [ih s.closeInternal rfl]
          rfl
      rw [hnone n _ rfl, hnone n _ rfl]
    | some m =>
      rw [hfirst] at hcrc
      have hrewound := hsane.rewind
      rw [LogReader.rewind, hfirst] at hrewound
      exact outputs_closed hrewound h.record rfl (Int.natCast_nonneg m) rfl hcrc n
  · by_cases hshort : Shortcut d pos
    · rw [seek, if_neg hnull, if_pos hshort] at hfresh ⊢
      obtain rfl := (Prod.mk.inj (Option.some.inj hfresh)).2
      refine ⟨_, rfl, fun n => ?_⟩
      have hcrc := h.crc
      rw [startAt, if_neg hnull, hshort.1, Int.toNat_zero, Nat.zero_mul] at hcrc
      rcases h.shortcut hnull hshort with hclosed | ⟨hopen, hcontent, hbuf⟩
      · have hheld : Sane d { r with file_num_ := pos.file_num_, record_num_ := 0 } :=
          ⟨hsane.held, hsane.open_file⟩
        exact outputs_closed hheld h.record hclosed hshort.2.2.1.le rfl hcrc n
      · -- The file of the position is the one that is open, and nothing has been read of it.
        have hexists : (d.file pos.file_num_.toNat).isSome := hsane.open_file _ hopen
        have hne : ¬ pos.file_num_ = -1 := hnull
        have hnew : Sane d { file_num_ := pos.file_num_ } := ⟨fun _ => rfl, fun f hf => by cases hf⟩
        have hfirst : LogReader.opening d { file_num_ := pos.file_num_ } = some (true, tried d pos.file_num_) := by
          rw [opening, if_neg hne, if_neg hne, if_pos rfl, openFile_held hnew rfl hshort.2.2.1.le, hexists]
          rfl
        have hused : LogReader.opening d { r with file_num_ := pos.file_num_, record_num_ := 0 } =
            some (true, { r with file_num_ := pos.file_num_, record_num_ := 0 }) := by
          rw [opening, if_neg hne, if_neg hne, if_neg (by rw [hopen]; exact some_ne_none _)]
        have hreader : r.reader_ = withPrev r.reader_.prev_block_crc_ := by
          rw [← hsane.held.clear h.record, clear, ← hcontent]
        have hlike : ({ r with file_num_ := pos.file_num_, record_num_ := 0 } : LogReader) =
            (tried d pos.file_num_).like r.num_errors_ r.reader_.prev_block_crc_ := by
          rw [tried, if_pos hexists, hbuf, hopen, hreader]
          rfl
        exact (outputs_opened hfirst hused hlike (agree_tried hshort.2.2.1.le hcrc) n).symm
    · rw [seek, if_neg hnull, if_neg hshort] at hfresh ⊢
      obtain ⟨⟨_, _⟩, hopen, hfresh⟩ := bind_eq_some_iff.1 hfresh
      obtain ⟨hpos, -, -⟩ := openFile_cases hopen
      have hnew : Sane d {} := ⟨fun _ => rfl, fun f hf => by cases hf⟩
      rw [openFile_held hnew rfl hpos] at hopen
      obtain ⟨rfl, rfl⟩ := Prod.mk.inj (Option.some.inj hopen)
      rw [openFile_held hsane h.record hpos, bind_some]
      dsimp only at hfresh ⊢
      cases hexists : (d.file pos.file_num_.toNat).isSome with
      | false =>
        rw [hexists] at hfresh
        cases hfresh
      | true =>
        rw [hexists, if_pos rfl] at hfresh
        obtain ⟨_, hseek, hagree⟩ := advance_like hnull hpos hexists h.crc r.num_errors_ hfresh
        refine ⟨_, (if_pos rfl).trans hseek, fun n => ?_⟩
        exact (outputs_agree hagree r.num_errors_ n).symm

end Seek

/-! ## Samples -/

/-- Three records in blocks of their own. -/
def threeBlocks : List WriterCall := [.stream [1], .finalize, .stream [2], .finalize, .stream [3]]

/-- The log of the three records. -/
def threeBlocksLog : Disk := (writeLog (smallBlocks none) 4 threeBlocks).getD []

/-- How it is read. -/
def threeBlocksParams : LogParams := (smallBlocks none).logReader 4 noInflate

theorem used_reader_seeks_small :
    ∃ r r₀ r', run (LogReader.step threeBlocksParams threeBlocksLog) {} [.getNextRecord, .getNextRecord] = some r ∧
      LogReader.seek threeBlocksParams threeBlocksLog ⟨0, 0, 0⟩ {} = some (true, r₀) ∧
        LogReader.seek threeBlocksParams threeBlocksLog ⟨0, 0, 0⟩ r = some (true, r') ∧
          ∀ n, outputs threeBlocksParams threeBlocksLog n r' = outputs threeBlocksParams threeBlocksLog n r₀ := by
  obtain ⟨r, hrun, hrecord⟩ := (any_eq_true _ _).1 (show
    (run (step threeBlocksParams threeBlocksLog) {} [.getNextRecord, .getNextRecord]).any
      (fun r => r.reader_.record_content_ = []) = true by decide +kernel)
  obtain ⟨⟨found, r₀⟩, hfresh, hfound⟩ := (any_eq_true _ _).1 (show
    (seek threeBlocksParams threeBlocksLog ⟨0, 0, 0⟩ {}).any (fun x => x.1) = true by decide +kernel)
  obtain ⟨⟨_, s⟩, hread, hs⟩ := (any_eq_true _ _).1 (show
    (readBlock threeBlocksParams threeBlocksLog
      { startAt threeBlocksParams threeBlocksLog ⟨0, 0, 0⟩ with record_num_ := 0 }).any (fun x => x.2.buf_ ≠ [] ∧
        threeBlocksParams.block_size_ ≤ x.2.buf_.length ∧
          soundPrev threeBlocksParams.toReaderParams x.2.buf_ = some 0) = true by decide +kernel)
  obtain ⟨hne, hlen, hsound⟩ := of_decide_eq_true hs
  obtain rfl : found = true := hfound
  have hharmless : Harmless threeBlocksParams threeBlocksLog ⟨0, 0, 0⟩ r := by
    refine ⟨of_decide_eq_true hrecord, fun n c hc => ?_, fun _ hshort => absurd hshort.2.2.1 (by decide)⟩
    -- The first block of the log has no block before it.
    exact fun hbroken => hbroken.1 (nextSound_first rfl hread hne hlen hsound hc)
  obtain ⟨r', hseek, hsame⟩ := used_reader_seeks threeBlocksParams threeBlocksLog _ r ⟨0, 0, 0⟩ r₀ hrun hfresh hharmless
  exact ⟨r, r₀, r', hrun, hfresh, hseek, hsame⟩

/-- Behind the last record the checksum of the last block stays, and the second block looks out of order. -/
theorem seek_keeps_last_checksum :
    ((run (LogReader.step threeBlocksParams threeBlocksLog) {} [.getNextRecord, .getNextRecord, .getNextRecord]).bind
      fun r => (LogReader.seek threeBlocksParams threeBlocksLog ⟨0, 1, 0⟩ r).bind fun (found, r) =>
        (outputs threeBlocksParams threeBlocksLog 3 r).map fun used => (found, used)) =
        some (true, [(true, []), (true, [2]), (true, [3])]) ∧
      ((LogReader.seek threeBlocksParams threeBlocksLog ⟨0, 1, 0⟩ {}).bind fun (found, r) =>
        (outputs threeBlocksParams threeBlocksLog 3 r).map fun fresh => (found, fresh)) =
        some (true, [(true, [2]), (true, [3]), (false, [])]) := by
  decide +kernel

end Whispercast.Logio
