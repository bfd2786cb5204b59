import Whispercast.Logio.Damage
import Whispercast.Logio.LogCursor

/-!
# Positions in a log

A position names a file, a block and a number of records in the block. The writer counts the pieces that it has put
into the block, and a reader that comes from the beginning counts the records that were complete in the block, the end
of a record from the block before among them. A reader that seeks passes over such an end and does not count it.
-/

namespace Whispercast.Logio

open Io Library RecordReader LogReader List Option Recording

variable {p : LogParams} {d : Disk} {blks bs bs' frs : List (List Piece)} {f b k : Nat} {gs fs : List Piece}
  {ms : List Bytes}

/-! ## Reading from the beginning -/

theorem readRecords_succ {r r' r'' : LogReader} {datas : List Bytes} {data : Bytes}
    (h : readRecords p d k r = some (datas, r')) (hnext : getNextRecord p d r' = some (true, data, r'')) :
    readRecords p d (k + 1) r = some (datas ++ [data], r'') := by
  induction k generalizing r datas with
  | zero =>
    cases h
    rw [readRecords, hnext]
    rfl
  | succ k ih =>
    rw [readRecords] at h ⊢
    obtain ⟨⟨more, _, _⟩, hfirst, h⟩ := bind_eq_some_iff.1 h
    cases more with
    | false => cases h
    | true =>
      obtain ⟨⟨_, _⟩, hrest, heq⟩ := map_eq_some_iff.1 h
      cases heq
      rw [hfirst, bind_some]
      dsimp only
      rw [if_pos rfl, ih hrest]
      rfl

/-- A new reader begins at the first block. -/
theorem GoodLog.getNextRecord_new (h : GoodLog p d blks) :
    getNextRecord p d {} = LogReader.nextLoop p d (LogReader.diskSize d + 2) (logAt p 0 0 0 {} [] 0) := by
  have hrewind : rewind d {} = ({ file_num_ := (0 : Nat) } : LogReader) := by
    rw [rewind, h.disk.first]
    rfl
  have hnot : ¬ ({ file_num_ := (0 : Nat) } : LogReader).file_num_ = -1 := by decide
  rw [getNextRecord, if_pos rfl, hrewind, if_neg hnot, if_pos rfl]
  rw [show ({ file_num_ := (0 : Nat) } : LogReader).file_num_ = ((0 : Nat) : Int) from rfl,
    h.blocks.openFile (by rw [Nat.zero_mul]; exact Nat.zero_le _)]
  rfl

/-- The state behind `k` records: the last of them ends in the block that has been read, and the records are counted
that were complete there. -/
inductive Behind (p : LogParams) (blks frs : List (List Piece)) : Nat → LogReader → Prop where
  | new : Behind p blks frs 0 {}
  | record {k errors : Nat} {bs bs' : List (List Piece)} {gs fs : List Piece} (hblks : blks = bs ++ (gs ++ fs) :: bs')
      (hends : 0 < ends gs) (hpieces : bs.flatten ++ gs = (frs.take k).flatten) :
      Behind p blks frs k (logAt p (bs.length / p.blocks_per_file_) (bs.length % p.blocks_per_file_ + 1) (ends gs)
        (cursor fs {} (blockCrc p.toReaderParams (chainEnd p.toReaderParams 0 bs) (gs ++ fs))) [] errors)

theorem take_succ_flatten {fr : List Piece} (h : frs[k]? = some fr) :
    (frs.take (k + 1)).flatten = (frs.take k).flatten ++ fr := by
  rw [take_add_one, h]
  simp

/-- The last part of a record has one end. -/
theorem ends_tail {fr x : List Piece} {m : Bytes} (h : Carries true m fr) (hfr : fr = x ++ gs) (hgs : gs ≠ []) :
    ends gs = 1 := by
  by_cases hx : x = []
  · subst hx
    rw [nil_append] at hfr
    rw [← hfr, h.ends_eq]
  · obtain ⟨_, hm'⟩ := h.rest hfr hx hgs
    exact hm'.ends_eq

/-- Records are read from the beginning. -/
theorem GoodLog.readRecords (h : GoodLog p d blks) (hms : List.Forall₂ (Carries true) ms frs)
    (hflatten : blks.flatten = frs.flatten) (hk : k ≤ ms.length) :
    ∃ r, LogReader.readRecords p d k {} = some (ms.take k, r) ∧ Behind p blks frs k r := by
  induction k with
  | zero => exact ⟨{}, rfl, .new⟩
  | succ k ih =>
    obtain ⟨r, hread, hbehind⟩ := ih (by omega)
    have hlen := hms.length_eq
    have hm : ms[k]? = some ms[k] := getElem?_eq_getElem (by omega)
    have hfr : frs[k]? = some frs[k] := getElem?_eq_getElem (by omega)
    have hcarries : Carries true ms[k] frs[k] := (forall₂_iff_get.1 hms).2 k (by omega) (by omega)
    generalize ms[k] = m at hm hcarries
    generalize frs[k] = fr at hfr hcarries
    have htake : ms.take (k + 1) = ms.take k ++ [m] := by rw [take_add_one, hm]; rfl
    have hfrs : frs.flatten = (frs.take k).flatten ++ (fr ++ (frs.drop (k + 1)).flatten) := by
      rw [← append_assoc, ← take_succ_flatten hfr, ← flatten_append, take_append_drop]
    cases hbehind with
    | new =>
      have hpieces : [] ++ blks.flatten = fr ++ (frs.drop (0 + 1)).flatten := by
        rw [nil_append, hflatten, hfrs]
        rfl
      obtain ⟨r', hloop, hat⟩ := @GoodLog.nextLoop p d blks [] blks 0 0 0 0 {} [] [] {} 0 m h _ fr _ rfl (by simp)
        (Nat.zero_le _) (.cursor _ [] {} 0) (fun hbad => hbad.1 rfl) (by simp [Short]) hcarries.completes hpieces
        (h.fuel (show blks = [] ++ blks from rfl))
      refine ⟨r', ?_, ?_⟩
      · rw [htake]
        exact readRecords_succ hread (h.getNextRecord_new.trans hloop)
      · cases hat with
        | here hnil => exact absurd (append_eq_nil_iff.1 hnil.symm).1 hcarries.ne_nil
        | @later bs₁ bs₂ gs fs' hblocks hfr' hgs =>
          have hone := ends_tail hcarries (x := bs₁.flatten) (by rw [hfr']; rfl) hgs
          have hbehind := @Behind.record p blks frs (0 + 1) 0 bs₁ bs₂ gs fs' hblocks (by omega) (by
            rw [take_succ_flatten hfr, hfr']
            rfl)
          rw [hone] at hbehind
          exact hbehind
    | @record _ errors bs bs' gs fs hblks hends hpieces =>
      have hfits := h.fits (gs ++ fs) (by rw [hblks]; simp)
      have hcrc : chainEnd p.toReaderParams 0 (bs ++ [gs ++ fs]) =
          blockCrc p.toReaderParams (chainEnd p.toReaderParams 0 bs) (gs ++ fs) := by
        rw [chainEnd_append]
        rfl
      have hblks' : blks = (bs ++ [gs ++ fs]) ++ bs' := by rw [hblks, append_assoc]; rfl
      have hplace : bs.length / p.blocks_per_file_ * p.blocks_per_file_ + (bs.length % p.blocks_per_file_ + 1) =
          (bs ++ [gs ++ fs]).length := by
        rw [← Nat.add_assoc, Nat.div_add_mod', length_append]
        rfl
      have hleft : fs ++ bs'.flatten = fr ++ (frs.drop (k + 1)).flatten := by
        rw [hblks, flatten_append, flatten_cons, hfrs, ← hpieces] at hflatten
        simp only [append_assoc] at hflatten
        exact append_cancel_left (append_cancel_left hflatten)
      obtain ⟨r', hloop, hat⟩ := @GoodLog.nextLoop p d blks (bs ++ [gs ++ fs]) bs' (bs.length / p.blocks_per_file_)
        (bs.length % p.blocks_per_file_ + 1) (ends gs) errors _ [] fs {} _ m h _ fr _ hblks' hplace
        (Nat.mod_lt _ h.blocks.files_pos) (.cursor _ _ _ _) (by rw [hcrc]; exact fun hbad => hbad.2.2 rfl)
        (fun g hg => hfits.short g (mem_append_right _ hg)) hcarries.completes hleft (h.fuel hblks')
      refine ⟨r', ?_, ?_⟩
      · rw [htake]
        exact readRecords_succ hread ((getNextRecord_logAt _ _ _ _ _ _ _ _).trans hloop)
      · cases hat with
        | @here fs' hfs =>
          subst hfs
          have hbehind := @Behind.record p blks frs (k + 1) errors bs bs' (gs ++ fr) fs'
            (by rw [hblks, append_assoc]) (by rw [ends_append]; omega) (by
              rw [take_succ_flatten hfr, ← hpieces, append_assoc])
          rw [ends_append, hcarries.ends_eq, append_assoc] at hbehind
          exact hbehind
        | @later bs₁ bs₂ gs' fs' hblocks hfr' hgs =>
          have hone := ends_tail hcarries (x := fs ++ bs₁.flatten) (by rw [hfr', append_assoc]) hgs
          have hbehind := @Behind.record p blks frs (k + 1) errors (bs ++ [gs ++ fs] ++ bs₁) bs₂ gs' fs'
            (by rw [hblks', hblocks]; simp) (by omega) (by
              rw [take_succ_flatten hfr, ← hpieces, hfr']
              simp)
          rw [hone] at hbehind
          exact hbehind

/-! ## Seeking -/

variable {n errors : Nat} {reader : RecordReader} {buf : Bytes} {last : Int32}

/-- Whole records are skipped. -/
theorem skipTo_records (p : LogParams) (f b n errors : Nat) {mid : List (List Piece)}
    (hms : List.Forall₂ (Carries true) ms mid) (hshort : Short mid.flatten)
    (hgo : GoesOn p.toReaderParams reader buf (mid.flatten ++ fs) {} last) (more : Nat) :
    ∃ reader' buf', skipTo p (mid.length + more) (logAt p f b n reader buf errors) =
        skipTo p more (logAt p f b (n + mid.length) reader' buf' errors) ∧
      GoesOn p.toReaderParams reader' buf' fs {} last := by
  induction hms generalizing n reader buf with
  | nil => exact ⟨reader, buf, by simp, hgo⟩
  | @cons m fr ms mid hm _ ih =>
    rw [flatten_cons] at hshort hgo
    rw [append_assoc] at hgo
    have hread := readRecord_logAt f b n errors
      (hgo false _ (returns_record (fun g hg => hshort g (mem_append_left _ hg)) hm.completes))
    obtain ⟨reader', buf', hskip, hgo'⟩ := ih (n := n + 1) (fun g hg => hshort g (mem_append_right _ hg))
      (.cursor p.toReaderParams (mid.flatten ++ fs) {} last)
    refine ⟨reader', buf', ?_, hgo'⟩
    rw [length_cons, show mid.length + 1 + more = (mid.length + more) + 1 by omega, skipTo, hread,
      bind_some, show n + (mid.length + 1) = n + 1 + mid.length by omega, ← hskip]
    rfl

/-- A new reader gets to a position in a file. -/
theorem GoodLog.seek_new (h : GoodLog p d blks) (hle : f * p.blocks_per_file_ ≤ blks.length) {records : Nat}
    (hshort : ¬ Shortcut d ⟨f, b, records⟩) :
    seek p d ⟨f, b, records⟩ {} =
      if records = 0 then some (true, logAt p f b 0 {} [] 0)
      else (LogReader.readBlock p d (logAt p f b 0 {} [] 0)).bind fun (ok, r) =>
        if ok = false then some (false, r)
        else if r.buf_.length ≠ p.block_size_ then none
        else skipTo p records { r with record_num_ := 0 } := by
  have hnull : ¬ (⟨f, b, records⟩ : LogPos).IsNull := by
    show ¬ (f : Int) = -1
    omega
  rw [seek, if_neg hnull, if_neg hshort, show (⟨f, b, records⟩ : LogPos).file_num_ = (f : Int) from rfl, h.blocks.openFile hle,
    bind_some]
  dsimp only
  rw [if_pos rfl, advanceToPosInFile, show (logAt p f 0 0 ({} : LogReader).reader_.clear [] ({} : LogReader).num_errors_).file_ =
    some ⟨f, 0 * p.block_size_⟩ from rfl, bind_some]
  dsimp only
  rw [if_neg (by simp [logAt]), if_neg (by omega), show ((b : Int)).toNat = b from rfl,
    show ((records : Int)).toNat = records from rfl]
  have hzero : (records : Int) = 0 ↔ records = 0 := by omega
  simp only [hzero]
  rfl

/-- A seek to a block whose records are to be skipped. -/
theorem GoodLog.seek_records (h : GoodLog p d blks) (hblks : blks = bs ++ fs :: bs')
    (hpos : f * p.blocks_per_file_ + b = bs.length) (hb : b < p.blocks_per_file_) {records : Nat} (hrecords : 0 < records) :
    seek p d ⟨f, b, records⟩ {} = skipTo p records (logAt p f (b + 1) 0 (cursor [] {} 0)
      (blockBytes p.toReaderParams (chainEnd p.toReaderParams 0 bs) fs) 0) := by
  have hfits := h.fits fs (hblks ▸ mem_append_right _ mem_cons_self)
  have hle : f * p.blocks_per_file_ ≤ blks.length := by rw [hblks, length_append]; omega
  have hshort : ¬ Shortcut d ⟨f, b, records⟩ := by
    intro hshort
    have hzero : (records : Int) = 0 := hshort.2.1
    omega
  have hdiv : bs.length / p.blocks_per_file_ = f := by
    rw [← hpos, Nat.mul_comm, Nat.mul_add_div h.blocks.files_pos, Nat.div_eq_of_lt hb, Nat.add_zero]
  have hmod : bs.length % p.blocks_per_file_ = b := by
    rw [← hpos, Nat.mul_comm, Nat.mul_add_mod, Nat.mod_eq_of_lt hb]
  have hread := @GoodLog.readBlock_next p d blks bs bs' f b 0 {} fs h hblks hpos hb.le rfl
  rw [hdiv, hmod] at hread
  rw [h.seek_new hle hshort, if_neg (by omega), hread, bind_some]
  dsimp only
  have hlen : ¬ (logAt p f (b + 1) 0 {} (blockBytes p.toReaderParams (chainEnd p.toReaderParams 0 bs) fs) 0).buf_.length ≠
      p.block_size_ := not_not.2 hfits.length_block
  rw [if_neg (by simp), if_neg hlen]
  rfl

/-- A seek to the beginning of a block. -/
theorem GoodLog.seek_block (h : GoodLog p d blks) (hblks : blks = bs ++ bs')
    (hpos : f * p.blocks_per_file_ + b = bs.length) (hb : b < p.blocks_per_file_) :
    ∃ r, seek p d ⟨f, b, 0⟩ {} = some (true, r) ∧ Ready p d blks bs'.flatten r := by
  have hle : f * p.blocks_per_file_ ≤ blks.length := by rw [hblks, length_append]; omega
  by_cases hshort : Shortcut d ⟨f, b, 0⟩
  · -- The file is opened when the next record is read.
    have hzero : (b : Int) = 0 := hshort.1
    obtain rfl : b = 0 := by omega
    have hnull : ¬ (⟨f, (0 : Nat), 0⟩ : LogPos).IsNull := by
      show ¬ (f : Int) = -1
      omega
    refine ⟨{ file_num_ := f, record_num_ := 0 }, by rw [seek, if_neg hnull, if_pos hshort], ⟨f, 0, 0, {}, [], 0, [], 0, bs,
      bs', hblks, h.getNextRecord_closed hle _ rfl rfl, hpos, hb.le, .cursor _ [] {} 0, ?_, by simp [Short], rfl⟩⟩
    exact fun hbad => hbad.2.1 rfl
  · refine ⟨_, (h.seek_new hle hshort).trans (if_pos rfl), ⟨f, b, 0, {}, [], 0, [], 0, bs, bs', hblks,
      getNextRecord_logAt _ _ _ _ _ _ _ _, hpos, hb.le, .cursor _ [] {} 0, ?_, by simp [Short], rfl⟩⟩
    exact fun hbad => hbad.2.1 rfl

/-! ## The law of a position -/

/-- A new reader that seeks this position delivers all records but the first `k`. -/
def Law (p : LogParams) (d : Disk) (ms : List Bytes) (pos : LogPos) (k : Nat) : Prop :=
  ∃ r, seek p d pos {} = some (true, r) ∧ Delivers p d r (ms.drop k)

theorem length_flatten_take_le (l : List (List Piece)) {i j : Nat} (hij : i ≤ j) :
    (l.take i).flatten.length ≤ (l.take j).flatten.length := by
  have hsplit := take_append_drop i (l.take j)
  rw [take_take, Nat.min_eq_left hij] at hsplit
  rw [← hsplit, flatten_append, length_append]
  exact Nat.le_add_right _ _

theorem length_flatten_take_lt {l : List (List Piece)} (h : ∀ fr ∈ l, fr ≠ []) {i j : Nat} (hij : i < j)
    (hj : j ≤ l.length) : (l.take i).flatten.length < (l.take j).flatten.length := by
  have hget : l[i]? = some l[i] := getElem?_eq_getElem (by omega)
  have hne := length_pos_iff.2 (h l[i] (getElem_mem _))
  have hle := length_flatten_take_le l (show i + 1 ≤ j by omega)
  rw [take_succ_flatten hget, length_append] at hle
  omega

theorem carries_ne_nil (hms : List.Forall₂ (Carries true) ms frs) : ∀ fr ∈ frs, fr ≠ [] := by
  induction hms with
  | nil => simp
  | cons hm _ ih => exact forall_mem_cons.2 ⟨hm.ne_nil, ih⟩

section Law

variable {frs₁ frs₂ : List (List Piece)} {begun rest : List Piece}

section

variable (h : GoodLog p d blks) (hms : List.Forall₂ (Carries true) ms frs) (hflatten : blks.flatten = frs.flatten)
    (hblks : blks = bs ++ (gs ++ fs) :: bs') (hpos : f * p.blocks_per_file_ + b = bs.length)
    (hb : b < p.blocks_per_file_) (hpieces : bs.flatten ++ gs = (frs.take k).flatten)

include h hms hflatten hblks hpos hb hpieces

/-- The position is that behind the first `k` records, where a block begins with a record. -/
theorem GoodLog.law (hfrs : frs = frs₁ ++ frs₂) (hbs : bs.flatten = frs₁.flatten) : Law p d ms ⟨f, b, ends gs⟩ k := by
  have hle : frs₁.length ≤ k := by
    by_contra hlt
    have hlen := length_flatten_take_lt (carries_ne_nil hms) (show k < frs₁.length by omega) (by rw [hfrs]; simp)
    rw [← hpieces, hfrs, take_left, ← hbs, length_append] at hlen
    omega
  have htake : frs.take k = frs₁ ++ frs₂.take (k - frs₁.length) := by
    rw [hfrs, take_append, take_of_length_le hle]
  have hgs : gs = (frs₂.take (k - frs₁.length)).flatten := by
    rw [htake, flatten_append, hbs] at hpieces
    exact append_cancel_left hpieces
  have hmid : Forall₂ (Carries true) ((ms.drop frs₁.length).take (k - frs₁.length)) (frs₂.take (k - frs₁.length)) := by
    have hdrop := forall₂_drop frs₁.length hms
    rw [hfrs, drop_left] at hdrop
    exact forall₂_take _ hdrop
  have hleft : fs ++ bs'.flatten = (frs.drop k).flatten := by
    rw [← take_append_drop k frs, flatten_append, ← hpieces, hblks, flatten_append, flatten_cons]
      at hflatten
    simp only [append_assoc] at hflatten
    exact append_cancel_left (append_cancel_left hflatten)
  have hrest := forall₂_drop k hms
  generalize frs₂.take (k - frs₁.length) = mid at hgs hmid
  subst hgs
  rw [ends_flatten hmid]
  rcases Nat.eq_zero_or_pos mid.length with hzero | hpos'
  · obtain rfl := eq_nil_of_length_eq_zero hzero
    obtain ⟨r, hseek, hready⟩ := h.seek_block hblks hpos hb
    rw [flatten_cons, flatten_nil, nil_append, hleft] at hready
    exact ⟨r, hseek, h.delivers hrest hready⟩
  · have hfits := h.fits (mid.flatten ++ fs) (by rw [hblks]; simp)
    have hnot : ¬ Broken (chainEnd p.toReaderParams 0 bs) 0 := fun hbad => hbad.2.1 rfl
    obtain ⟨reader, buf, hskip, hgo⟩ := skipTo_records p f (b + 1) 0 0 hmid
      (fun g hg => hfits.short g (mem_append_left _ hg)) (GoesOn.block hfits hnot) 0
    have hcrc : chainEnd p.toReaderParams 0 (bs ++ [mid.flatten ++ fs]) =
        blockCrc p.toReaderParams (chainEnd p.toReaderParams 0 bs) (mid.flatten ++ fs) := by
      rw [chainEnd_append]
      rfl
    refine ⟨_, (h.seek_records hblks hpos hb hpos').trans hskip, h.delivers hrest ⟨f, b + 1, _, reader, buf, 0, fs, _,
      bs ++ [mid.flatten ++ fs], bs', by rw [hblks, append_assoc]; rfl, getNextRecord_logAt _ _ _ _ _ _ _ _,
      by rw [← Nat.add_assoc, hpos, length_append]; rfl, hb, hgo, by rw [hcrc]; exact fun hbad => hbad.2.2 rfl,
      fun g hg => hfits.short g (mem_append_right _ hg), hleft⟩⟩

/-- The end of a record at the beginning of the block is counted in the position, but not by the reader that seeks. -/
theorem GoodLog.not_law (hfrs : frs = frs₁ ++ (begun ++ rest) :: frs₂)
    (hbs : bs.flatten = frs₁.flatten ++ begun) (hbegun : begun ≠ []) (hrest : rest ≠ []) :
    ¬ Law p d ms ⟨f, b, ends gs⟩ k := by
  rintro ⟨r, hseek, hdelivers⟩
  have hlt : frs₁.length < k := by
    by_contra hge
    have hlen := length_flatten_take_le frs (Nat.not_lt.1 hge)
    rw [← hpieces, hbs, hfrs, take_left, length_append, length_append] at hlen
    have := length_pos_iff.2 hbegun
    omega
  obtain ⟨j, rfl⟩ : ∃ j, k = frs₁.length + 1 + j := ⟨k - frs₁.length - 1, by omega⟩
  have htake : frs.take (frs₁.length + 1 + j) = frs₁ ++ (begun ++ rest) :: frs₂.take j := by
    rw [hfrs, take_append, take_of_length_le (by omega), show frs₁.length + 1 + j - frs₁.length = j + 1 by omega,
      take_succ_cons]
  have hgs : gs = rest ++ (frs₂.take j).flatten := by
    rw [htake, flatten_append, flatten_cons, hbs, append_assoc, append_assoc] at hpieces
    exact append_cancel_left (append_cancel_left hpieces)
  have hcarries := forall₂_drop frs₁.length hms
  rw [hfrs, drop_left] at hcarries
  obtain ⟨m, ms', hm, hms', hdropms⟩ : ∃ m ms', Carries true m (begun ++ rest) ∧ Forall₂ (Carries true) ms' frs₂ ∧
      ms.drop frs₁.length = m :: ms' := by
    generalize ms.drop frs₁.length = l at hcarries
    cases hcarries with
    | @cons m _ ms' _ hm hms' => exact ⟨m, ms', hm, hms', rfl⟩
  obtain ⟨_, hstray⟩ := hm.rest rfl hbegun hrest
  have hmid := forall₂_take j hms'
  have hleft : fs ++ bs'.flatten = (frs₂.drop j).flatten := by
    have hdrop : frs.drop (frs₁.length + 1 + j) = frs₂.drop j := by
      rw [hfrs, drop_append, drop_of_length_le (by omega),
        show frs₁.length + 1 + j - frs₁.length = j + 1 by omega]
      rfl
    rw [← take_append_drop (frs₁.length + 1 + j) frs, flatten_append, ← hpieces, hblks, flatten_append,
      flatten_cons, hdrop] at hflatten
    simp only [append_assoc] at hflatten
    exact append_cancel_left (append_cancel_left hflatten)
  have hmsdrop : ms.drop (frs₁.length + 1 + j) = ms'.drop j := by
    rw [Nat.add_assoc, ← drop_drop, hdropms, Nat.add_comm 1 j]
    rfl
  have hfits := h.fits (gs ++ fs) (by rw [hblks]; simp)
  have hnot : ¬ Broken (chainEnd p.toReaderParams 0 bs) 0 := fun hbad => hbad.2.1 rfl
  have hcrc : chainEnd p.toReaderParams 0 (bs ++ [gs ++ fs]) =
      blockCrc p.toReaderParams (chainEnd p.toReaderParams 0 bs) (gs ++ fs) := by
    rw [chainEnd_append]
    rfl
  -- The block is read, and the end of the record is passed over.
  have hgo : GoesOn p.toReaderParams (cursor [] {} 0) (blockBytes p.toReaderParams (chainEnd p.toReaderParams 0 bs)
      (gs ++ fs)) ((frs₂.take j).flatten ++ fs) {} (blockCrc p.toReaderParams (chainEnd p.toReaderParams 0 bs)
        (gs ++ fs)) := by
    intro out y hy
    refine GoesOn.block hfits hnot out y ?_
    have hassemble := Assembler.assemble_stray hstray
    have hpassed := returns_passed (fun g hg => hfits.short g (by rw [hgs]; simp [hg])) hassemble hy
    rw [← append_assoc, ← hgs] at hpassed
    exact hpassed
  have hends : ends gs = (frs₂.take j).length + 1 := by
    rw [hgs, ends_append, hstray.ends_eq, ends_flatten hmid, Nat.add_comm]
  obtain ⟨_, _, hskip, hgo'⟩ := skipTo_records p f (b + 1) 0 0 hmid
    (fun g hg => hfits.short g (by rw [hgs]; simp [hg])) hgo 1
  have hshort : Short fs := fun g hg => hfits.short g (mem_append_right _ hg)
  rw [h.seek_records hblks hpos hb (by omega), hends, hskip, skipTo] at hseek
  -- One more record is to be skipped, of those that are left.
  have hleft' := forall₂_drop j hms'
  rw [hmsdrop] at hdelivers
  generalize frs₂.drop j = frs' at hleft hleft'
  generalize ms'.drop j = ms'' at hdelivers hleft'
  have hfail : ∀ a', Assembler.assemble {} fs = ([], a') → False := by
    intro a' hassemble
    rw [readRecord_logAt _ _ _ _ (hgo' false _ (returns_noData h.blocks.size_pos hshort hassemble)), bind_some] at hseek
    simp at hseek
  cases hleft' with
  | nil =>
    rw [flatten_nil, append_eq_nil_iff] at hleft
    rw [hleft.1] at hfail
    exact hfail {} rfl
  | @cons m₀ fr ms₀ frs₀ hm₀ hms₀ =>
    have hskipped : ∀ c, fs = fr ++ c → c ++ bs'.flatten = frs₀.flatten → False := by
      rintro c rfl hmore
      rw [readRecord_logAt _ _ _ _ (hgo' false _ (returns_record (fun g hg => hshort g (mem_append_left _ hg))
        hm₀.completes)), bind_some] at hseek
      dsimp only at hseek
      rw [if_neg (by simp), skipTo, some.injEq, Prod.mk.injEq] at hseek
      have hready : Ready p d blks frs₀.flatten r := by
        rw [← hseek.2]
        exact ⟨f, b + 1, _, _, [], 0, c, _, bs ++ [gs ++ (fr ++ c)], bs', by rw [hblks, append_assoc]; rfl,
          getNextRecord_logAt _ _ _ _ _ _ _ _, by rw [← Nat.add_assoc, hpos, length_append]; rfl, hb,
          .cursor _ _ _ _, by rw [hcrc]; exact fun hbad => hbad.2.2 rfl,
          fun g hg => hshort g (mem_append_right _ hg), hmore⟩
      have hsame := congrArg length (hdelivers.unique (h.delivers hms₀ hready))
      simp at hsame
    rcases append_eq_append_iff.1 hleft with ⟨c, hc, hmore⟩ | ⟨c, hc, hmore⟩
    · by_cases hnil : c = []
      · subst hnil
        exact hskipped [] (by rw [hc, append_nil, append_nil]) hmore
      · subst hc
        obtain ⟨a', -, hassemble⟩ := hm₀.completes.split hnil
        exact hfail a' hassemble
    · exact hskipped c hc hmore.symm

end

end Law

/-! ## Positions of readers and writers -/

/-- The block of a position does not begin with the rest of a record, or the position is null. -/
def Regular (blocks_per_file : Nat) (es : List Extent) (pos : LogPos) : Prop :=
  pos.IsNull ∨ ∀ e ∈ es, ¬ (e.firstBlock < pos.file_num_.toNat * blocks_per_file + pos.block_num_.toNat ∧
    pos.file_num_.toNat * blocks_per_file + pos.block_num_.toNat ≤ e.lastBlock)

theorem GoodLog.law_iff (h : GoodLog p d blks) {es : List Extent} (hwritten : Written es frs blks [])
    (hblks : blks = bs ++ (gs ++ fs) :: bs') (hpos : f * p.blocks_per_file_ + b = bs.length)
    (hb : b < p.blocks_per_file_) (hpieces : bs.flatten ++ gs = (frs.take k).flatten) :
    Law p d (es.map Extent.record) ⟨f, b, ends gs⟩ k ↔ Regular p.blocks_per_file_ es ⟨f, b, ends gs⟩ := by
  have hms := carries_records hwritten.holds
  have hflatten : blks.flatten = frs.flatten := by
    rw [← hwritten.flatten, append_nil]
  have hcut := hwritten.cutAt (show bs.length ≤ blks.length by rw [hblks, length_append]; omega)
  rw [show blks.take bs.length = bs by rw [hblks, take_left]] at hcut
  have hblock : (f : Int).toNat * p.blocks_per_file_ + (b : Int).toNat = bs.length := hpos
  have hnull : ¬ (⟨f, b, ends gs⟩ : LogPos).IsNull := by
    show ¬ (f : Int) = -1
    omega
  have hregular : Regular p.blocks_per_file_ es ⟨f, b, ends gs⟩ ↔
      ∀ e ∈ es, ¬ (e.firstBlock < bs.length ∧ bs.length ≤ e.lastBlock) := by
    rw [Regular, or_iff_right hnull]
    simp only [hblock]
  rw [hregular]
  generalize hbs : bs.flatten = pieces at hcut
  cases hcut with
  | @between es₁ es₂ frs₁ frs₂ h₁ h₂ hlast hfirst =>
    refine iff_of_true (h.law hms hflatten hblks hpos hb hpieces rfl hbs) fun e he hspan => ?_
    rcases mem_append.1 he with he | he
    · exact absurd hspan.2 (Nat.not_le.2 (hlast e he))
    · exact absurd hspan.1 (Nat.not_lt.2 (hfirst e he))
  | @inside es₁ es₂ frs₁ frs₂ e begun rest h₁ h₂ he hlast hfirst hbegun hrest hspan =>
    refine iff_of_false (h.not_law hms hflatten hblks hpos hb hpieces rfl hbs hbegun hrest) fun hall => ?_
    exact hall e (mem_append_right _ mem_cons_self) hspan

/-- The null position is that of a new reader. -/
theorem GoodLog.law_null (h : GoodLog p d blks) (hms : List.Forall₂ (Carries true) ms frs)
    (hflatten : blks.flatten = frs.flatten) : Law p d ms ⟨-1, 0, 0⟩ 0 := by
  have hrewind : rewind d {} = ({ file_num_ := (0 : Nat) } : LogReader) := by
    rw [rewind, h.disk.first]
    rfl
  refine ⟨_, if_pos rfl, ?_⟩
  rw [hrewind, drop_zero]
  refine h.delivers hms ⟨0, 0, 0, {}, [], 0, [], 0, [], blks, rfl,
    h.getNextRecord_closed (by rw [Nat.zero_mul]; exact Nat.zero_le _) _ rfl rfl, by simp, Nat.zero_le _,
    .cursor _ [] {} 0, fun hbad => hbad.1 rfl, by simp [Short], by rw [nil_append, hflatten]⟩

/-- A reader tells where it is behind a record. -/
theorem GoodLog.tell_behind (h : GoodLog p d blks) (hgs : 0 < ends gs) (errors : Nat) (reader : RecordReader) (i : Nat) :
    tell p (logAt p (i / p.blocks_per_file_) (i % p.blocks_per_file_ + 1) (ends gs) reader [] errors) =
      some ⟨(i / p.blocks_per_file_ : Nat), (i % p.blocks_per_file_ : Nat), ends gs⟩ := by
  have hsize := h.blocks.size_pos
  have hpos : 0 < (i % p.blocks_per_file_ + 1) * p.block_size_ := Nat.mul_pos (Nat.succ_pos _) hsize
  rw [LogReader.tell, logAt]
  dsimp only
  rw [if_neg (by omega), if_neg (by simp), Nat.mul_div_cancel _ hsize, if_neg (by omega), Nat.cast_succ, Int.add_sub_cancel]

section Written

variable {w : WriterParams} {inflate : Bytes → Bool × Bytes} {blocks_per_file : Nat}

theorem Written.no_cont {es : List Extent} {ps : List Piece} (h : Written es frs blks ps) :
    ∀ g ∈ ps, g.cont = false := by
  have hdeal : ∀ (fr ps : List Piece) {first : Bool} {m : Bytes}, Carries first m fr → (∀ g ∈ ps, g.cont = false) →
      ∀ g ∈ (deal ps fr).2, g.cont = false := by
    intro fr
    induction fr with
    | nil => exact fun ps _ _ hfr => absurd rfl hfr.ne_nil
    | cons g fs ih =>
      intro ps first m hfr hps
      cases hfr with
      | last => exact forall_mem_append.2 ⟨hps, by simp⟩
      | @more _ data m _ hd hrest =>
        obtain ⟨_, _, rfl, -⟩ := hrest.first_eq
        exact ih [] hrest (by simp)
  induction h with
  | nil => simp
  | append _ hm ih => exact hdeal _ _ hm ih
  | dump => simp

theorem ends_of_no_cont (h : ∀ g ∈ gs, g.cont = false) : ends gs = gs.length :=
  countP_eq_length.2 fun g hg => by rw [h g hg]; rfl

variable {s : Recording} {ps : List Piece}

theorem Recording.Inv.goodLog (h : s.Inv w (w.reader inflate) frs blks ps)
    (hd : HoldsLog (w.block_size_ * blocks_per_file) d s.out) : GoodLog (w.logReader blocks_per_file inflate) d blks where
  fits := h.fits
  disk := h.out ▸ hd

/-- A new writer. -/
theorem LogWriter.refines_new (hw : w.Admitted) (hfiles : 0 < blocks_per_file) :
    LogWriter.Refines w blocks_per_file {} {} where
  recorder := rfl
  buf := rfl
  split := ⟨rfl, by simp, Nat.mul_pos (Nat.lt_of_le_of_lt (Nat.zero_le _) hw.room) hfiles⟩
  aligned := Nat.dvd_zero _

theorem logWriter_eq (hw : w.Admitted) (calls : List WriterCall) :
    logWriter w blocks_per_file calls = Library.run (LogWriter.step w blocks_per_file) {} calls := by
  rw [logWriter, RecordWriter.new, if_pos hw.size, bind_some]

/-- What a writer leaves when it is closed. -/
theorem LogWriter.Refines.close {x : LogWriter} (hw : w.Admitted) (hfiles : 0 < blocks_per_file)
    (h : x.Refines w blocks_per_file s) {s' : Recording} (hs : s.step w .finalize = some s')
    (hdvd : w.block_size_ ∣ s.out.length) (hdvd' : w.block_size_ ∣ s'.out.length) :
    ∃ d, x.close w blocks_per_file = some d ∧ HoldsLog (w.block_size_ * blocks_per_file) d s'.out := by
  have hsize : 0 < w.block_size_ := Nat.lt_of_le_of_lt (Nat.zero_le _) hw.room
  rw [Recording.step, ← h.recorder] at hs
  obtain ⟨⟨out, r⟩, hfin, rfl⟩ := map_eq_some_iff.1 hs
  have hout : w.block_size_ ∣ out.length := by
    rw [length_append] at hdvd'
    exact (Nat.dvd_add_right hdvd).1 hdvd'
  obtain ⟨_, hwrite, hx'⟩ := h.writeBuffer hfiles hsize
        (show ({ s with writer := r, out := s.out ++ out } : Recording).out = s.out ++ out from rfl) hout
  refine ⟨_, ?_, hx'.split.holdsLog⟩
  rw [LogWriter.close, hfin, bind_some]
  dsimp only
  rw [hwrite]
  rfl

/-- A writer that is to write a record tells where it will lie. -/
theorem law_writer (hw : w.Admitted) (hplain : w.deflate = none) (hfiles : 0 < blocks_per_file)
    (hd : HoldsLog (w.block_size_ * blocks_per_file) d s.out) {before after : List WriterCall} {call : WriterCall}
    (hcalls : ∀ c ∈ before ++ call :: after, c.Proper) (hcall : call.record ≠ [])
    (hs : record w (before ++ call :: after ++ [.finalize]) = some s) :
    ∃ x pos, logWriter w blocks_per_file before = some x ∧ x.tell w blocks_per_file = some pos ∧
      (Law (w.logReader blocks_per_file inflate) d (s.extents.map Extent.record) pos
          (before.flatMap WriterCall.record).length ↔ Regular blocks_per_file s.extents pos) := by
  have hsize : 0 < w.block_size_ := Nat.lt_of_le_of_lt (Nat.zero_le _) hw.room
  obtain ⟨s₁, frs₁, blks₁, ps₁, hrun₁, hinv₁, -, hrecords₁⟩ :=
    (inv_init : Inv w (w.reader inflate) {} [] [] []).run hw hplain
      fun c hc => hcalls c (mem_append_left _ hc)
  obtain ⟨_, frs₂, _, _, hrun₂, hinv₂, hgrown₂, hrecords₂⟩ :=
    hinv₁.run hw hplain fun c hc => hcalls c (mem_append_right _ hc)
  obtain ⟨s₃, blks₃, hstep, hinv₃, hgrown₃, _⟩ := hinv₂.finalize hw
  obtain rfl : s = s₃ := by
    rw [record_eq hw, run_append (run_append_eq_some.2 ⟨s₁, hrun₁, hrun₂⟩), run_cons, hstep] at hs
    exact (Option.some.inj hs).symm
  obtain ⟨x, hx, href⟩ := (LogWriter.refines_new hw hfiles).run hw hplain hfiles
    (inv_init : Inv w (w.reader inflate) {} [] [] [])
    (fun c hc => hcalls c (mem_append_left _ hc)) hrun₁
  have hgood := hinv₃.goodLog hd
  have hgrown := hgrown₂.trans hgrown₃
  -- The place of the block under way.
  obtain ⟨b, hb⟩ := href.aligned
  have hshort := href.split.short
  have hlen := href.split.length
  rw [hinv₁.out, length_chainBytes hinv₁.fits, show (w.reader inflate).block_size_ = w.block_size_ from rfl, hb,
    Nat.mul_comm w.block_size_ blocks_per_file, ← Nat.mul_assoc, Nat.mul_comm w.block_size_ b, ← Nat.add_mul] at hlen
  have hplace : x.files.length * blocks_per_file + b = blks₁.length := (Nat.eq_of_mul_eq_mul_right hsize hlen).symm
  have hbound : b < blocks_per_file := by
    rw [hb] at hshort
    exact Nat.lt_of_mul_lt_mul_left hshort
  have htell : x.tell w blocks_per_file = some ⟨x.files.length, b, ends ps₁⟩ := by
    rw [LogWriter.tell, if_neg (by rw [hb, Nat.mul_mod_right]; simp), if_neg (by rw [Nat.mul_comm] at hshort; omega), hb,
      Nat.mul_div_cancel_left _ hsize, href.recorder, hinv₁.writer, ends_of_no_cont hinv₁.written.no_cont]
    rfl
  -- The records before the position, and the block of it.
  have hcount : (before.flatMap WriterCall.record).length = frs₁.length := by
    rw [← hinv₁.written.holds.length_eq, ← length_map Extent.record, hrecords₁]
    simp
  have htake : frs₂.take frs₁.length = frs₁ := by
    obtain ⟨t, ht⟩ := hgrown.records
    rw [← ht, take_left]
  have hpieces : blks₁.flatten ++ ps₁ = (frs₂.take frs₁.length).flatten := by rw [htake, hinv₁.written.flatten]
  have hmore : frs₁.length < frs₂.length := by
    rw [← hinv₂.written.holds.length_eq, ← length_map Extent.record, hrecords₂, length_append,
      length_map, hinv₁.written.holds.length_eq, flatMap_cons, length_append]
    have := length_pos_iff.2 hcall
    omega
  obtain ⟨_, tl, hblks, hps⟩ := hgrown.blocks
  obtain ⟨fs, bs', hblks'⟩ : ∃ fs bs', blks₃ = blks₁ ++ (ps₁ ++ fs) :: bs' := by
    rcases eq_nil_or_concat tl with rfl | ⟨tl₀, g, rfl⟩
    · -- All pieces would be before the position.
      obtain ⟨rfl, heq⟩ := append_inj' hblks rfl
      cases heq
      obtain rfl := prefix_nil.1 hps
      have hall := hinv₃.written.flatten
      have hlt := length_flatten_take_lt (carries_ne_nil (carries_records hinv₃.written.holds)) hmore le_rfl
      rw [← hpieces, take_length, hall] at hlt
      exact absurd hlt (Nat.lt_irrefl _)
    · rw [concat_eq_append, ← cons_append, ← append_assoc] at hblks
      obtain ⟨rfl, -⟩ := append_inj' hblks rfl
      obtain ⟨fs, rfl⟩ := hps
      exact ⟨fs, tl₀, rfl⟩
  refine ⟨x, _, (logWriter_eq hw before).trans hx, htell, ?_⟩
  rw [hcount]
  exact hgood.law_iff hinv₃.written hblks' hplace hbound hpieces

end Written

/-- A new reader that seeks the position of a reader behind `k` records, or of a writer that is about to write a
record, goes on with the record that follows, when the block of the position does not begin with the rest of a record;
and only then. -/
theorem log_position_law_iff (p : WriterParams) (hp : p.Admitted) (hplain : p.deflate = none) (blocks_per_file : Nat)
    (hfiles : 0 < blocks_per_file) (inflate : Bytes → Bool × Bytes) (calls : List WriterCall)
    (hcalls : ∀ call ∈ calls, call.Proper) :
    ∃ d s, writeLog p blocks_per_file calls = some d ∧ record p (calls ++ [.finalize]) = some s ∧
      (∀ k ≤ (calls.flatMap WriterCall.record).length, ∃ r pos,
        readRecords (p.logReader blocks_per_file inflate) d k {} = some ((calls.flatMap WriterCall.record).take k, r) ∧
          tell (p.logReader blocks_per_file inflate) r = some pos ∧
            (Law (p.logReader blocks_per_file inflate) d (calls.flatMap WriterCall.record) pos k ↔
              Regular blocks_per_file s.extents pos)) ∧
      (∀ before call after, calls = before ++ call :: after → call.record ≠ [] → ∃ w pos,
        logWriter p blocks_per_file before = some w ∧ w.tell p blocks_per_file = some pos ∧
          (Law (p.logReader blocks_per_file inflate) d (calls.flatMap WriterCall.record) pos
              (before.flatMap WriterCall.record).length ↔ Regular blocks_per_file s.extents pos)) := by
  obtain ⟨_, frs, _, _, hrun, hinv₁, -, hrecords⟩ :=
    (inv_init : Inv p (p.reader inflate) {} [] [] []).run hp hplain hcalls
  obtain ⟨s, blks, hstep, hinv, -, hextents⟩ := hinv₁.finalize hp
  obtain ⟨w, hw, href⟩ := (LogWriter.refines_new hp hfiles).run hp hplain hfiles
    (inv_init : Inv p (p.reader inflate) {} [] [] [])
    hcalls hrun
  obtain ⟨d, hclose, hd⟩ := href.close hp hfiles hstep hinv₁.aligned hinv.aligned
  have hs : record p (calls ++ [.finalize]) = some s := by
    rw [record_eq hp, run_append hrun, run_cons, hstep]
    rfl
  have hms : s.extents.map Extent.record = calls.flatMap WriterCall.record := by
    rw [hextents, hrecords]
    rfl
  have hgood := hinv.goodLog hd
  have hflatten : blks.flatten = frs.flatten := by rw [← hinv.written.flatten, append_nil]
  have hcarries := carries_records hinv.written.holds
  refine ⟨d, s, ?_, hs, ?_, ?_⟩
  · rw [writeLog, logWriter_eq hp, hw, bind_some, hclose]
  · intro k hk
    rw [← hms] at hk ⊢
    obtain ⟨r, hread, hbehind⟩ := hgood.readRecords hcarries hflatten hk
    cases hbehind with
    | new => exact ⟨{}, ⟨-1, 0, 0⟩, hread, rfl, iff_of_true (hgood.law_null hcarries hflatten) (.inl rfl)⟩
    | @record _ errors bs bs' gs fs hblks hends hpieces =>
      refine ⟨_, _, hread, hgood.tell_behind hends errors _ _, ?_⟩
      exact hgood.law_iff hinv.written hblks (Nat.div_add_mod' _ _) (Nat.mod_lt _ hfiles) hpieces
  · rintro before call after rfl hcall
    have hlaw := @law_writer d p inflate blocks_per_file s hp hplain hfiles hd before after call hcalls hcall hs
    rwa [hms] at hlaw

/-! ## Samples -/

/-- A record that goes on into a second block, and one that follows there. -/
def spanningCalls : List WriterCall := [.stream (List.replicate 30 7), .stream [1]]

theorem log_position_law_small : ∃ d s, writeLog (smallBlocks none) 2 spanningCalls = some d ∧
      record (smallBlocks none) (spanningCalls ++ [.finalize]) = some s ∧
      (∀ k ≤ (spanningCalls.flatMap WriterCall.record).length, ∃ r pos,
        readRecords ((smallBlocks none).logReader 2 noInflate) d k {} =
            some ((spanningCalls.flatMap WriterCall.record).take k, r) ∧
          tell ((smallBlocks none).logReader 2 noInflate) r = some pos ∧
            (Law ((smallBlocks none).logReader 2 noInflate) d (spanningCalls.flatMap WriterCall.record) pos k ↔
              Regular 2 s.extents pos)) ∧
      (∀ before call after, spanningCalls = before ++ call :: after → call.record ≠ [] → ∃ w pos,
        logWriter (smallBlocks none) 2 before = some w ∧ w.tell (smallBlocks none) 2 = some pos ∧
          (Law ((smallBlocks none).logReader 2 noInflate) d (spanningCalls.flatMap WriterCall.record) pos
              (before.flatMap WriterCall.record).length ↔ Regular 2 s.extents pos)) :=
  log_position_law_iff (smallBlocks none) (smallBlocks_admitted none) rfl 2 (by decide) noInflate spanningCalls
    (by decide)

/-- Behind the first record the reader tells a position from which the second one is not found any more. -/
theorem position_behind_spanning_record :
    (writeLog (smallBlocks none) 2 spanningCalls).bind (fun d =>
      (readRecords ((smallBlocks none).logReader 2 noInflate) d 1 {}).bind fun (first, r) =>
        (readRecords ((smallBlocks none).logReader 2 noInflate) d 1 r).bind fun (second, _) =>
          (tell ((smallBlocks none).logReader 2 noInflate) r).bind fun pos =>
            (seek ((smallBlocks none).logReader 2 noInflate) d pos {}).bind fun (found, r) =>
              (getNextRecord ((smallBlocks none).logReader 2 noInflate) d r).map fun (more, _, _) =>
                ((first ++ second, pos), (found, more))) =
      some (([List.replicate 30 7, [1]], ⟨0, 1, 1⟩), (true, false)) := by
  decide +kernel

end Whispercast.Logio
