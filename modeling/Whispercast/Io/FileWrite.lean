import Whispercast.Io.NumStreaming

/-!
# Writing a stream to a file

Model of `File::Write(ms, len)` (`common/io/file/file.cc`) over the `write` call of the system, which fails or takes as
many bytes as it likes. The stream is consumed in pieces of 512 bytes, and what a call leaves of its piece is gone.
-/

namespace Whispercast.Io

open List

/-- What a call of `write` does: it fails, or it takes some bytes. A number above the size stands for all of them. -/
inductive WriteCall where
  | error
  | wrote (n : Nat)
  deriving DecidableEq

/-- What the first of the calls to come takes of `size` bytes. Behind the last one all calls take everything. -/
def WriteCall.taken (size : Nat) : List WriteCall → Option Nat
  | [] => some size
  | .error :: _ => none
  | .wrote n :: _ => some (min n size)

namespace File

/-- The size of the buffer in `File::Write(ms, len)`. -/
def sizeofTmp : Nat := 512

/-- What `File::Write(ms, len)` does. -/
structure Written where
  /-- What it returns; `none` is a negative number. -/
  cb : Option Nat
  /-- What the file has received. -/
  out : Bytes
  /-- What is left in the stream. -/
  ms : Bytes
  /-- The calls to come. -/
  calls : List WriteCall
  deriving DecidableEq

/-- The loop of `File::Write(ms, len)`, for `n` turns at most. -/
def writeLoop : Nat → Nat → Nat → Bytes → List WriteCall → Written
  | 0, _, write, ms, calls => ⟨some write, [], ms, calls⟩
  | n + 1, len, write, ms, calls =>
    if write < len ∧ ms ≠ [] then
      let size := min (min (len - write) sizeofTmp) ms.length
      match WriteCall.taken size calls with
      | none => ⟨none, [], ms.drop size, calls.tail⟩
      | some w =>
        if w = 0 then ⟨some write, [], ms.drop size, calls.tail⟩
        else
          let r := writeLoop n len (write + w) (ms.drop size) calls.tail
          { r with out := (ms.take size).take w ++ r.out }
    else ⟨some write, [], ms, calls⟩

/-- `File::Write(ms, len)`. Each turn takes a byte of the stream at least. -/
def write (len : Nat) (ms : Bytes) (calls : List WriteCall) : Written := writeLoop (ms.length + 1) len 0 ms calls

/-! ## Calls -/

/-- The calls for the pieces of `left` bytes. -/
def pieces (left : Nat) : Nat := (left + (sizeofTmp - 1)) / sizeofTmp

/-- Each piece of `left` bytes is taken whole. -/
def Whole : Nat → List WriteCall → Prop
  | _, [] => True
  | left, .error :: _ => left = 0
  | left, .wrote n :: calls => left = 0 ∨ min left sizeofTmp ≤ n ∧ Whole (left - sizeofTmp) calls

/-- On the way through a stream of `avail` bytes a call fails, or takes nothing of a piece that is not the last. -/
def Stops : Nat → List WriteCall → Prop
  | _, [] => False
  | avail, .error :: _ => 0 < avail
  | avail, .wrote n :: calls => if n = 0 then sizeofTmp < avail else 0 < avail ∧ Stops (avail - sizeofTmp) calls

/-- From a stream of `avail` bytes `left` bytes are written, with what is lost on the way made up from behind. -/
def MakesUp : Nat → Nat → List WriteCall → Prop
  | left, avail, [] => left ≤ avail
  | left, _, .error :: _ => left = 0
  | left, avail, .wrote n :: calls =>
    left = 0 ∨ n ≠ 0 ∧ avail ≠ 0 ∧
      MakesUp (left - min n (min (min left sizeofTmp) avail)) (avail - min (min left sizeofTmp) avail) calls

/-- Of the first `left` bytes of a stream of `avail` bytes a call takes a piece in part, and the bytes that it leaves are
made up from behind. -/
def Loses : Nat → Nat → List WriteCall → Prop
  | _, _, [] => False
  | _, _, .error :: _ => False
  | left, avail, .wrote n :: calls =>
    left ≠ 0 ∧ n ≠ 0 ∧
      if min left sizeofTmp ≤ n then Loses (left - sizeofTmp) (avail - sizeofTmp) calls
      else MakesUp (left - n) (avail - min left sizeofTmp) calls

/-! ## The loop -/

section Loop

variable {n len wr left : Nat} {ms : Bytes} {calls : List WriteCall}

/-- One turn. -/
theorem writeLoop_succ (hleft : wr < len) (hms : ms ≠ []) : writeLoop (n + 1) len wr ms calls =
      match WriteCall.taken (min (min (len - wr) sizeofTmp) ms.length) calls with
      | none => ⟨none, [], ms.drop (min (min (len - wr) sizeofTmp) ms.length), calls.tail⟩
      | some w =>
        if w = 0 then ⟨some wr, [], ms.drop (min (min (len - wr) sizeofTmp) ms.length), calls.tail⟩
        else
          let r := writeLoop n len (wr + w) (ms.drop (min (min (len - wr) sizeofTmp) ms.length)) calls.tail
          { r with out := (ms.take (min (min (len - wr) sizeofTmp) ms.length)).take w ++ r.out } := by
  rw [writeLoop, if_pos ⟨hleft, hms⟩]

theorem writeLoop_done (h : len ≤ wr ∨ ms = []) : writeLoop n len wr ms calls = ⟨some wr, [], ms, calls⟩ := by
  cases n with
  | zero => rfl
  | succ n =>
    rw [writeLoop, if_neg]
    rintro ⟨_, hne⟩
    rcases h with _ | hnil
    · omega
    · exact hne hnil

theorem pieces_succ (h : left ≠ 0) : pieces left = pieces (left - sizeofTmp) + 1 := by
  simp only [pieces, sizeofTmp]
  omega

/-- The size of a piece. -/
theorem piece_spec (h : left ≠ 0) :
    0 < min left sizeofTmp ∧ min left sizeofTmp ≤ left ∧ left - sizeofTmp = left - min left sizeofTmp := by
  have hpos : 0 < sizeofTmp := by decide
  omega

/-- What is taken of a piece when all are taken whole. -/
theorem Whole.taken (h : Whole left calls) (hne : left ≠ 0) :
    WriteCall.taken (min left sizeofTmp) calls = some (min left sizeofTmp) ∧ Whole (left - sizeofTmp) calls.tail := by
  match calls, h with
  | [], _ => exact ⟨rfl, trivial⟩
  | .error :: _, h => exact absurd h hne
  | .wrote k :: calls, h =>
    rcases h with hzero | ⟨hle, hrest⟩
    · exact absurd hzero hne
    · exact ⟨congrArg some (Nat.min_eq_right hle), hrest⟩

/-- When all pieces are taken whole the first bytes of the stream are written. -/
theorem writeLoop_whole (h : Whole left calls) (hlen : len = wr + left) (hms : left ≤ ms.length) (hn : ms.length < n) :
    writeLoop n len wr ms calls = ⟨some len, ms.take left, ms.drop left, calls.drop (pieces left)⟩ := by
  induction n generalizing wr left ms calls with
  | zero => omega
  | succ n ih =>
    by_cases hzero : left = 0
    · subst hzero
      rw [writeLoop_done (Or.inl (by omega)), hlen]
      simp [pieces, sizeofTmp]
    · have hne : ms ≠ [] := ne_nil_of_length_pos (by omega)
      have hsize : min (min (len - wr) sizeofTmp) ms.length = min left sizeofTmp := by
        rw [hlen, Nat.add_sub_cancel_left]
        omega
      have hpos : 0 < min left sizeofTmp := by
        rw [sizeofTmp]
        omega
      obtain ⟨htaken, hrest⟩ := h.taken hzero
      have hih := @ih (wr + min left sizeofTmp) (left - sizeofTmp) (ms.drop (min left sizeofTmp)) calls.tail hrest
        (by omega) (by rw [length_drop]; omega) (by rw [length_drop]; omega)
      rw [writeLoop_succ (by omega) hne, hsize, htaken]
      dsimp only
      rw [if_neg (by omega), hih, take_take, Nat.min_self, drop_drop, pieces_succ hzero]
      have hsum : min left sizeofTmp + (left - sizeofTmp) = left := by omega
      have htake : ms.take (min left sizeofTmp) ++ (ms.drop (min left sizeofTmp)).take (left - sizeofTmp) =
          ms.take left := by
        rw [← take_add, hsum]
      rw [htake, hsum]
      simp

/-- What is left is an end of the stream. -/
theorem writeLoop_ms : (writeLoop n len wr ms calls).ms <:+ ms := by
  induction n generalizing wr ms calls with
  | zero => exact suffix_refl _
  | succ n ih =>
    by_cases hdone : len ≤ wr ∨ ms = []
    · simpa only [writeLoop_done hdone] using suffix_refl ms
    · rw [not_or, Nat.not_le] at hdone
      rw [writeLoop_succ hdone.1 hdone.2]
      cases WriteCall.taken (min (min (len - wr) sizeofTmp) ms.length) calls with
      | none => exact drop_suffix _ _
      | some w =>
        dsimp only
        split_ifs
        · exact drop_suffix _ _
        · exact ih.trans (drop_suffix _ _)

/-! ## All of a stream -/

/-- The loop on a whole stream gets to its end unless it is stopped. -/
theorem writeLoop_stops_iff (hlen : wr + ms.length ≤ len) (hn : ms.length < n) :
    ((writeLoop n len wr ms calls).cb ≠ none ∧ (writeLoop n len wr ms calls).ms = []) ↔ ¬ Stops ms.length calls := by
  induction n generalizing wr ms calls with
  | zero => omega
  | succ n ih =>
    by_cases hnil : ms = []
    · subst hnil
      rw [writeLoop_done (Or.inr rfl)]
      match calls with
      | [] => simp [Stops]
      | .error :: _ => simp [Stops]
      | .wrote k :: _ => by_cases hk : k = 0 <;> simp [Stops, hk]
    · have hpos := length_pos_iff.2 hnil
      have hsize : min (min (len - wr) sizeofTmp) ms.length = min ms.length sizeofTmp := by omega
      rw [writeLoop_succ (by omega) hnil, hsize]
      have hspos : 0 < min ms.length sizeofTmp := by
        rw [sizeofTmp]
        omega
      have hdrop : (ms.drop (min ms.length sizeofTmp)).length = ms.length - sizeofTmp := by
        rw [length_drop]
        omega
      match calls with
      | [] =>
        have hih := @ih (wr + min ms.length sizeofTmp) (ms.drop (min ms.length sizeofTmp)) []
          (by rw [hdrop]; omega) (by rw [hdrop, sizeofTmp]; omega)
        simp only [WriteCall.taken, tail_nil, if_neg (Nat.ne_of_gt hspos)]
        rw [hih]
        simp [Stops]
      | .error :: calls => simp [WriteCall.taken, Stops, hpos]
      | .wrote k :: calls =>
        by_cases hk : k = 0
        · simp only [hk, WriteCall.taken, Nat.zero_min, if_true, Stops]
          rw [← length_eq_zero_iff, hdrop]
          simp [Nat.sub_eq_zero_iff_le]
        · have hw : ¬ min k (min ms.length sizeofTmp) = 0 := by omega
          have hih := @ih (wr + min k (min ms.length sizeofTmp)) (ms.drop (min ms.length sizeofTmp)) calls
            (by rw [hdrop]; omega) (by rw [hdrop, sizeofTmp]; omega)
          rw [hdrop] at hih
          simp only [WriteCall.taken, tail_cons, if_neg hw, Stops, if_neg hk, hpos, true_and]
          rw [hih]

/-- What is written is no longer than the stream. -/
theorem writeLoop_out_le : (writeLoop n len wr ms calls).out.length ≤ ms.length := by
  induction n generalizing wr ms calls with
  | zero => exact Nat.zero_le _
  | succ n ih =>
    by_cases hdone : len ≤ wr ∨ ms = []
    · rw [writeLoop_done hdone]
      exact Nat.zero_le _
    · rw [not_or, Nat.not_le] at hdone
      rw [writeLoop_succ hdone.1 hdone.2]
      cases WriteCall.taken (min (min (len - wr) sizeofTmp) ms.length) calls with
      | none => exact Nat.zero_le _
      | some w =>
        dsimp only
        split_ifs
        · exact Nat.zero_le _
        · have hrest := @ih (wr + w) (ms.drop (min (min (len - wr) sizeofTmp) ms.length)) calls.tail
          rw [length_drop] at hrest
          simp only [length_append, length_take]
          omega

/-- Of a stream less is written when a piece is not taken whole. -/
theorem writeLoop_out_lt (h : ¬ Whole ms.length calls) (hlen : wr + ms.length ≤ len) (hn : ms.length < n) :
    (writeLoop n len wr ms calls).out.length < ms.length := by
  induction n generalizing wr ms calls with
  | zero => omega
  | succ n ih =>
    have hpos : 0 < ms.length := by
      by_contra hzero
      obtain rfl : ms = [] := length_eq_zero_iff.1 (by omega)
      match calls, h with
      | [], h => exact h trivial
      | .error :: _, h => exact h rfl
      | .wrote _ :: _, h => exact h (Or.inl rfl)
    have hsize : min (min (len - wr) sizeofTmp) ms.length = min ms.length sizeofTmp := by omega
    rw [writeLoop_succ (by omega) (ne_nil_of_length_pos hpos), hsize]
    match calls, h with
    | [], h => exact absurd trivial h
    | .error :: calls, _ => exact hpos
    | .wrote k :: calls, h =>
      rw [Whole, not_or, not_and] at h
      obtain ⟨hspos, hle, hrest⟩ := piece_spec (Nat.ne_of_gt hpos)
      rw [hrest] at h
      clear hsize hrest
      generalize min ms.length sizeofTmp = size at h hspos hle ⊢
      have hdrop : (ms.drop size).length = ms.length - size := length_drop
      simp only [WriteCall.taken, tail_cons]
      split_ifs with hw
      · exact hpos
      · have hout := @writeLoop_out_le n len (wr + min k size) (ms.drop size) calls
        rw [length_append, length_take, length_take, Nat.min_eq_left hle]
        rw [hdrop] at hout
        by_cases hk : size ≤ k
        · -- The piece is whole, so a later one is not.
          rw [Nat.min_eq_right hk] at hw ⊢
          have hlt := @ih (wr + size) (ms.drop size) calls (by rw [hdrop]; exact h.2 hk) (by rw [hdrop]; omega)
            (by rw [hdrop]; omega)
          rw [hdrop] at hlt
          rw [Nat.min_self]
          omega
        · rw [Nat.min_eq_left (Nat.le_of_not_le hk)] at hout ⊢
          rw [Nat.min_eq_left (Nat.le_of_not_le hk)]
          omega

/-- Of a stream all is written if and only if each piece is taken whole. -/
theorem write_out_iff (ms : Bytes) (calls : List WriteCall) :
    (write ms.length ms calls).out = ms ↔ Whole ms.length calls := by
  constructor
  · intro hout
    by_contra hnot
    have hlt := @writeLoop_out_lt (ms.length + 1) ms.length 0 ms calls hnot (Nat.zero_add _).le (Nat.lt_succ_self _)
    rw [write] at hout
    rw [hout] at hlt
    exact Nat.lt_irrefl _ hlt
  · intro hwhole
    rw [write, writeLoop_whole hwhole (Nat.zero_add _).symm le_rfl (Nat.lt_succ_self _), take_length]

theorem write_stops_iff (ms : Bytes) (calls : List WriteCall) :
    ((write ms.length ms calls).cb ≠ none ∧ (write ms.length ms calls).ms = []) ↔ ¬ Stops ms.length calls :=
  writeLoop_stops_iff (Nat.zero_add _).le (Nat.lt_succ_self _)

/-! ## A part of a stream -/

theorem makesUp_zero (avail : Nat) (calls : List WriteCall) : MakesUp 0 avail calls := by
  match calls with
  | [] => exact Nat.zero_le _
  | .error :: _ => exact rfl
  | .wrote _ :: _ => exact Or.inl rfl

theorem whole_nil (left : Nat) : Whole left [] := trivial

theorem whole_zero (calls : List WriteCall) : Whole 0 calls := by
  match calls with
  | [] => exact trivial
  | .error :: _ => exact rfl
  | .wrote _ :: _ => exact Or.inl rfl

/-- The loop returns the length it was called with if and only if it can make up what is lost. -/
theorem writeLoop_makesUp_iff (hle : wr ≤ len) (hn : ms.length < n) :
    (writeLoop n len wr ms calls).cb = some len ↔ MakesUp (len - wr) ms.length calls := by
  induction n generalizing wr ms calls with
  | zero => omega
  | succ n ih =>
    by_cases hdone : len ≤ wr
    · obtain rfl : wr = len := Nat.le_antisymm hle hdone
      rw [writeLoop_done (Or.inl le_rfl), Nat.sub_self]
      simp [makesUp_zero]
    · by_cases hnil : ms = []
      · subst hnil
        rw [writeLoop_done (Or.inr rfl)]
        have hne : ¬ wr = len := by omega
        match calls with
        | [] => simp [MakesUp, hne]; omega
        | .error :: _ => simp [MakesUp, hne]; omega
        | .wrote k :: _ => simp [MakesUp, hne]; omega
      · have hpos := length_pos_iff.2 hnil
        have hspos : 0 < min (min (len - wr) sizeofTmp) ms.length := by
          rw [sizeofTmp]
          omega
        rw [writeLoop_succ (by omega) hnil]
        match calls with
        | [] =>
          have hih := @ih (wr + min (min (len - wr) sizeofTmp) ms.length)
            (ms.drop (min (min (len - wr) sizeofTmp) ms.length)) [] (by omega) (by rw [length_drop]; omega)
          simp only [WriteCall.taken, tail_nil, if_neg (Nat.ne_of_gt hspos)]
          rw [hih, MakesUp, MakesUp, length_drop]
          omega
        | .error :: _ =>
          simp [WriteCall.taken, MakesUp]
          omega
        | .wrote k :: calls =>
          by_cases hk : k = 0
          · simp [WriteCall.taken, MakesUp, hk]
            omega
          · have hw : ¬ min k (min (min (len - wr) sizeofTmp) ms.length) = 0 := by omega
            have hih := @ih (wr + min k (min (min (len - wr) sizeofTmp) ms.length))
              (ms.drop (min (min (len - wr) sizeofTmp) ms.length)) calls (by omega) (by rw [length_drop]; omega)
            have hsub : len - (wr + min k (min (min (len - wr) sizeofTmp) ms.length)) =
                len - wr - min k (min (min (len - wr) sizeofTmp) ms.length) := by omega
            have hleft : ¬ len - wr = 0 := by omega
            simp only [WriteCall.taken, tail_cons, if_neg hw]
            rw [hih, length_drop, hsub, MakesUp]
            simp [hk, hleft, hnil]

/-- A loop that has something left to write and gets there begins with the first byte of the stream. -/
theorem writeLoop_makesUp_head (h : MakesUp left ms.length calls) (hlen : len = wr + left) (hpos : 0 < left)
    (hn : ms.length < n) :
    0 < ms.length ∧ (writeLoop n len wr ms calls).out[0]? = ms[0]? ∧
      (writeLoop n len wr ms calls).ms.length < ms.length := by
  have hms : 0 < ms.length := by
    match calls, h with
    | [], h => exact Nat.lt_of_lt_of_le hpos h
    | .error :: _, h => exact absurd h (Nat.ne_of_gt hpos)
    | .wrote _ :: _, h => exact Nat.pos_of_ne_zero (h.resolve_left (Nat.ne_of_gt hpos)).2.1
  obtain ⟨n, rfl⟩ : ∃ k, n = k + 1 := ⟨n - 1, by omega⟩
  have hleft : len - wr = left := by omega
  have hspos : 0 < min (min left sizeofTmp) ms.length := by
    rw [sizeofTmp]
    omega
  obtain ⟨w, htaken, hw⟩ : ∃ w, WriteCall.taken (min (min left sizeofTmp) ms.length) calls = some w ∧ w ≠ 0 := by
    match calls, h with
    | [], _ => exact ⟨_, rfl, Nat.ne_of_gt hspos⟩
    | .error :: _, h => exact absurd h (Nat.ne_of_gt hpos)
    | .wrote k :: _, h =>
      have hk := (h.resolve_left (Nat.ne_of_gt hpos)).1
      exact ⟨_, rfl, by omega⟩
  have hsuffix := (@writeLoop_ms n len (wr + w) (ms.drop (min (min left sizeofTmp) ms.length)) calls.tail).length_le
  rw [length_drop] at hsuffix
  rw [writeLoop_succ (by omega) (ne_nil_of_length_pos hms), hleft, htaken]
  dsimp only
  rw [if_neg hw]
  refine ⟨hms, ?_, by dsimp only; omega⟩
  rw [getElem?_append_left (by simp only [length_take]; omega), getElem?_take_of_lt (by omega),
    getElem?_take_of_lt (by omega)]

/-- A loop that returns the length it was called with has taken each piece whole, unless something is lost. -/
theorem writeLoop_whole_of_not_loses (h : ¬ Loses left ms.length calls) (hlen : len = wr + left) (hms : left ≤ ms.length)
    (hn : ms.length < n) (hcb : (writeLoop n len wr ms calls).cb = some len) : Whole left calls := by
  induction n generalizing wr left ms calls with
  | zero => omega
  | succ n ih =>
    by_cases hzero : left = 0
    · subst hzero
      exact whole_zero calls
    · have hpos : 0 < ms.length := by omega
      have hsize : min (min (len - wr) sizeofTmp) ms.length = min left sizeofTmp := by omega
      rw [writeLoop_succ (by omega) (ne_nil_of_length_pos hpos), hsize] at hcb
      match calls, h with
      | [], _ => exact trivial
      | .error :: _, _ => simp [WriteCall.taken] at hcb
      | .wrote k :: calls, h =>
        obtain ⟨hspos, hsle, hrest⟩ := piece_spec hzero
        have hshort : min left sizeofTmp = left ∨ min left sizeofTmp = sizeofTmp := by omega
        rw [Whole]
        simp only [Loses, hrest] at h ⊢
        clear hsize
        generalize min left sizeofTmp = size at h hcb hspos hsle hrest hshort ⊢
        have hdrop : (ms.drop size).length = ms.length - size := length_drop
        by_cases hk : k = 0
        · simp [WriteCall.taken, hk] at hcb
          omega
        · have hw : ¬ min k size = 0 := by omega
          simp only [WriteCall.taken, tail_cons, if_neg hw] at hcb
          simp only [ne_eq, hzero, hk, not_false_eq_true, true_and] at h
          by_cases hwhole : size ≤ k
          · rw [if_pos hwhole] at h
            rw [Nat.min_eq_right hwhole] at hcb
            refine Or.inr ⟨hwhole, @ih (wr + size) (left - size) (ms.drop size) calls ?_ (by omega) (by omega) (by omega)
              hcb⟩
            rcases hshort with hleft | hfull
            · rw [hleft, Nat.sub_self]
              match calls with
              | [] => exact id
              | .error :: _ => exact id
              | .wrote _ :: _ => exact fun hloses => hloses.1 rfl
            · rw [← hfull] at h
              rwa [hdrop]
          · rw [if_neg hwhole] at h
            rw [Nat.min_eq_left (Nat.le_of_not_le hwhole)] at hcb
            rw [writeLoop_makesUp_iff (by omega) (by omega), hdrop] at hcb
            have hsub : len - (wr + k) = left - k := by omega
            exact absurd (hsub ▸ hcb) h

/-- Where something is lost, a byte of the stream lands in the place of one before it. -/
theorem writeLoop_loses {avail : Nat} (h : Loses left avail calls) (hleft : left ≤ avail) :
    ∃ i j, i < j ∧ i < left ∧ j < avail ∧ ∀ n len wr (ms : Bytes), ms.length = avail → len = wr + left → avail < n →
      (writeLoop n len wr ms calls).cb = some len ∧ (writeLoop n len wr ms calls).out[i]? = ms[j]? ∧
        i + (writeLoop n len wr ms calls).ms.length < avail := by
  induction calls generalizing left avail with
  | nil => exact absurd h id
  | cons call calls ih =>
    cases call with
    | error => exact absurd h id
    | wrote k =>
      obtain ⟨_, hk, h⟩ := h
      have hne : left ≠ 0 := by omega
      obtain ⟨hspos, hsle, hsrest⟩ := piece_spec hne
      by_cases hwhole : min left sizeofTmp ≤ k
      · rw [if_pos hwhole] at h
        have hlong : sizeofTmp ≤ left := by
          by_contra hshort
          have hnone : left - sizeofTmp = 0 := by omega
          rw [hnone] at h
          match calls, h with
          | [], h => exact h
          | .error :: _, h => exact h
          | .wrote _ :: _, h => exact h.1 rfl
        rw [Nat.min_eq_right hlong] at hwhole hspos
        clear hsle hsrest
        obtain ⟨i, j, _, _, _, hall⟩ := ih h (by omega)
        refine ⟨sizeofTmp + i, sizeofTmp + j, by omega, by omega, by omega, ?_⟩
        intro n len wr ms hms hlen hn
        obtain ⟨n, rfl⟩ : ∃ m, n = m + 1 := ⟨n - 1, by omega⟩
        have hsize : min (min (len - wr) sizeofTmp) ms.length = sizeofTmp := by
          rw [Nat.min_eq_right (show sizeofTmp ≤ len - wr by omega), Nat.min_eq_left (by omega)]
        have hdrop : (ms.drop sizeofTmp).length = avail - sizeofTmp := by rw [length_drop, hms]
        have htake : (ms.take sizeofTmp).length = sizeofTmp := length_take_of_le (by omega)
        obtain ⟨hcb, hout, hrest⟩ := hall n len (wr + sizeofTmp) (ms.drop sizeofTmp) hdrop (by omega) (by omega)
        rw [writeLoop_succ (by omega) (ne_nil_of_length_pos (by omega)), hsize]
        simp only [WriteCall.taken, tail_cons, Nat.min_eq_right hwhole, if_neg (Nat.ne_of_gt hspos)]
        refine ⟨hcb, ?_, by omega⟩
        rw [take_take, Nat.min_self, getElem?_append_right (by omega), htake, Nat.add_sub_cancel_left,
          hout, getElem?_drop]
      · -- The piece is taken in part, and the next piece follows in its place.
        rw [if_neg hwhole] at h
        have hturn : ∀ {len wr} {ms : Bytes}, ms.length = avail → len = wr + left →
            min (min (len - wr) sizeofTmp) ms.length = min left sizeofTmp := by
          intro len wr ms hms hlen
          rw [hlen, Nat.add_sub_cancel_left, Nat.min_eq_left (by rw [hms]; exact hsle.trans hleft)]
        clear hsrest
        generalize min left sizeofTmp = size at h hspos hsle hwhole hturn
        have hshort : k < size := Nat.lt_of_not_le hwhole
        have hnext : ∀ n len wr (ms : Bytes), ms.length = avail → len = wr + left → avail < n + 1 →
            0 < (ms.drop size).length ∧
              (writeLoop n len (wr + k) (ms.drop size) calls).out[0]? = (ms.drop size)[0]? ∧
              (writeLoop n len (wr + k) (ms.drop size) calls).ms.length < (ms.drop size).length := by
          intro n len wr ms hms hlen hn
          refine @writeLoop_makesUp_head n len (wr + k) (left - k) _ calls ?_ (by omega) (by omega)
            (by rw [length_drop]; omega)
          rw [length_drop, hms]
          exact h
        have hlast : size < avail := by
          have hpos := (hnext avail left 0 (replicate avail 0) length_replicate (by omega) (by omega)).1
          rw [length_drop, length_replicate] at hpos
          omega
        refine ⟨k, size, hshort, by omega, hlast, ?_⟩
        intro n len wr ms hms hlen hn
        obtain ⟨n, rfl⟩ : ∃ m, n = m + 1 := ⟨n - 1, by omega⟩
        obtain ⟨-, hout, hrest⟩ := hnext n len wr ms hms hlen hn
        have hdrop : (ms.drop size).length = avail - size := by rw [length_drop, hms]
        have htake : ((ms.take size).take k).length = k := by
          rw [take_take, Nat.min_eq_left hshort.le, length_take_of_le (by omega)]
        rw [writeLoop_succ (by omega) (ne_nil_of_length_pos (by omega)), hturn hms hlen]
        simp only [WriteCall.taken, tail_cons, Nat.min_eq_left hshort.le, if_neg hk]
        refine ⟨?_, ?_, by omega⟩
        · rw [writeLoop_makesUp_iff (by omega) (by omega), hdrop, show len - (wr + k) = left - k by omega]
          exact h
        · rw [getElem?_append_right (by omega), htake, Nat.sub_self, hout, getElem?_drop, Nat.add_zero]

end Loop

end File

end Whispercast.Io
