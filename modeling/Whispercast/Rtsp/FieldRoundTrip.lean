import Whispercast.Rtsp.HeaderField

/-!
# Header fields are read as they were written

What a field must be like for its text to give it back (`HeaderField.Encodable`), class by class: a number is not
negative, since the parser has no sign; a date is a whole second from 1900 on that the local clock shows; the parts of
a `Transport` or `Session` are not empty and do not contain the separators.
-/

namespace Whispercast.Rtsp

open Io Library List
open Http (ascii cStr intToString toInt32 toUint32)
open Calendar FieldType Http Numeral Option

/-! ## Strings -/

theorem cStr_of_not_mem {s : Bytes} (h : 0 ∉ s) : cStr s = s := by
  rw [cStr, takeWhile_eq_self_iff]
  intro c hc
  rw [decide_eq_true_iff]
  rintro rfl
  exact h hc

section Split

variable {sep : UInt8} {part : Bytes}

section

variable (h : sep ∉ part)

include h

theorem splitString_single (hne : part ≠ []) : splitString sep part = [part] := by
  rw [splitString, Lines.split_of_not_mem h]
  simp [hne]

theorem splitString_part (hne : part ≠ []) (s : Bytes) :
    splitString sep (part ++ sep :: s) = part :: splitString sep s := by
  rw [splitString, Lines.split_line h, splitString]
  simp [hne]

/-- Splitting undoes joining. -/
theorem splitString_join (hne : part ≠ []) {parts : List Bytes} (hparts : ∀ p ∈ parts, p ≠ [] ∧ sep ∉ p) :
    splitString sep (part ++ parts.flatMap fun p => sep :: p) = part :: parts := by
  induction parts generalizing part with
  | nil => rw [flatMap_nil, append_nil, splitString_single h hne]
  | cons p parts ih =>
    obtain ⟨hp, hsep⟩ := hparts p mem_cons_self
    rw [flatMap_cons, cons_append, splitString_part h hne,
      ih hsep hp fun q hq => hparts q (mem_cons_of_mem _ hq)]

/-- No character of the part is the separator. -/
theorem ne_sep : ∀ c ∈ part, decide (c ≠ sep) = true := by
  intro c hc
  rw [decide_eq_true_iff]
  rintro rfl
  exact h hc

theorem takeWhile_sep (s : Bytes) : (part ++ sep :: s).takeWhile (· ≠ sep) = part := by
  rw [takeWhile_append_of_pos (ne_sep h), takeWhile_cons_of_neg (by simp), append_nil]

theorem dropWhile_sep (s : Bytes) : (part ++ sep :: s).dropWhile (· ≠ sep) = sep :: s := by
  rw [dropWhile_append_of_pos (ne_sep h), dropWhile_cons_of_neg (by simp)]

theorem splitFirst_pair {value : Bytes} (hzero : 0 ∉ part ++ sep :: value) :
    splitFirst sep (part ++ sep :: value) = (part, value) := by
  rw [splitFirst, cStr_of_not_mem hzero, takeWhile_sep h, dropWhile_sep h, drop_one, tail_cons]

theorem splitFirst_single (hzero : 0 ∉ part) : splitFirst sep part = (part, []) := by
  rw [splitFirst, cStr_of_not_mem hzero, takeWhile_eq_self_iff.2 (ne_sep h),
    dropWhile_eq_nil_iff.2 (ne_sep h), drop_nil]

end

end Split

/-! ## Numbers -/

/-- A character that is neither a digit nor the sign does not occur in a number. -/
theorem not_mem_number (n : Int) {c : UInt8} (hdigit : Numeral.isDigit 10 c = false) (hsign : c ≠ 45) :
    c ∉ intToString n := by
  intro hmem
  rw [isDigit_of_mem_intToString hmem hsign] at hdigit
  cases hdigit

/-- A digit counts what it stands for. -/
theorem charDigit_eq {c : UInt8} (h : Numeral.isDigit 10 c = true) : charDigit c = Numeral.digitOf c := by
  have hall : ∀ n : Fin 256, isDigit 10 (UInt8.ofNat n) = true →
      charDigit (UInt8.ofNat n) = digitOf (UInt8.ofNat n) := by decide +kernel
  have hc : UInt8.ofNat c.toNat = c := UInt8.ofNat_toNat
  rw [← hc] at h ⊢
  exact hall ⟨c.toNat, c.toNat_lt⟩ h

theorem foldl_charDigit {ds : Bytes} (h : ∀ c ∈ ds, Numeral.isDigit 10 c = true) (a : Nat) :
    ds.foldl (fun a c => a * 10 + charDigit c) (a : Int) =
      ((ds.foldl (fun a c => a * 10 + Numeral.digitOf c) a : Nat) : Int) := by
  induction ds generalizing a with
  | nil => rfl
  | cons c ds ih =>
    have hc := charDigit_eq (h c mem_cons_self)
    rw [foldl_cons, foldl_cons, hc, ← ih fun d hd => h d (mem_cons_of_mem _ hd)]
    push_cast
    rfl

/-- Digits are read as the number they stand for. -/
theorem parseInt_digits {ds : Bytes} (h : ∀ c ∈ ds, Numeral.isDigit 10 c = true)
    (hlt : Numeral.value 10 ds < 2 ^ 31) : parseInt ds = Numeral.value 10 ds := by
  have hzero : 0 ∉ ds := fun hmem => absurd (h 0 hmem) (by decide)
  have hfold : ds.foldl (fun a c => a * 10 + charDigit c) 0 = (value 10 ds : Int) := foldl_charDigit h 0
  rw [parseInt, cStr_of_not_mem hzero, hfold]
  exact Int.bmod_eq_of_le (by omega) (by omega)

variable {n : Int}

/-- A number that is not negative is read as it was written. -/
theorem parseInt_intToString (h0 : 0 ≤ n) (h : n < 2 ^ 31) : parseInt (intToString n) = n := by
  have hdigits : ∀ c ∈ numeral 10 n.natAbs, isDigit 10 c = true := fun c hc =>
    isDigit_of_mem_numeral (by decide) (by decide) hc
  have hvalue : value 10 (numeral 10 n.natAbs) = n.natAbs :=
    value_numeral (by decide) (by decide)
  rw [intToString, if_neg (by omega), parseInt_digits hdigits (by omega), hvalue]
  omega

theorem atoi_intToString (hmin : -2 ^ 31 ≤ n) (h : n < 2 ^ 31) : atoi (intToString n) = n := by
  rw [atoi, strtol_intToString hmin h]
  exact Int.bmod_eq_of_le (by omega) (by omega)

theorem intToString_zero_free (n : Int) : 0 ∉ intToString n := not_mem_number n (by decide) (by decide)

/-- Two digits are read as they were written. -/
theorem parseInt_twoDigits (h0 : 0 ≤ n) (h : n < 100) : parseInt (twoDigits n) = n := by
  rw [twoDigits]
  split_ifs with hlt
  · have hnonneg : ¬ n < 0 := by omega
    have hdigits : ∀ c ∈ 48 :: intToString n, isDigit 10 c = true := by
      intro c hc
      rcases mem_cons.1 hc with rfl | hmem
      · decide
      · rw [intToString, if_neg hnonneg] at hmem
        exact isDigit_of_mem_numeral (by decide) (by decide) hmem
    have hvalue : value 10 (48 :: intToString n) = n.natAbs := by
      rw [intToString, if_neg hnonneg]
      exact value_numeral (by decide) (by decide)
    rw [parseInt_digits hdigits (by omega), hvalue]
    omega
  · exact parseInt_intToString h0 (by omega)

theorem length_twoDigits (h0 : 0 ≤ n) (h : n < 100) : (twoDigits n).length = 2 := by
  have hall : ∀ n : Fin 100, (if (n : Nat) < 10 then 48 :: numeral 10 n else numeral 10 n).length = 2 := by
    decide +kernel
  obtain ⟨k, rfl⟩ : ∃ k : Nat, n = k := ⟨n.toNat, by omega⟩
  have hk := hall ⟨k, by omega⟩
  have htext : intToString (k : Int) = numeral 10 k := by
    rw [intToString, if_neg (by omega), Int.natAbs_natCast]
  rw [twoDigits, htext]
  split_ifs with hlt
  · rwa [if_pos (by exact_mod_cast hlt)] at hk
  · rwa [if_neg (by exact_mod_cast hlt)] at hk

/-! ## Dates -/

/-- A date that its text gives back on this machine: a time in an `int64`, a whole second from 1900 on, which the local
clock shows. -/
structure DateEncodable (pf : Platform) (time : Int) : Prop where
  lt : time < 2 ^ 63
  whole : time % 1000 = 0
  year : 1900 ≤ (Calendar.civil (time / 1000 / 86400)).year
  shown : pf.mktime (time / 1000) ≠ -1
  offset : pf.mktime (time / 1000) + pf.gmtoff (pf.mktime (time / 1000)) = time / 1000

theorem secondsOf_whole {time : Int} (h : time % 1000 = 0) : secondsOf time = time / 1000 := by
  rw [secondsOf, Int.tdiv_eq_ediv_of_dvd (Int.dvd_of_emod_eq_zero h)]

theorem idxOf_monthNames {m : Nat} (h : m < 12) :
    monthNames.getD m [] ∈ monthNames ∧ monthNames.idxOf (monthNames.getD m []) = m ∧ monthNames.getD m [] ≠ [] ∧
      32 ∉ monthNames.getD m [] ∧ 0 ∉ monthNames.getD m [] := by
  have hall : ∀ m : Fin 12, monthNames.getD m [] ∈ monthNames ∧ monthNames.idxOf (monthNames.getD m []) = m ∧
      monthNames.getD m [] ≠ [] ∧ 32 ∉ monthNames.getD m [] ∧ 0 ∉ monthNames.getD m [] := by
    decide +kernel
  exact hall ⟨m, h⟩

/-- The text of a time of the day. -/
def clockText (second : Int) : Bytes :=
  twoDigits (second / 3600) ++ 58 :: (twoDigits (second / 60 % 60) ++ 58 :: twoDigits (second % 60))

theorem encodeDate_parts (time : Int) : encodeDate time = intToString (Calendar.civil (secondsOf time / 86400)).day ++
      [monthNames.getD (Calendar.civil (secondsOf time / 86400)).month.toNat [],
        intToString (Calendar.civil (secondsOf time / 86400)).year, clockText (secondsOf time % 86400),
        ascii "GMT"].flatMap fun p => 32 :: p := by
  have hgmt : ascii " GMT" = 32 :: ascii "GMT" := by decide
  rw [encodeDate, hgmt, clockText]
  simp

theorem mem_twoDigits {c : UInt8} (h : c ∈ twoDigits n) : Numeral.isDigit 10 c = true ∨ c = 45 := by
  by_cases hc : c = 45
  · exact Or.inr hc
  · left
    rw [twoDigits] at h
    split_ifs at h
    · rcases mem_cons.1 h with rfl | hmem
      · decide
      · exact isDigit_of_mem_intToString hmem hc
    · exact isDigit_of_mem_intToString h hc

theorem not_mem_clockText (second : Int) {c : UInt8} (hdigit : Numeral.isDigit 10 c = false) (hsign : c ≠ 45)
    (hcolon : c ≠ 58) : c ∉ clockText second := by
  have htwo : ∀ n : Int, c ∉ twoDigits n := by
    intro n hmem
    rcases mem_twoDigits hmem with h | h
    · rw [hdigit] at h
      cases h
    · exact hsign h
  simp [clockText, htwo, hcolon]

/-- Hours, minutes and seconds stand where they are read. -/
theorem clockText_parts {second : Int} (h0 : 0 ≤ second) (h : second < 86400) :
    (clockText second).length = 8 ∧ parseInt ((clockText second).take 2) = second / 3600 ∧
      parseInt (((clockText second).drop 3).take 2) = second / 60 % 60 ∧
      parseInt (((clockText second).drop 6).take 2) = second % 60 := by
  have hhour := length_twoDigits (n := second / 3600) (by omega) (by omega)
  have hminute := length_twoDigits (n := second / 60 % 60) (by omega) (by omega)
  have hsecond := length_twoDigits (n := second % 60) (by omega) (by omega)
  have htake : ∀ {a rest : Bytes}, a.length = 2 → (a ++ rest).take 2 = a := fun ha => take_left' ha
  have hdrop : ∀ {a rest : Bytes}, a.length = 2 → (a ++ 58 :: rest).drop 3 = rest := by
    intro a rest ha
    rw [← singleton_append, ← append_assoc, drop_left']
    simp [ha]
  have hdrop6 : (clockText second).drop 6 = twoDigits (second % 60) := by
    rw [clockText, show (6 : Nat) = 3 + 3 from rfl, ← drop_drop, hdrop hhour, hdrop hminute]
  refine ⟨by simp [clockText, hhour, hminute, hsecond], ?_, ?_, ?_⟩
  · rw [clockText, htake hhour, parseInt_twoDigits (by omega) (by omega)]
  · rw [clockText, hdrop hhour, htake hminute, parseInt_twoDigits (by omega) (by omega)]
  · rw [hdrop6, take_of_length_le (by omega), parseInt_twoDigits (by omega) (by omega)]

theorem encodeDate_zero_free {time : Int} : 0 ∉ encodeDate time := by
  have hbounds := civil_bounds (secondsOf time / 86400)
  have hmonth := idxOf_monthNames (m := (civil (secondsOf time / 86400)).month.toNat) (by omega)
  rw [encodeDate_parts]
  simp only [flatMap_cons, flatMap_nil, mem_append, mem_cons, not_or]
  exact ⟨intToString_zero_free _, ⟨by decide, hmonth.2.2.2.2⟩, ⟨by decide, intToString_zero_free _⟩,
    ⟨by decide, not_mem_clockText _ (by decide) (by decide) (by decide)⟩, ⟨by decide, by decide⟩, by simp⟩

/-- A date is read as it was written. -/
theorem decodeDate_encodeDate {pf : Platform} {time : Int} (h : DateEncodable pf time) :
    decodeDate pf (encodeDate time) = some time := by
  have hseconds := secondsOf_whole h.whole
  have hbounds := civil_bounds (secondsOf time / 86400)
  have hmonth := idxOf_monthNames (m := (civil (secondsOf time / 86400)).month.toNat) (by omega)
  have hclock := @clockText_parts (secondsOf time % 86400) (by omega) (by omega)
  have hyear : (civil (secondsOf time / 86400)).year < 2 ^ 31 := by
    have hle := year_le (secondsOf time / 86400)
    have hlt := h.lt
    omega
  have hyear' : 1900 ≤ (civil (secondsOf time / 86400)).year := hseconds ▸ h.year
  have hdays : days (civil (secondsOf time / 86400)) = secondsOf time / 86400 :=
    days_civil _
  have hspace : ∀ n : Int, (32 : UInt8) ∉ intToString n := fun n => not_mem_number n (by decide) (by decide)
  -- The text begins with the digits of the day, so nothing is skipped.
  have hskip : (encodeDate time).dropWhile (fun c => !isDigit 10 c) = encodeDate time := by
    have hday : ¬ (civil (secondsOf time / 86400)).day < 0 := by omega
    obtain ⟨c, _, hcons⟩ := exists_cons_of_ne_nil
      (intToString_ne_nil (civil (secondsOf time / 86400)).day)
    have hc : isDigit 10 c = true := by
      have hmem : c ∈ intToString (civil (secondsOf time / 86400)).day := hcons ▸ mem_cons_self
      rw [intToString, if_neg hday] at hmem
      exact isDigit_of_mem_numeral (by decide) (by decide) hmem
    rw [encodeDate_parts, hcons, cons_append, dropWhile_cons_of_neg (by simp [hc])]
  have hsplit : splitString 32 (encodeDate time) =
      [intToString (civil (secondsOf time / 86400)).day,
        monthNames.getD (civil (secondsOf time / 86400)).month.toNat [],
        intToString (civil (secondsOf time / 86400)).year, clockText (secondsOf time % 86400),
        ascii "GMT"] := by
    rw [encodeDate_parts, splitString_join (hspace _) (intToString_ne_nil _)]
    intro p hp
    simp only [mem_cons, not_mem_nil, or_false] at hp
    rcases hp with rfl | rfl | rfl | rfl
    · exact ⟨hmonth.2.2.1, hmonth.2.2.2.1⟩
    · exact ⟨intToString_ne_nil _, hspace _⟩
    · refine ⟨?_, not_mem_clockText _ (by decide) (by decide) (by decide)⟩
      intro hnil
      rw [hnil] at hclock
      exact absurd hclock.1 (by decide)
    · exact ⟨by decide, by decide⟩
  have hset : setDate pf (civil (secondsOf time / 86400)).year
      ((civil (secondsOf time / 86400)).month.toNat : Int) (civil (secondsOf time / 86400)).day
      (secondsOf time % 86400 / 3600) (secondsOf time % 86400 / 60 % 60) (secondsOf time % 86400 % 60) true =
      some time := by
    have hmonthNat : ((civil (secondsOf time / 86400)).month.toNat : Int) =
        (civil (secondsOf time / 86400)).month := by omega
    have hsum : secondsOf time / 86400 * 86400 + secondsOf time % 86400 / 3600 * 3600 +
        secondsOf time % 86400 / 60 % 60 * 60 + secondsOf time % 86400 % 60 = time / 1000 := by omega
    have hshown := h.shown
    have hoffset := h.offset
    have hwhole := h.whole
    rw [setDate, hmonthNat, if_neg (by omega), hdays, hsum]
    rw [if_neg hshown, if_pos rfl, hoffset]
    congr 1
    omega
  rw [decodeDate, cStr_of_not_mem encodeDate_zero_free, hskip, hsplit]
  dsimp only
  rw [if_pos hmonth.1, if_pos hclock.1, hclock.2.1, hclock.2.2.1, hclock.2.2.2, hmonth.2.1,
    atoi_intToString (by omega) hyear, atoi_intToString (by omega) (by omega), decide_eq_true rfl, hset,
    getD_some]

/-! ## Session -/

namespace SessionHeaderField

/-- A session that its text gives back: the id can be told from the timeout. -/
structure Encodable (s : SessionHeaderField) : Prop where
  id_ne : s.id_ ≠ []
  id_part : 59 ∉ s.id_
  id_other : ¬ (ascii "timeout=").isPrefixOf s.id_ = true
  timeout_lt : s.timeout_ < 2 ^ 32

/-- A `uint32` that was printed as an `int` is read as it was. -/
theorem toUint32_strtol {n : Nat} (h : n < 2 ^ 32) :
    (toUint32 (Numeral.strtol 10 (intToString (toInt32 n))).1).toNat = n := by
  have hmin : -2 ^ 31 ≤ toInt32 n := Int.le_bmod (by decide)
  have hmax : toInt32 n < 2 ^ 31 := Int.bmod_lt (by decide)
  have hmod : (n : Int).bmod (2 ^ 32) % 2 ^ 32 = (n : Int) % 2 ^ 32 := Int.bmod_emod
  rw [strtol_intToString hmin hmax, toUint32, toInt32]
  omega

theorem decode_encode {s : SessionHeaderField} (h : s.Encodable) : decode s.encode = some s := by
  obtain ⟨_, timeout⟩ := s
  obtain ⟨hid, hpart, hother, hlt⟩ := h
  have htext : ∀ n : Int, ascii ";timeout=" ++ intToString n = [ascii "timeout=" ++ intToString n].flatMap fun p =>
      59 :: p := by
    intro n
    rw [flatMap_cons, flatMap_nil, append_nil]
    rfl
  rw [encode]
  split_ifs with hzero
  · have hsemi : 59 ∉ ascii "timeout=" ++ intToString (toInt32 timeout) := by
      rw [mem_append, not_or]
      exact ⟨by decide, not_mem_number _ (by decide) (by decide)⟩
    have hinitial : (ascii "timeout=").isPrefixOf (ascii "timeout=" ++ intToString (toInt32 timeout)) = true :=
      isPrefixOf_iff_prefix.2 (prefix_append _ _)
    have hdrop : (ascii "timeout=" ++ intToString (toInt32 timeout)).drop 8 = intToString (toInt32 timeout) :=
      drop_left' (by decide)
    rw [htext, decode, splitString_join hpart hid]
    · rw [decodeParts, if_neg hother, isSome_none, if_neg Bool.false_ne_true, decodeParts, if_pos hinitial,
        isSome_none, if_neg Bool.false_ne_true, decodeParts, hdrop, toUint32_strtol hlt]
      rfl
    · intro p hp
      rw [mem_singleton.1 hp]
      exact ⟨append_ne_nil_of_left_ne_nil (by decide) _, hsemi⟩
  · rw [decode, splitString_single hpart hid, decodeParts, if_neg hother, isSome_none,
      if_neg Bool.false_ne_true, decodeParts]
    have hz : timeout = 0 := not_not.1 hzero
    rw [hz]
    rfl

end SessionHeaderField

/-! ## Transport -/

namespace TransportHeaderField

/-- A number that is written without a sign. -/
def Plain (n : Int) : Prop := 0 ≤ n ∧ n < 2 ^ 31

/-- A text that can be the value of a parameter. -/
def Text (s : Bytes) : Prop := s ≠ [] ∧ 59 ∉ s ∧ 0 ∉ s

/-- A text that can be a part of the transport specification. -/
def Part (s : Bytes) : Prop := s ≠ [] ∧ 59 ∉ s ∧ 47 ∉ s

/-- A `Transport` that its text gives back. -/
structure Encodable (t : TransportHeaderField) : Prop where
  transport : Part t.transport_
  profile : Part t.profile_
  lower_transport : ∀ s ∈ t.lower_transport_, Part s
  destination : ∀ s ∈ t.destination_, Text s
  source : ∀ s ∈ t.source_, Text s
  layers : ∀ n ∈ t.layers_, Plain n
  mode : ∀ s ∈ t.mode_, 59 ∉ s ∧ 0 ∉ s
  interleaved : ∀ r ∈ t.interleaved_, Plain r.1 ∧ Plain r.2
  ttl : ∀ n ∈ t.ttl_, Plain n
  port : ∀ r ∈ t.port_, Plain r.1 ∧ Plain r.2
  client_port : ∀ r ∈ t.client_port_, Plain r.1 ∧ Plain r.2
  server_port : ∀ r ∈ t.server_port_, Plain r.1 ∧ Plain r.2
  ssrc : ∀ s ∈ t.ssrc_, Text s

theorem parseInt_plain {n : Int} (h : Plain n) : parseInt (intToString n) = n := parseInt_intToString h.1 h.2

theorem parseRange_strRange {r : Int × Int} (h : Plain r.1 ∧ Plain r.2) : parseRange (strRange r) = r := by
  have hno : 45 ∉ intToString r.1 := by
    rw [intToString, if_neg (Int.not_lt.2 h.1.1)]
    intro hmem
    have hdigit := isDigit_of_mem_numeral (by decide : 1 < 10) (by decide) hmem
    exact absurd hdigit (by decide)
  rw [parseRange, strRange, if_pos (mem_append_right _ mem_cons_self), takeWhile_sep hno, dropWhile_sep hno,
    drop_one, tail_cons, parseInt_plain h.1, parseInt_plain h.2]

theorem unquote_quoted (s : Bytes) : unquote (quoted s) = s := by
  have hlast : (34 :: (s ++ [34])).getLast? = some (34 : UInt8) := by
    rw [← cons_append, getLast?_concat]
  rw [unquote, quoted, hlast]
  simp

theorem text_number (n : Int) : Text (intToString n) :=
  ⟨intToString_ne_nil n, not_mem_number n (by decide) (by decide), intToString_zero_free n⟩

theorem text_strRange (r : Int × Int) : Text (strRange r) := by
  refine ⟨append_ne_nil_of_left_ne_nil (intToString_ne_nil _) _, ?_, ?_⟩
  · simp [strRange, (text_number r.1).2.1, (text_number r.2).2.1]
  · simp [strRange, (text_number r.1).2.2, (text_number r.2).2.2]

theorem text_quoted {s : Bytes} (h : 59 ∉ s ∧ 0 ∉ s) : Text (quoted s) := by
  refine ⟨cons_ne_nil _ _, ?_, ?_⟩
  · simp [quoted, h.1]
  · simp [quoted, h.2]

/-- The name of a parameter. -/
def Name (name : Bytes) : Prop := 61 ∉ name ∧ 59 ∉ name ∧ 0 ∉ name

instance (name : Bytes) : Decidable (Name name) := inferInstanceAs (Decidable (_ ∧ _ ∧ _))

variable {name : Bytes}

theorem splitFirst_param {value : Bytes} (hname : Name name) (hvalue : Text value) :
    splitFirst 61 (name ++ 61 :: value) = (name, value) := by
  refine splitFirst_pair hname.1 ?_
  simp [hname.2.2, hvalue.2.2]

theorem decodeParam_param {value : Bytes} (hname : Name name) (hvalue : Text value) (t : TransportHeaderField) :
    decodeParam t (name ++ 61 :: value) = t.setParam name value := by
  rw [decodeParam, splitFirst_param hname hvalue]
  exact if_neg hvalue.1

/-- A flag. -/
theorem decodeParam_flag (hname : Name name) (t : TransportHeaderField) : decodeParam t name = t.setFlag name := by
  rw [decodeParam, splitFirst_single hname.1 hname.2.2]
  exact if_pos rfl

/-- A parameter sets what it stands for, or is not there. -/
theorem foldl_param {α : Type} {text : α → Bytes} {value : Option α} {rest : List Bytes}
    (set : Option α → TransportHeaderField) (hname : Name name) (htext : ∀ v ∈ value, Text (text v))
    (hset : ∀ v ∈ value, (set none).setParam name (text v) = set (some v)) :
    (param name text value ++ rest).foldl decodeParam (set none) = rest.foldl decodeParam (set value) := by
  rw [foldl_append]
  cases value with
  | none => rfl
  | some v =>
    have hparam := decodeParam_param hname (htext v rfl) (set none)
    rw [hset v rfl] at hparam
    exact congrArg (rest.foldl decodeParam) hparam

theorem mem_params {α : Type} {text : α → Bytes} {value : Option α} (hname : Name name)
    (htext : ∀ v ∈ value, Text (text v)) : ∀ p ∈ param name text value, p ≠ [] ∧ 59 ∉ p := by
  intro p hp
  cases value with
  | none => cases hp
  | some v =>
    have hv := htext v rfl
    rw [mem_singleton.1 hp]
    refine ⟨append_ne_nil_of_right_ne_nil _ (cons_ne_nil _ _), ?_⟩
    simp [hname.2.1, hv.2.1]

variable {t : TransportHeaderField}

/-- The parameters set the fields that they were written for. -/
theorem foldl_params (h : t.Encodable) : t.params.foldl decodeParam
      { transport_ := t.transport_, profile_ := t.profile_, lower_transport_ := t.lower_transport_ } = t := by
  obtain ⟨transport, profile, lower, transmission, destination, source, layers, mode, append, interleaved, ttl, port,
    client_port, server_port, ssrc⟩ := t
  have htransmission : decodeParam (mk transport profile lower .multicast none none none none false none none none
      none none none) (transmissionName transmission) =
      mk transport profile lower transmission none none none none false none none none none none none := by
    cases transmission with
    | unicast => exact decodeParam_flag (by decide : Name (ascii "unicast")) _
    | multicast => exact decodeParam_flag (by decide : Name (ascii "multicast")) _
  have happend : (if append then [ascii "append"] else []).foldl decodeParam
      (mk transport profile lower transmission destination source layers mode false none none none none none none) =
      mk transport profile lower transmission destination source layers mode append none none none none none none := by
    cases append with
    | false => rfl
    | true => exact decodeParam_flag (by decide : Name (ascii "append")) _
  have hlast := append_nil (param (ascii "ssrc") id ssrc)
  dsimp only [params]
  rw [foldl_cons, htransmission, ← hlast]
  -- Every parameter is met with what the ones in front of it have set.
  refine (foldl_param (fun v => mk transport profile lower transmission v none none none false none none none none
    none none) (by decide +kernel) h.destination fun _ _ => rfl).trans ?_
  refine (foldl_param (fun v => mk transport profile lower transmission destination v none none false none none none
    none none none) (by decide +kernel) h.source fun _ _ => rfl).trans ?_
  refine (foldl_param (fun v => mk transport profile lower transmission destination source v none false none none
    none none none none) (by decide +kernel) (fun v _ => text_number v) fun v hv => ?_).trans ?_
  · exact congrArg (fun n => mk transport profile lower transmission destination source (some n) none false none none
      none none none none) (parseInt_plain (h.layers v hv))
  refine (foldl_param (fun v => mk transport profile lower transmission destination source layers v false none none
    none none none none) (by decide +kernel) (fun v hv => text_quoted (h.mode v hv)) fun v _ => ?_).trans ?_
  · exact congrArg (fun s => mk transport profile lower transmission destination source layers (some s) false none none
      none none none none) (unquote_quoted v)
  rw [foldl_append, happend]
  refine (foldl_param (fun v => mk transport profile lower transmission destination source layers mode append v none
    none none none none) (by decide +kernel) (fun v _ => text_strRange v) fun v hv => ?_).trans ?_
  · exact congrArg (fun r => mk transport profile lower transmission destination source layers mode append (some r) none
      none none none none) (parseRange_strRange (h.interleaved v hv))
  refine (foldl_param (fun v => mk transport profile lower transmission destination source layers mode append
    interleaved v none none none none) (by decide +kernel) (fun v _ => text_number v) fun v hv => ?_).trans ?_
  · exact congrArg (fun n => mk transport profile lower transmission destination source layers mode append interleaved
      (some n) none none none none) (parseInt_plain (h.ttl v hv))
  refine (foldl_param (fun v => mk transport profile lower transmission destination source layers mode append
    interleaved ttl v none none none) (by decide +kernel) (fun v _ => text_strRange v) fun v hv => ?_).trans ?_
  · exact congrArg (fun r => mk transport profile lower transmission destination source layers mode append interleaved
      ttl (some r) none none none) (parseRange_strRange (h.port v hv))
  refine (foldl_param (fun v => mk transport profile lower transmission destination source layers mode append
    interleaved ttl port v none none) (by decide +kernel) (fun v _ => text_strRange v) fun v hv => ?_).trans ?_
  · exact congrArg (fun r => mk transport profile lower transmission destination source layers mode append interleaved
      ttl port (some r) none none) (parseRange_strRange (h.client_port v hv))
  refine (foldl_param (fun v => mk transport profile lower transmission destination source layers mode append
    interleaved ttl port client_port v none) (by decide +kernel) (fun v _ => text_strRange v) fun v hv => ?_).trans ?_
  · exact congrArg (fun r => mk transport profile lower transmission destination source layers mode append interleaved
      ttl port client_port (some r) none) (parseRange_strRange (h.server_port v hv))
  exact foldl_param (fun v => mk transport profile lower transmission destination source layers mode append
    interleaved ttl port client_port server_port v) (by decide +kernel) h.ssrc fun _ _ => rfl

/-- No parameter is empty or contains the separator. -/
theorem params_parts (h : t.Encodable) : ∀ p ∈ t.params, p ≠ [] ∧ 59 ∉ p := by
  have htransmission : transmissionName t.transmission_type_ ≠ [] ∧ 59 ∉ transmissionName t.transmission_type_ := by
    cases t.transmission_type_ <;> decide
  have happend : ∀ p ∈ if t.append_ then [ascii "append"] else [], p ≠ [] ∧ 59 ∉ p := by
    cases t.append_ <;> decide
  intro p hp
  simp only [params, mem_cons, mem_append] at hp
  rcases hp with rfl | hp | hp | hp | hp | hp | hp | hp | hp | hp | hp | hp
  · exact htransmission
  · exact mem_params (by decide) h.destination p hp
  · exact mem_params (by decide) h.source p hp
  · exact mem_params (by decide) (fun v _ => text_number v) p hp
  · exact mem_params (by decide) (fun v hv => text_quoted (h.mode v hv)) p hp
  · exact happend p hp
  · exact mem_params (by decide) (fun v _ => text_strRange v) p hp
  · exact mem_params (by decide) (fun v _ => text_number v) p hp
  · exact mem_params (by decide) (fun v _ => text_strRange v) p hp
  · exact mem_params (by decide) (fun v _ => text_strRange v) p hp
  · exact mem_params (by decide) (fun v _ => text_strRange v) p hp
  · exact mem_params (by decide) h.ssrc p hp

/-- A `Transport` is read as it was written. -/
theorem decode_encode (h : t.Encodable) : decode t.encode = some t := by
  have hfold := foldl_params h
  have hspec : t.spec = t.transport_ ++ (t.profile_ :: t.lower_transport_.toList).flatMap fun p => 47 :: p := by
    rw [spec]
    cases t.lower_transport_ <;> simp
  have hparts : ∀ p ∈ t.profile_ :: t.lower_transport_.toList, Part p := by
    intro p hp
    rcases mem_cons.1 hp with rfl | hp
    · exact h.profile
    · exact h.lower_transport p (mem_toList.1 hp)
  have hsplit : splitString 47 t.spec = t.transport_ :: t.profile_ :: t.lower_transport_.toList := by
    rw [hspec]
    exact splitString_join h.transport.2.2 h.transport.1 fun p hp => ⟨(hparts p hp).1, (hparts p hp).2.2⟩
  have hsemi : 59 ∉ t.spec := by
    rw [hspec, mem_append, not_or, mem_flatMap]
    refine ⟨h.transport.2.1, ?_⟩
    rintro ⟨p, hp, hmem⟩
    rcases mem_cons.1 hmem with heq | hmem
    · exact absurd heq (by decide)
    · exact (hparts p hp).2.1 hmem
  have hne : t.spec ≠ [] := by
    rw [spec]
    exact append_ne_nil_of_left_ne_nil h.transport.1 _
  rw [decode, encode, splitString_join hsemi hne (params_parts h)]
  dsimp only
  rw [hsplit]
  cases hlower : t.lower_transport_ with
  | none =>
    rw [hlower] at hfold
    exact congrArg some hfold
  | some lower =>
    rw [hlower] at hfold
    exact congrArg some hfold

end TransportHeaderField

/-! ## Fields -/

namespace HeaderField

/-- A field that its name and its text give back on this machine. -/
def Encodable (pf : Platform) : HeaderField → Prop
  | .numeric _ value_ => 0 ≤ value_ ∧ value_ < 2 ^ 31
  | .date _ time_ => DateEncodable pf time_
  | .string _ _ => True
  | .session field => field.Encodable
  | .transport field => field.Encodable
  | .custom name_ _ => FieldType.dec name_ = .custom

/-- A field is read as it was written. -/
theorem decode_strEncode {pf : Platform} {field : HeaderField} (h : field.Encodable pf) :
    decode pf field.name field.strEncode = some field := by
  cases field with
  | numeric type value_ =>
    have hvalue : parseInt (encodeNumeric value_) = value_ := parseInt_intToString h.1 h.2
    simp only [decode, name, strEncode, dec_enc (t := .numeric type) (nomatch ·), hvalue]
  | date type time_ =>
    have htime := decodeDate_encodeDate h
    simp only [decode, name, strEncode, dec_enc (t := .date type) (nomatch ·), htime, map_some]
  | string type value_ =>
    simp only [decode, name, strEncode, dec_enc (t := .string type) (nomatch ·)]
  | session field =>
    have hfield := SessionHeaderField.decode_encode h
    simp only [decode, name, strEncode, dec_enc (t := .session) (nomatch ·), hfield, map_some]
  | transport field =>
    have hfield := TransportHeaderField.decode_encode h
    simp only [decode, name, strEncode, dec_enc (t := .transport) (nomatch ·), hfield, map_some]
  | custom name_ value_ =>
    have hname : dec name_ = .custom := h
    simp only [decode, name, strEncode, hname]

end HeaderField

end Whispercast.Rtsp
