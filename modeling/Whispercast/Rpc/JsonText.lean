import Whispercast.Io.AsciiToken
import Whispercast.Library.Numeral

/-!
# JSON strings and numbers

`JsonStrEscape` and `JsonStrUnescape` of `common/base/strutil.cc`, the `%d` of `PrintBody`, and the `strtoll`
call of `JsonDecoder::ReadNumber`. The two string functions are not inverse to each other: characters that are
written as `\u` come back changed, since the reading side takes one from the character of a digit instead of
looking at the digit before. `Plain` are the characters that come back.
-/

namespace Whispercast.Rpc

open Io Library List Numeral

/-- `kHexaDigits`. -/
def kHexaDigit (d : UInt8) : UInt8 := if d < 10 then 48 + d else 87 + d

/-- `hexval`; 0 for a character that is no digit. -/
def hexval (c : UInt8) : UInt8 :=
  if 48 ≤ c ∧ c ≤ 57 then c - 48
  else if 97 ≤ c ∧ c ≤ 102 then 10 + c - 97
  else if 65 ≤ c ∧ c ≤ 70 then 10 + c - 65
  else 0

/-- The character behind a backslash for a control character that has one. -/
def controlEscape (c : UInt8) : Option UInt8 :=
  if c = 8 then some 98
  else if c = 12 then some 102
  else if c = 10 then some 110
  else if c = 13 then some 114
  else if c = 9 then some 116
  else none

/-- `JsonStrEscape`. Other characters than the printable ones are written in pairs, as the two bytes of one
`\u`; a last one without a partner is the low byte. -/
def jsonStrEscape : Bytes → Bytes
  | [] => []
  | c :: rest =>
    if 32 ≤ c ∧ c ≤ 126 then
      if c = 92 ∨ c = 34 ∨ c = 47 then 92 :: c :: jsonStrEscape rest else c :: jsonStrEscape rest
    else match controlEscape c with
      | some e => 92 :: e :: jsonStrEscape rest
      | none =>
        match rest with
        | c2 :: rest =>
          92 :: 117 :: kHexaDigit (c >>> 4) :: kHexaDigit (c &&& 15) :: kHexaDigit (c2 >>> 4) ::
            kHexaDigit (c2 &&& 15) :: jsonStrEscape rest
        | [] => [92, 117, 48, 48, kHexaDigit (c >>> 4), kHexaDigit (c &&& 15)]

/-- What a character behind a backslash stands for, `u` apart. -/
def unescapeChar (c : UInt8) : UInt8 :=
  if c = 98 then 8
  else if c = 102 then 12
  else if c = 110 then 10
  else if c = 114 then 13
  else if c = 116 then 9
  else c

/-- `JsonStrUnescape`. In a `\u` with its four digits the high digit of each byte is `*p-1`, one less than the
character of the digit; with fewer characters left the `\u` is dropped. Bytes above 127 are dropped. -/
def jsonStrUnescape : Bool → Bytes → Bytes
  | _, [] => []
  | true, c :: rest =>
    if c = 117 then
      match rest with
      | h1 :: h2 :: h3 :: h4 :: rest =>
        (hexval h2 + 16 * hexval (h1 - 1)) :: (hexval h4 + 16 * hexval (h3 - 1)) :: jsonStrUnescape false rest
      | rest => jsonStrUnescape false rest
    else unescapeChar c :: jsonStrUnescape false rest
  | false, c :: rest =>
    if c = 92 then jsonStrUnescape true rest
    else if 128 ≤ c then jsonStrUnescape false rest
    else c :: jsonStrUnescape false rest

/-! ## Strings that come back -/

/-- A character that is written without `\u`: printable, or one with an escape of its own. -/
def Plain (c : UInt8) : Prop := (32 ≤ c ∧ c ≤ 126) ∨ controlEscape c ≠ none

instance (c : UInt8) : Decidable (Plain c) := inferInstanceAs (Decidable (_ ∨ _))

/-- The text of one plain character. -/
def escapeChar (c : UInt8) : Bytes :=
  match controlEscape c with
  | some e => [92, e]
  | none => if c = 92 ∨ c = 34 ∨ c = 47 then [92, c] else [c]

variable {c : UInt8}

/-- No printable character has a control escape. -/
theorem controlEscape_printable (h : 32 ≤ c) : controlEscape c = none := by
  have hne : c ≠ 8 ∧ c ≠ 12 ∧ c ≠ 10 ∧ c ≠ 13 ∧ c ≠ 9 := by
    refine ⟨?_, ?_, ?_, ?_, ?_⟩ <;> rintro rfl <;> exact absurd h (by decide)
  obtain ⟨h8, h12, h10, h13, h9⟩ := hne
  rw [controlEscape, if_neg h8, if_neg h12, if_neg h10, if_neg h13, if_neg h9]

theorem jsonStrEscape_cons (hc : Plain c) (s : Bytes) : jsonStrEscape (c :: s) = escapeChar c ++ jsonStrEscape s := by
  rw [jsonStrEscape.eq_def, escapeChar]
  rcases hc with hprint | hcontrol
  · rw [controlEscape_printable hprint.1]
    dsimp only
    rw [if_pos hprint]
    split_ifs
    · rfl
    · rfl
  · obtain ⟨e, he⟩ := Option.ne_none_iff_exists'.1 hcontrol
    have hprint : ¬ (32 ≤ c ∧ c ≤ 126) := by
      intro h
      exact hcontrol (controlEscape_printable h.1)
    dsimp only
    rw [if_neg hprint, he]
    rfl

/-- The control escapes are undone. -/
theorem unescapeChar_controlEscape {e : UInt8} (h : controlEscape c = some e) :
    unescapeChar e = c ∧ e ≠ 117 ∧ e ≠ 92 ∧ e ≠ 34 := by
  rw [controlEscape] at h
  split_ifs at h with h8 h12 h10 h13 h9
  · cases h; subst h8; decide
  · cases h; subst h12; decide
  · cases h; subst h10; decide
  · cases h; subst h13; decide
  · cases h; subst h9; decide

theorem jsonStrUnescape_true (hc : c ≠ 117) (rest : Bytes) :
    jsonStrUnescape true (c :: rest) = unescapeChar c :: jsonStrUnescape false rest := by
  rw [jsonStrUnescape.eq_def]
  simp only [if_neg hc]

theorem jsonStrUnescape_escapeChar (hc : Plain c) (rest : Bytes) :
    jsonStrUnescape false (escapeChar c ++ rest) = c :: jsonStrUnescape false rest := by
  rw [escapeChar]
  cases he : controlEscape c with
  | some e =>
    obtain ⟨hback, hu, -, -⟩ := unescapeChar_controlEscape he
    simp only [cons_append, nil_append]
    rw [jsonStrUnescape, if_pos rfl, jsonStrUnescape_true hu, hback]
  | none =>
    have hprint : 32 ≤ c ∧ c ≤ 126 := by
      rcases hc with h | h
      · exact h
      · exact absurd he h
    split_ifs with hspecial
    · have hkeep : c ≠ 117 ∧ unescapeChar c = c := by
        rcases hspecial with rfl | rfl | rfl <;> decide
      simp only [cons_append, nil_append]
      rw [jsonStrUnescape, if_pos rfl, jsonStrUnescape_true hkeep.1, hkeep.2]
    · have hback : c ≠ 92 := fun h => hspecial (Or.inl h)
      have hascii : ¬ 128 ≤ c := by
        intro h
        exact absurd (UInt8.le_trans h hprint.2) (by decide)
      rw [cons_append, nil_append, jsonStrUnescape, if_neg hback, if_neg hascii]

/-- A string of plain characters is read as it was written. -/
theorem jsonStrUnescape_jsonStrEscape {s : Bytes} (hs : ∀ c ∈ s, Plain c) :
    jsonStrUnescape false (jsonStrEscape s) = s := by
  induction s with
  | nil => rfl
  | cons c s ih =>
    have hc := hs c mem_cons_self
    rw [jsonStrEscape_cons hc, jsonStrUnescape_escapeChar hc, ih fun d hd => hs d (mem_cons_of_mem _ hd)]

/-- The bytes of the `\u` groups. A byte without a text of its own takes the next byte into its group, whatever
that is; the group comes back when both high digits are 0, and a group of one byte never does. -/
def Restored : Bytes → Prop
  | [] => True
  | c :: rest =>
    if Plain c then Restored rest
    else match rest with
      | [] => False
      | c2 :: rest => c < 16 ∧ c2 < 16 ∧ Restored rest

/-- One byte of a group: the low digit is read as it was written, the high one from its character less one. -/
theorem unescaped_byte_iff (c : UInt8) :
    hexval (kHexaDigit (c &&& 15)) + (16 : UInt8) * hexval (kHexaDigit (c >>> 4) - 1) = c ↔ c < 16 := by
  have hall : ∀ n : Fin 256, hexval (kHexaDigit (⟨⟨n⟩⟩ &&& 15)) + (16 : UInt8) *
      hexval (kHexaDigit ((⟨⟨n⟩⟩ : UInt8) >>> 4) - 1) = ⟨⟨n⟩⟩ ↔ (⟨⟨n⟩⟩ : UInt8) < 16 := by
    decide +kernel
  exact hall c.toFin

theorem not_plain (hc : ¬ Plain c) : ¬ (32 ≤ c ∧ c ≤ 126) ∧ controlEscape c = none := by
  rw [Plain, not_or, not_not] at hc
  exact hc

theorem jsonStrEscape_pair (hc : ¬ Plain c) (c2 : UInt8) (s : Bytes) :
    jsonStrEscape (c :: c2 :: s) = 92 :: 117 :: kHexaDigit (c >>> 4) :: kHexaDigit (c &&& 15) ::
      kHexaDigit (c2 >>> 4) :: kHexaDigit (c2 &&& 15) :: jsonStrEscape s := by
  obtain ⟨hprint, hcontrol⟩ := not_plain hc
  rw [jsonStrEscape, if_neg hprint, hcontrol]

theorem jsonStrEscape_single (hc : ¬ Plain c) :
    jsonStrEscape [c] = [92, 117, 48, 48, kHexaDigit (c >>> 4), kHexaDigit (c &&& 15)] := by
  obtain ⟨hprint, hcontrol⟩ := not_plain hc
  rw [jsonStrEscape, if_neg hprint, hcontrol]

/-- A `\u` with its four digits. -/
theorem jsonStrUnescape_group (h1 h2 h3 h4 : UInt8) (rest : Bytes) :
    jsonStrUnescape false (92 :: 117 :: h1 :: h2 :: h3 :: h4 :: rest) =
      (hexval h2 + 16 * hexval (h1 - 1)) :: (hexval h4 + 16 * hexval (h3 - 1)) :: jsonStrUnescape false rest := by
  rw [jsonStrUnescape, if_pos rfl, jsonStrUnescape]
  rfl

/-- A string comes back exactly when every one of its `\u` groups does. -/
theorem jsonStrUnescape_jsonStrEscape_iff (s : Bytes) : jsonStrUnescape false (jsonStrEscape s) = s ↔ Restored s := by
  -- The induction takes the bytes the way `JsonStrEscape` does: one by one, or two for a group.
  induction s using Restored.induct with
  | case1 => simp [jsonStrEscape, jsonStrUnescape, Restored]
  | case2 c rest hc ih =>
    rw [jsonStrEscape_cons hc, jsonStrUnescape_escapeChar hc, cons.injEq, ih, Restored.eq_def (c :: rest)]
    simp [hc]
  | case3 c hc =>
    rw [jsonStrEscape_single hc, jsonStrUnescape_group]
    simp [Restored, hc]
  | case4 c hc c2 rest ih =>
    rw [jsonStrEscape_pair hc, jsonStrUnescape_group, cons.injEq, cons.injEq, ih,
      unescaped_byte_iff, unescaped_byte_iff]
    simp [Restored, hc]

/-- The two bytes of a letter with an accent, written as `\uc3a9`, come back as 0xb3 and a tab. -/
theorem jsonStrUnescape_jsonStrEscape_accent : jsonStrUnescape false (jsonStrEscape [0xc3, 0xa9]) = [0xb3, 9] ∧
      jsonStrUnescape false (jsonStrEscape [0xc3, 0xa9]) ≠ [0xc3, 0xa9] := by
  decide

/-! ## Quoted strings as tokens -/

/-- `"`, the escaped string, `"`. -/
def jsonQuoted (s : Bytes) : Bytes := 34 :: (jsonStrEscape s ++ [34])

theorem quotedToken_escapeChar (c : UInt8) (text rest : Bytes) :
    quotedToken 34 text false (escapeChar c ++ rest) = quotedToken 34 (text ++ escapeChar c) false rest := by
  -- Behind a backslash every character is taken, and no plain text ends in a backslash of its own.
  have htwo : ∀ e : UInt8, quotedToken 34 text false ([92, e] ++ rest) = quotedToken 34 (text ++ [92, e]) false rest := by
    intro e
    simp only [cons_append, nil_append]
    rw [quotedToken, if_neg (by decide), quotedToken, if_neg (by simp), append_assoc]
    rfl
  rw [escapeChar]
  cases he : controlEscape c with
  | some e => exact htwo e
  | none =>
    split_ifs with hspecial
    · exact htwo c
    · have hback : c ≠ 92 := fun h => hspecial (Or.inl h)
      have hquote : c ≠ 34 := fun h => hspecial (Or.inr (Or.inl h))
      rw [cons_append, nil_append, quotedToken, if_neg (fun h => hquote h.1), decide_eq_false hback]
      rfl

theorem quotedToken_jsonStrEscape {s : Bytes} (hs : ∀ c ∈ s, Plain c) (text rest : Bytes) :
    quotedToken 34 text false (jsonStrEscape s ++ 34 :: rest) =
      .ok (.quoted (text ++ (jsonStrEscape s ++ [34])), rest) := by
  induction s generalizing text with
  | nil =>
    rw [jsonStrEscape, nil_append, nil_append, quotedToken, if_pos ⟨rfl, rfl⟩]
  | cons c s ih =>
    have hc := hs c mem_cons_self
    rw [jsonStrEscape_cons hc, append_assoc, quotedToken_escapeChar c,
      ih fun d hd => hs d (mem_cons_of_mem _ hd)]
    simp only [append_assoc]

theorem readNextAsciiToken_jsonQuoted {s : Bytes} (hs : ∀ c ∈ s, Plain c) (rest : Bytes) :
    readNextAsciiToken (jsonQuoted s ++ rest) = .ok (.quoted (jsonQuoted s), rest) := by
  have hquote : charAttr 34 = .quote := by decide
  rw [jsonQuoted, cons_append, readNextAsciiToken, hquote]
  rw [append_assoc, singleton_append, quotedToken_jsonStrEscape hs]
  rfl

/-- The text between the quotes. -/
def unquote (s : Bytes) : Bytes := (s.drop 1).take (s.length - 2)

theorem unquote_jsonQuoted (s : Bytes) : unquote (jsonQuoted s) = jsonStrEscape s := by
  rw [unquote, jsonQuoted, drop_succ_cons, drop_zero, length_cons, length_append,
    length_singleton]
  exact take_left' (by omega)

/-! ## Numbers -/

/-- `%d` and its relatives. -/
def printNumber (n : Int) : Bytes :=
  if n < 0 then 45 :: Numeral.numeral 10 n.natAbs else Numeral.numeral 10 n.natAbs

/-- The number without its sign, and the base that `strtoll` finds for base 0. -/
def baseOf (u : Bytes) : Nat × Bytes :=
  match u with
  | 48 :: x :: c :: rest =>
    if (x = 120 ∨ x = 88) ∧ Numeral.isDigit 16 c = true then (16, c :: rest) else (8, u)
  | 48 :: _ => (8, u)
  | _ => (10, u)

/-- The number of a text without a sign, when all of it is the number. -/
def magnitude (u : Bytes) : Option Nat :=
  let (base, ds) := baseOf u
  if ds ≠ [] ∧ ds.all (Numeral.isDigit base) = true then some (Numeral.value base ds) else none

/-- `strtoll(s, &endp, 0)`, when it leaves `errno` alone, finds a number and ends at the end of the text. -/
def strtoll (s : Bytes) : Option Int :=
  let n := match (s.takeWhile (· ≠ 0)).dropWhile Numeral.isSpace with
    | 45 :: u => (magnitude u).map fun m => -Int.ofNat m
    | 43 :: u => (magnitude u).map Int.ofNat
    | u => (magnitude u).map Int.ofNat
  n.filter fun n => decide (Numeral.longMin ≤ n ∧ n ≤ Numeral.longMax)

section Printed

theorem mem_numeral {n : Nat} {c : UInt8} (hc : c ∈ Numeral.numeral 10 n) : ∃ d : Fin 10, c = Numeral.digitByte d := by
  rw [numeral] at hc
  split_ifs at hc
  · rw [mem_singleton] at hc
    exact ⟨0, hc⟩
  · obtain ⟨d, hd, rfl⟩ := mem_map.1 hc
    exact ⟨⟨d, Nat.digits_lt_base (by decide) (mem_reverse.1 hd)⟩, rfl⟩

/-- A number does not begin with a zero, unless it is one. -/
theorem head_numeral (n : Nat) : (Numeral.numeral 10 n).head? ≠ some 48 ∨ Numeral.numeral 10 n = [48] := by
  by_cases hn : n = 0
  · right
    rw [numeral, if_pos hn]
  · left
    rw [numeral, if_neg hn, head?_map, head?_reverse]
    intro h
    have hne : Nat.digits 10 n ≠ [] := Nat.digits_ne_nil_iff_ne_zero.2 hn
    rw [getLast?_eq_getLast_of_ne_nil hne, Option.map_some, Option.some.injEq] at h
    have hlast := Nat.getLast_digit_ne_zero 10 hn
    have hlt : (Nat.digits 10 n).getLast hne < 10 := Nat.digits_lt_base (by decide) (getLast_mem hne)
    have hall : ∀ d : Fin 10, digitByte d.val = 48 → d.val = 0 := by decide
    exact hlast (hall ⟨_, hlt⟩ h)

theorem magnitude_numeral (n : Nat) : magnitude (Numeral.numeral 10 n) = some n := by
  have hne : numeral 10 n ≠ [] := numeral_ne_nil
  have hall : (numeral 10 n).all (isDigit 10) = true := by
    rw [all_eq_true]
    intro c hc
    exact isDigit_of_mem_numeral (by decide) (by decide) hc
  rcases head_numeral n with hhead | hzero
  · have hbase : baseOf (numeral 10 n) = (10, numeral 10 n) := by
      unfold baseOf
      split
      · rename_i heq
        rw [heq] at hhead
        exact absurd rfl hhead
      · rename_i heq
        rw [heq] at hhead
        exact absurd rfl hhead
      · rfl
    rw [magnitude, hbase]
    dsimp only
    rw [if_pos ⟨hne, hall⟩, value_numeral (by decide) (by decide)]
  · have hn : n = 0 := by
      have hvalue : value 10 (numeral 10 n) = n := value_numeral (by decide) (by decide)
      rw [hzero] at hvalue
      exact hvalue.symm
    rw [hzero, hn]
    rfl

/-- A printed number is read as long as it is a `long long`. -/
theorem strtoll_printNumber_eq (n : Int) : strtoll (printNumber n) =
    (some n).filter fun n => decide (Numeral.longMin ≤ n ∧ n ≤ Numeral.longMax) := by
  -- The text has no NUL and no blank: it begins with a digit or with the sign.
  have hdigits : ∀ m : Nat, ∀ c ∈ numeral 10 m, c ≠ 0 ∧ isSpace c = false ∧ c ≠ 45 ∧ c ≠ 43 := by
    intro m c hc
    obtain ⟨d, rfl⟩ := mem_numeral hc
    clear hc
    revert d
    decide
  have htake : ∀ m : Nat, (numeral 10 m).takeWhile (· ≠ 0) = numeral 10 m := by
    intro m
    rw [takeWhile_eq_self_iff]
    intro c hc
    exact decide_eq_true (hdigits m c hc).1
  rw [printNumber]
  split_ifs with hneg
  · have htext : ((45 :: numeral 10 n.natAbs).takeWhile (· ≠ 0)).dropWhile isSpace =
        45 :: numeral 10 n.natAbs := by
      rw [takeWhile_cons_of_pos (by decide), htake, dropWhile_cons_of_neg (by decide)]
    have habs : -Int.ofNat n.natAbs = n := by
      rw [Int.ofNat_eq_natCast]
      omega
    have hmagnitude := magnitude_numeral n.natAbs
    rw [strtoll, htext]
    simp only [hmagnitude, Option.map_some, habs]
  · have hne : numeral 10 n.natAbs ≠ [] := numeral_ne_nil
    obtain ⟨c, _, hcons⟩ := exists_cons_of_ne_nil hne
    have hc := hdigits n.natAbs c (by rw [hcons]; exact mem_cons_self)
    have htext : ((numeral 10 n.natAbs).takeWhile (· ≠ 0)).dropWhile isSpace =
        numeral 10 n.natAbs := by
      rw [htake, hcons, dropWhile_cons_of_neg]
      rw [hc.2.1]
      exact Bool.false_ne_true
    have habs : Int.ofNat n.natAbs = n := by
      rw [Int.ofNat_eq_natCast]
      omega
    have hmagnitude := magnitude_numeral n.natAbs
    rw [strtoll, htext]
    split
    · rename_i heq
      rw [hcons, cons.injEq] at heq
      exact absurd heq.1 hc.2.2.1
    · rename_i heq
      rw [hcons, cons.injEq] at heq
      exact absurd heq.1 hc.2.2.2
    · rw [hmagnitude, Option.map_some, habs]

/-- A number is read as it was printed. -/
theorem strtoll_printNumber {n : Int} (hmin : Numeral.longMin ≤ n) (hmax : n ≤ Numeral.longMax) :
    strtoll (printNumber n) = some n := by
  rw [strtoll_printNumber_eq, Option.filter_some, if_pos (decide_eq_true ⟨hmin, hmax⟩)]

/-- A number that is too large is not read. -/
theorem strtoll_printNumber_large {n : Int} (hmax : Numeral.longMax < n) : strtoll (printNumber n) = none := by
  have hnot : ¬ decide (longMin ≤ n ∧ n ≤ longMax) = true := by
    intro h
    exact absurd (of_decide_eq_true h).2 (Int.not_le.2 hmax)
  rw [strtoll_printNumber_eq, Option.filter_some, if_neg hnot]

/-- A printed number is one run of characters. -/
theorem charAttr_printNumber (n : Int) : ∀ c ∈ printNumber n, charAttr c = .char := by
  have hdigits : ∀ m : Nat, ∀ c ∈ numeral 10 m, charAttr c = .char := by
    intro m c hc
    obtain ⟨d, rfl⟩ := mem_numeral hc
    clear hc
    revert d
    decide
  intro c hc
  rw [printNumber] at hc
  split_ifs at hc
  · rcases mem_cons.1 hc with rfl | hc
    · decide
    · exact hdigits _ c hc
  · exact hdigits _ c hc

theorem printNumber_ne_nil (n : Int) : printNumber n ≠ [] := by
  rw [printNumber]
  split_ifs
  · exact cons_ne_nil _ _
  · exact numeral_ne_nil

/-- All characters of a printed number are written into a JSON string as they are. -/
theorem plain_printNumber (n : Int) : jsonStrEscape (printNumber n) = printNumber n ∧ ∀ c ∈ printNumber n, Plain c := by
  have hdigits : ∀ m : Nat, ∀ c ∈ numeral 10 m, Plain c ∧ escapeChar c = [c] := by
    intro m c hc
    obtain ⟨d, rfl⟩ := mem_numeral hc
    clear hc
    revert d
    decide
  have hchars : ∀ c ∈ printNumber n, Plain c ∧ escapeChar c = [c] := by
    intro c hc
    rw [printNumber] at hc
    split_ifs at hc
    · rcases mem_cons.1 hc with rfl | hc
      · decide
      · exact hdigits _ c hc
    · exact hdigits _ c hc
  have hescape : ∀ s : Bytes, (∀ c ∈ s, Plain c ∧ escapeChar c = [c]) → jsonStrEscape s = s := by
    intro s hs
    induction s with
    | nil => rfl
    | cons c s ih =>
      have hc := hs c mem_cons_self
      rw [jsonStrEscape_cons hc.1, hc.2, ih fun d hd => hs d (mem_cons_of_mem _ hd)]
      rfl
  exact ⟨hescape _ hchars, fun c hc => (hchars c hc).1⟩

end Printed

end Whispercast.Rpc
