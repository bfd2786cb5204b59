import Whispercast.Library.StateReader
import Whispercast.Io.DataBlock

/-!
# Tokens in streams

Model of `DataBlockPointer::ReadNextAsciiToken` (`common/io/buffer/data_block.cc`) on the readable bytes of a
stream: a separator by itself, a run of other characters, or a quoted text with its quotes; blanks in front are
passed over. A run ends at a character that does not belong to it, so at the end of the stream it is not
complete yet. Nothing is taken unless there is a token.
-/

namespace Whispercast.Io

open Library List

/-- The classes of `kCharLookup`. A quote is a separator too there, and is looked at as a quote first. -/
inductive CharAttr where
  | error
  | quote
  | sep
  | char
  | space
  deriving DecidableEq

/-- `kCharLookup`. -/
def charAttr (c : UInt8) : CharAttr :=
  if c = 9 ∨ c = 10 ∨ c = 13 ∨ c = 32 then .space
  else if c < 32 ∨ 128 ≤ c then .error
  else if c = 34 ∨ c = 39 then .quote
  -- Digits, letters, and `+ - . / ? @ _` with the character 127.
  else if (48 ≤ c ∧ c ≤ 57) ∨ (65 ≤ c ∧ c ≤ 90) ∨ (97 ≤ c ∧ c ≤ 122) ∨ c = 43 ∨ c = 45 ∨ c = 46 ∨ c = 47 ∨
      c = 63 ∨ c = 64 ∨ c = 95 ∨ c = 127 then .char
  else .sep

/-- What the token is: `TOKEN_OK`, `TOKEN_QUOTED_OK`, `TOKEN_SEP_OK`. -/
inductive Token where
  | word (text : Bytes)
  | quoted (text : Bytes)
  | sep (c : UInt8)
  deriving DecidableEq

/-- The bytes of the token. -/
def Token.text : Token → Bytes
  | .word text => text
  | .quoted text => text
  | .sep c => [c]

/-- Why there is no token: `TOKEN_ERROR_CHAR`, `TOKEN_NO_DATA`. -/
inductive TokenFault where
  | errorChar
  | noData

/-- The rest of a run of characters. -/
def wordToken (text : Bytes) : Bytes → Except TokenFault (Token × Bytes)
  | [] => .error .noData
  | c :: cs =>
    match charAttr c with
    | .error => .error .errorChar
    | .char => wordToken (text ++ [c]) cs
    | _ => .ok (.word text, c :: cs)

/-- The rest of a quoted text. A quote that follows a backslash does not end it. -/
def quotedToken (quote : UInt8) (text : Bytes) (lastWasEscape : Bool) : Bytes → Except TokenFault (Token × Bytes)
  | [] => .error .noData
  | c :: cs =>
    if c = quote ∧ lastWasEscape = false then .ok (.quoted (text ++ [c]), cs)
    else quotedToken quote (text ++ [c]) (!lastWasEscape && c = 92) cs

/-- `ReadNextAsciiToken`: the token and the bytes behind it. -/
def readNextAsciiToken : Bytes → Except TokenFault (Token × Bytes)
  | [] => .error .noData
  | c :: cs =>
    match charAttr c with
    | .error => .error .errorChar
    | .quote => quotedToken c [c] false cs
    | .sep => .ok (.sep c, cs)
    | .space => readNextAsciiToken cs
    | .char => wordToken [c] cs

/-! ## What is behind the token does not matter -/

section Extension

variable {text l rest : Bytes} {q : UInt8} {esc : Bool} {t : Token}

theorem wordToken_append (h : wordToken text l = .ok (t, rest)) (x : Bytes) :
    wordToken text (l ++ x) = .ok (t, rest ++ x) := by
  induction l generalizing text with
  | nil => cases h
  | cons c cs ih =>
    rw [wordToken] at h
    rw [cons_append, wordToken]
    cases hc : charAttr c with
    | error => rw [hc] at h; cases h
    | char => rw [hc] at h; exact ih h
    | quote => rw [hc] at h; cases h; rfl
    | sep => rw [hc] at h; cases h; rfl
    | space => rw [hc] at h; cases h; rfl

theorem quotedToken_append (h : quotedToken q text esc l = .ok (t, rest)) (x : Bytes) :
    quotedToken q text esc (l ++ x) = .ok (t, rest ++ x) := by
  induction l generalizing text esc with
  | nil => cases h
  | cons c cs ih =>
    rw [quotedToken] at h
    rw [cons_append, quotedToken]
    split_ifs at h ⊢ with hc
    · cases h
      rfl
    · exact ih h

theorem readNextAsciiToken_append (h : readNextAsciiToken l = .ok (t, rest)) (x : Bytes) :
    readNextAsciiToken (l ++ x) = .ok (t, rest ++ x) := by
  induction l with
  | nil => cases h
  | cons c cs ih =>
    rw [readNextAsciiToken] at h
    rw [cons_append, readNextAsciiToken]
    cases hc : charAttr c with
    | error => rw [hc] at h; cases h
    | quote => rw [hc] at h; exact quotedToken_append h x
    | sep => rw [hc] at h; cases h; rfl
    | space => rw [hc] at h; exact ih h
    | char => rw [hc] at h; exact wordToken_append h x

theorem wordToken_errorChar (h : wordToken text l = .error .errorChar) (x : Bytes) :
    wordToken text (l ++ x) = .error .errorChar := by
  induction l generalizing text with
  | nil => cases h
  | cons c cs ih =>
    rw [wordToken] at h
    rw [cons_append, wordToken]
    cases hc : charAttr c with
    | error => rfl
    | char => rw [hc] at h; exact ih h
    | quote => rw [hc] at h; cases h
    | sep => rw [hc] at h; cases h
    | space => rw [hc] at h; cases h

/-- Inside quotes every character is accepted. -/
theorem quotedToken_ne_errorChar : quotedToken q text esc l ≠ .error .errorChar := by
  induction l generalizing text esc with
  | nil => exact fun h => nomatch h
  | cons c cs ih =>
    rw [quotedToken]
    split_ifs
    · exact fun h => nomatch h
    · exact ih

theorem readNextAsciiToken_errorChar (h : readNextAsciiToken l = .error .errorChar) (x : Bytes) :
    readNextAsciiToken (l ++ x) = .error .errorChar := by
  induction l with
  | nil => cases h
  | cons c cs ih =>
    rw [readNextAsciiToken] at h
    rw [cons_append, readNextAsciiToken]
    cases hc : charAttr c with
    | error => rfl
    | quote => rw [hc] at h; exact absurd h quotedToken_ne_errorChar
    | sep => rw [hc] at h; cases h
    | space => rw [hc] at h; exact ih h
    | char => rw [hc] at h; exact wordToken_errorChar h x

theorem wordToken_split (h : wordToken text l = .ok (t, rest)) : ∃ w, t.text = text ++ w ∧ l = w ++ rest := by
  induction l generalizing text with
  | nil => cases h
  | cons c cs ih =>
    rw [wordToken] at h
    have hstop : (Except.ok (Token.word text, c :: cs) : Except TokenFault (Token × Bytes)) = .ok (t, rest) →
        ∃ w, t.text = text ++ w ∧ c :: cs = w ++ rest := by
      intro heq
      cases heq
      exact ⟨[], (append_nil _).symm, rfl⟩
    cases hc : charAttr c with
    | error => rw [hc] at h; cases h
    | char =>
      rw [hc] at h
      obtain ⟨w, htext, rfl⟩ := ih h
      exact ⟨c :: w, by rw [htext, append_assoc]; rfl, rfl⟩
    | quote => rw [hc] at h; exact hstop h
    | sep => rw [hc] at h; exact hstop h
    | space => rw [hc] at h; exact hstop h

theorem quotedToken_split (h : quotedToken q text esc l = .ok (t, rest)) :
    ∃ w, t.text = text ++ w ∧ l = w ++ rest := by
  induction l generalizing text esc with
  | nil => cases h
  | cons c cs ih =>
    rw [quotedToken] at h
    split_ifs at h
    · cases h
      exact ⟨[c], rfl, rfl⟩
    · obtain ⟨w, htext, rfl⟩ := ih h
      exact ⟨c :: w, by rw [htext, append_assoc]; rfl, rfl⟩

/-- The blanks in front of a token, the token, and what is behind it. -/
theorem readNextAsciiToken_split (h : readNextAsciiToken l = .ok (t, rest)) :
    ∃ blanks, (∀ c ∈ blanks, charAttr c = .space) ∧ l = blanks ++ (t.text ++ rest) ∧ t.text ≠ [] := by
  induction l with
  | nil => cases h
  | cons c cs ih =>
    rw [readNextAsciiToken] at h
    have hfirst : (∃ w, t.text = [c] ++ w ∧ cs = w ++ rest) →
        ∃ blanks, (∀ c ∈ blanks, charAttr c = .space) ∧ c :: cs = blanks ++ (t.text ++ rest) ∧ t.text ≠ [] := by
      rintro ⟨w, htext, rfl⟩
      refine ⟨[], fun _ hc => absurd hc not_mem_nil, by rw [htext]; rfl, ?_⟩
      rw [htext]
      exact cons_ne_nil _ _
    cases hc : charAttr c with
    | error => rw [hc] at h; cases h
    | quote => rw [hc] at h; exact hfirst (quotedToken_split h)
    | sep =>
      rw [hc] at h
      cases h
      exact hfirst ⟨[], rfl, rfl⟩
    | space =>
      rw [hc] at h
      obtain ⟨blanks, hblanks, rfl, hne⟩ := ih h
      refine ⟨c :: blanks, ?_, rfl, hne⟩
      intro d hd
      rcases mem_cons.1 hd with rfl | hmem
      · exact hc
      · exact hblanks d hmem
    | char => rw [hc] at h; exact hfirst (wordToken_split h)

/-- A token takes at least one byte. -/
theorem readNextAsciiToken_length (h : readNextAsciiToken l = .ok (t, rest)) : rest.length < l.length := by
  obtain ⟨-, -, rfl, hne⟩ := readNextAsciiToken_split h
  have hpos := length_pos_of_ne_nil hne
  rw [length_append, length_append]
  omega

end Extension

/-! ## Tokens behind blanks -/

/-- A character that a token is passed over for. -/
def IsBlank (c : UInt8) : Prop := charAttr c = .space

instance (c : UInt8) : Decidable (IsBlank c) := inferInstanceAs (Decidable (_ = _))

/-- What ends a run of characters. -/
def Delimited : Bytes → Prop
  | [] => False
  | c :: _ => charAttr c ≠ .char ∧ charAttr c ≠ .error

theorem readNextAsciiToken_blanks {b : Bytes} (hb : StateReader.Blanks IsBlank b) (l : Bytes) :
    readNextAsciiToken (b ++ l) = readNextAsciiToken l := by
  induction b with
  | nil => rfl
  | cons c b ih =>
    have hc : charAttr c = .space := hb c mem_cons_self
    rw [cons_append, readNextAsciiToken, hc]
    exact ih fun d hd => hb d (mem_cons_of_mem _ hd)

theorem readNextAsciiToken_sep {c : UInt8} (hc : charAttr c = .sep) (rest : Bytes) :
    readNextAsciiToken (c :: rest) = .ok (.sep c, rest) := by
  rw [readNextAsciiToken, hc]

theorem wordToken_chars {w rest : Bytes} (hw : ∀ c ∈ w, charAttr c = .char) (hrest : Delimited rest)
    (text : Bytes) : wordToken text (w ++ rest) = .ok (.word (text ++ w), rest) := by
  induction w generalizing text with
  | nil =>
    cases rest with
    | nil => exact hrest.elim
    | cons c rest =>
      rw [nil_append, wordToken, append_nil]
      obtain ⟨hchar, herror⟩ := hrest
      cases hc : charAttr c with
      | error => exact absurd hc herror
      | char => exact absurd hc hchar
      | quote => rfl
      | sep => rfl
      | space => rfl
  | cons c w ih =>
    have hc : charAttr c = .char := hw c mem_cons_self
    rw [cons_append, wordToken, hc]
    have hih := ih (fun d hd => hw d (mem_cons_of_mem _ hd)) (text ++ [c])
    rw [append_assoc] at hih
    exact hih

theorem readNextAsciiToken_word {w rest : Bytes} (hw : ∀ c ∈ w, charAttr c = .char) (hne : w ≠ [])
    (hrest : Delimited rest) : readNextAsciiToken (w ++ rest) = .ok (.word w, rest) := by
  cases w with
  | nil => exact absurd rfl hne
  | cons c w =>
    have hc : charAttr c = .char := hw c mem_cons_self
    rw [cons_append, readNextAsciiToken, hc]
    exact wordToken_chars (fun d hd => hw d (mem_cons_of_mem _ hd)) hrest [c]

end Whispercast.Io
