import Mathlib.Data.List.Basic
import Mathlib.Order.Basic

/-!
# Readers that can fall short

A reader takes symbols from the head of a stream and yields a value or an error; the symbols it has not
taken stay in the stream in both cases. Two properties of a reader on a given encoding are of interest:
it takes exactly the encoding, whatever follows it (`Gets`), and on every proper initial part of the
encoding it reports that more is needed (`Reads`). The second one is relative to a number of symbols that
are known to be there, since a reader may check their number once and then take several fields.

For inputs that are not encodings, `Takes` says which errors cannot occur on inputs of certain lengths
and how much a reader takes at least. `ExtendedBy` compares readers whose recursion is bounded.
-/

namespace Whispercast.Library

open List

/-- A reader of symbols `β` with values `α` and errors `ε`. -/
def Reader (β ε α : Type) : Type := List β → Except ε α × List β

namespace Reader

variable {β ε α γ : Type}

/-- Yield a value, take nothing. -/
protected def pure (a : α) : Reader β ε α := fun s => (.ok a, s)

/-- One reader after the other; an error ends the sequence where it occurs. -/
protected def bind (r : Reader β ε α) (f : α → Reader β ε γ) : Reader β ε γ := fun s =>
  match r s with
  | (.ok a, s') => f a s'
  | (.error e, s') => (.error e, s')

instance : Monad (Reader β ε) where
  pure := Reader.pure
  bind := Reader.bind

/-- Report an error, take nothing. -/
def fail (e : ε) : Reader β ε α := fun s => (.error e, s)

/-- Go on only when `n` symbols are available. -/
def need (n : Nat) (e : ε) : Reader β ε Unit := fun s =>
  if s.length < n then (.error e, s) else (.ok (), s)

/-- Take `n` symbols; with fewer of them available it is an error and all are gone. -/
def take (n : Nat) (e : ε) : Reader β ε (List β) := fun s =>
  if s.length < n then (.error e, []) else (.ok (s.take n), s.drop n)

/-- Run a reader and put back what it has taken. -/
def lookahead (r : Reader β ε α) : Reader β ε α := fun s => ((r s).1, s)

/-- Run a reader, and put back what it has taken when it fails. -/
def restoring (r : Reader β ε α) : Reader β ε α := fun s =>
  match r s with
  | (.ok a, s') => (.ok a, s')
  | (.error e, _) => (.error e, s)

theorem bind_eq (r : Reader β ε α) (f : α → Reader β ε γ) : r >>= f = Reader.bind r f := rfl

variable {r : Reader β ε α} {s s' : List β}

theorem bind_ok {a : α} (h : r s = (.ok a, s')) (f : α → Reader β ε γ) : (r >>= f) s = f a s' := by
  rw [bind_eq, Reader.bind, h]

/-- A sequence that yields a value has yielded one in its first part. -/
theorem bind_eq_ok {f : α → Reader β ε γ} {c : γ} (h : (r >>= f) s = (.ok c, s')) :
    ∃ a s₁, r s = (.ok a, s₁) ∧ f a s₁ = (.ok c, s') := by
  rw [bind_eq, Reader.bind] at h
  cases hr : r s with
  | mk result s₁ =>
    rw [hr] at h
    cases result with
    | ok a => exact ⟨a, s₁, rfl, h⟩
    | error e => cases h

theorem bind_error {e : ε} (h : r s = (.error e, s')) (f : α → Reader β ε γ) : (r >>= f) s = (.error e, s') := by
  rw [bind_eq, Reader.bind, h]

/-- A sequence fails with the error of its first part. -/
theorem bind_fst_error {e : ε} (h : (r s).1 = .error e) (f : α → Reader β ε γ) : ((r >>= f) s).1 = .error e := by
  have hs : r s = (.error e, (r s).2) := by rw [← h]
  rw [bind_error hs]

theorem need_of_le {n : Nat} (e : ε) (h : n ≤ s.length) :
    (need n e : Reader β ε Unit) s = (.ok (), s) := if_neg (Nat.not_lt.2 h)

theorem need_of_lt {n : Nat} (e : ε) (h : s.length < n) : (need n e : Reader β ε Unit) s = (.error e, s) := if_pos h

theorem take_of_le {n : Nat} (e : ε) (h : n ≤ s.length) :
    (take n e : Reader β ε (List β)) s = (.ok (s.take n), s.drop n) := if_neg (Nat.not_lt.2 h)

theorem restoring_ok {a : α} (h : r s = (.ok a, s')) : restoring r s = (.ok a, s') := by
  rw [restoring, h]

theorem restoring_error {e : ε} (h : r s = (.error e, s')) : restoring r s = (.error e, s) := by
  rw [restoring, h]

/-! ## Exact extent -/

/-- The reader takes exactly `u`, whatever follows, and yields `a`. -/
def Gets (r : Reader β ε α) (u : List β) (a : α) : Prop :=
  ∀ rest, r (u ++ rest) = (.ok a, rest)

namespace Gets

variable {r : Reader β ε α} {f : α → Reader β ε γ} {u v : List β} {a : α} {b : γ}

theorem pure (a : α) : Gets (Pure.pure a : Reader β ε α) [] a := fun _ => rfl

theorem bind (hr : Gets r u a) (hf : Gets (f a) v b) : Gets (r >>= f) (u ++ v) b := by
  intro rest
  rw [append_assoc, bind_ok (hr (v ++ rest))]
  exact hf rest

/-- The last reader of a sequence takes the rest of the encoding. -/
theorem bind_pure (hr : Gets r u a) (g : α → γ) : Gets (r >>= fun x => Pure.pure (g x)) u (g a) := by
  have h := hr.bind (f := fun x => Pure.pure (g x)) (pure (g a))
  rwa [append_nil] at h

theorem need {n : Nat} (e : ε) (hr : Gets r u a) (hn : n ≤ u.length) : Gets (need n e >>= fun _ => r) u a := by
  intro rest
  have hlen : ¬ (u ++ rest).length < n := by
    rw [length_append]
    omega
  have hneed : (Reader.need n e : Reader β ε Unit) (u ++ rest) = (.ok (), u ++ rest) := if_neg hlen
  rw [bind_ok hneed]
  exact hr rest

theorem take {n : Nat} (e : ε) (hn : u.length = n) : Gets (take n e) u u := by
  intro rest
  subst hn
  rw [Reader.take, if_neg (by rw [length_append]; omega), take_left, drop_left]

/-- The first field of a list of fields. -/
theorem cons {us : List (List β)} (hr : Gets r u a) (hf : Gets (f a) us.flatten b) :
    Gets (r >>= f) (u :: us).flatten b := by
  rw [flatten_cons]
  exact hr.bind hf

/-- What was looked at is read again. -/
theorem lookahead {r' : Reader β ε γ} (hr : Gets r u a) {k : α → Reader β ε γ} (hk : k a = r')
    {w : List β} (hr' : Gets r' (u ++ w) b) : Gets (lookahead r >>= k) (u ++ w) b := by
  intro rest
  have hlook : Reader.lookahead r (u ++ w ++ rest) = (.ok a, u ++ w ++ rest) := by
    rw [Reader.lookahead, append_assoc, hr]
  rw [bind_ok hlook, hk]
  exact hr' rest

end Gets

/-! ## Incremental reading -/

/-- The reader takes exactly `u` and yields `a`; on a proper initial part of `u` that has at least `n`
symbols it fails with `short`. -/
def Reads (short : ε) (n : Nat) (r : Reader β ε α) (u : List β) (a : α) : Prop :=
  Gets r u a ∧ ∀ p, p <+: u → p ≠ u → n ≤ p.length → (r p).1 = .error short

/-- A proper initial part of a concatenation ends in the first string or in the second one. -/
theorem prefix_append_cases {p u v : List β} (hp : p <+: u ++ v) (hne : p ≠ u ++ v) :
    (p <+: u ∧ p ≠ u) ∨ ∃ p', p = u ++ p' ∧ p' <+: v ∧ p' ≠ v := by
  rcases hp with ⟨t, ht⟩
  rcases append_eq_append_iff.1 ht with ⟨c, hu, -⟩ | ⟨c, hp', hv⟩
  · by_cases hc : c = []
    · subst hc
      rw [append_nil] at hu
      refine Or.inr ⟨[], by rw [hu, append_nil], nil_prefix, ?_⟩
      intro hv
      rw [hu, ← hv, append_nil] at hne
      exact hne rfl
    · refine Or.inl ⟨⟨c, hu.symm⟩, ?_⟩
      intro hpu
      rw [hpu] at hu
      exact hc (self_eq_append_right.1 hu)
  · refine Or.inr ⟨c, hp', ⟨t, hv.symm⟩, ?_⟩
    intro hcv
    rw [hp', hcv] at hne
    exact hne rfl

namespace Reads

variable {short : ε} {n k : Nat} {r : Reader β ε α} {f : α → Reader β ε γ} {u v : List β} {a : α} {b : γ}

theorem gets (hr : Reads short n r u a) : Gets r u a := hr.1

theorem pure (a : α) : Reads short n (Pure.pure a : Reader β ε α) [] a := by
  refine ⟨Gets.pure a, ?_⟩
  intro p hp hne
  exact absurd (prefix_nil.1 hp) hne

/-- Sequence: the second reader starts where the first one ended. -/
theorem bind (hr : Reads short n r u a) (hf : Reads short 0 (f a) v b) : Reads short n (r >>= f) (u ++ v) b := by
  refine ⟨hr.1.bind hf.1, ?_⟩
  intro p hp hne hn
  rcases prefix_append_cases hp hne with ⟨hpu, hpne⟩ | ⟨p', rfl, hpv, hpne⟩
  · exact bind_fst_error (hr.2 p hpu hpne hn) f
  · rw [bind_ok (hr.1 p')]
    exact hf.2 p' hpv hpne (Nat.zero_le _)

/-- Sequence: a field whose symbols are known to be there. -/
theorem field {m : Nat} (hr : Gets r u a) (hu : u.length = m) (hf : Reads short k (f a) v b)
    (hmn : m + k ≤ n) : Reads short n (r >>= f) (u ++ v) b := by
  refine ⟨hr.bind hf.1, ?_⟩
  intro p hp hne hn
  rcases prefix_append_cases hp hne with ⟨hpu, hpne⟩ | ⟨p', rfl, hpv, hpne⟩
  · have hlt := hpu.length_le
    have heq : p.length = u.length := by omega
    exact absurd (hpu.eq_of_length heq) hpne
  · rw [bind_ok (hr p')]
    rw [length_append] at hn
    exact hf.2 p' hpv hpne (by omega)

/-- A last field whose symbols are known to be there. -/
theorem lastField (hr : Gets r u a) (hu : u.length = n) : Reads short n r u a := by
  refine ⟨hr, ?_⟩
  intro p hp hne hn
  have hle := hp.length_le
  exact absurd (hp.eq_of_length (by omega)) hne

/-- The check on the number of symbols makes the reader incremental. -/
theorem need (hr : Reads short n r u a) (hn : n ≤ u.length) : Reads short k (need n short >>= fun _ => r) u a := by
  refine ⟨hr.1.need short hn, ?_⟩
  intro p hp hne _
  by_cases hlt : p.length < n
  · have hneed : (Reader.need n short : Reader β ε Unit) p = (.error short, p) := if_pos hlt
    rw [bind_error hneed]
  · have hneed : (Reader.need n short : Reader β ε Unit) p = (.ok (), p) := if_neg hlt
    rw [bind_ok hneed]
    exact hr.2 p hp hne (by omega)

theorem map (hr : Reads short n r u a) (g : α → γ) : Reads short n (r >>= fun x => Pure.pure (g x)) u (g a) := by
  have h := hr.bind (f := fun x => Pure.pure (g x)) (pure (g a))
  rwa [append_nil] at h

/-- A reader that looks ahead over `u` and goes on with a reader of the whole encoding. -/
theorem lookahead {r' : Reader β ε γ} {w : List β} (hr : Reads short n r u a) {k : α → Reader β ε γ}
    (hk : k a = r') (hr' : Reads short n r' (u ++ w) b) :
    Reads short n (lookahead r >>= k) (u ++ w) b := by
  refine ⟨hr.1.lookahead hk hr'.1, ?_⟩
  intro p hp hne hn
  rcases prefix_append_cases hp hne with ⟨hpu, hpne⟩ | ⟨p', rfl, -, -⟩
  · have herr := hr.2 p hpu hpne hn
    have hlook : Reader.lookahead r p = (.error short, p) := by rw [Reader.lookahead, herr]
    rw [bind_error hlook]
  · have hlook : Reader.lookahead r (u ++ p') = (.ok a, u ++ p') := by rw [Reader.lookahead, hr.1]
    rw [bind_ok hlook, hk]
    exact hr'.2 _ hp hne hn

end Reads

/-! ## Arbitrary input -/

/-- On every input of at least `lo` and at most `hi` symbols the reader does not fail with a `bad` error,
and takes at least `k` symbols when it yields a value. -/
def Takes (bad : ε → Prop) (lo hi k : Nat) (r : Reader β ε α) : Prop :=
  ∀ s, lo ≤ s.length → s.length ≤ hi → match (r s).1 with
    | .ok _ => (r s).2.length + k ≤ s.length
    | .error e => ¬ bad e

/-- On every input of at least `n` symbols the reader yields a value and takes `n` symbols. -/
def TakesExactly (n : Nat) (r : Reader β ε α) : Prop :=
  ∀ s, n ≤ s.length → ∃ a, r s = (.ok a, s.drop n)

namespace TakesExactly

variable {n : Nat} {r : Reader β ε α}

theorem take (n : Nat) (e : ε) : TakesExactly n (take n e : Reader β ε (List β)) := by
  intro s hn
  exact ⟨s.take n, if_neg (Nat.not_lt.2 hn)⟩

theorem map (hr : TakesExactly n r) (g : α → γ) : TakesExactly n (r >>= fun x => Pure.pure (g x)) := by
  intro s hn
  rcases hr s hn with ⟨a, ha⟩
  exact ⟨g a, bind_ok ha _⟩

end TakesExactly

namespace Takes

variable {bad : ε → Prop} {lo lo' hi hi' k k' j n : Nat} {r : Reader β ε α} {f : α → Reader β ε γ} {a : α}
  {e : ε}

theorem pure (a : α) : Takes bad lo hi 0 (Pure.pure a : Reader β ε α) := fun _ _ _ => Nat.le_refl _

theorem fail (he : ¬ bad e) : Takes bad lo hi k (fail e : Reader β ε α) := fun _ _ _ => he

/-- There is no input in an empty range of lengths. -/
theorem of_le (h : lo ≤ hi → Takes bad lo hi k r) : Takes bad lo hi k r :=
  fun s hlo hhi => h (Nat.le_trans hlo hhi) s hlo hhi

theorem mono (hr : Takes bad lo hi k r) (hlo : lo ≤ lo') (hhi : hi' ≤ hi) (hk : k' ≤ k) : Takes bad lo' hi' k' r := by
  intro s hs hs'
  have h := hr s (Nat.le_trans hlo hs) (Nat.le_trans hs' hhi)
  cases hx : (r s).1 with
  | ok a =>
    rw [hx] at h
    exact Nat.le_trans (Nat.add_le_add_left hk _) h
  | error e =>
    rw [hx] at h
    exact h

theorem weaken (hr : Takes bad lo hi k r) : Takes bad lo hi 0 r :=
  hr.mono (Nat.le_refl lo) (Nat.le_refl hi) (Nat.zero_le k)

/-- The second reader runs only when the input was long enough for the first one. -/
theorem bind (hr : Takes bad lo hi k r) (hf : k ≤ hi → ∀ a, Takes bad 0 (hi - k) 0 (f a)) :
    Takes bad lo hi k (r >>= f) := by
  intro s hs hs'
  have h := hr s hs hs'
  rcases hrs : r s with ⟨x, s'⟩
  rw [hrs] at h
  cases x with
  | error e =>
    rw [bind_error hrs]
    exact h
  | ok a =>
    change s'.length + k ≤ s.length at h
    have h' := hf (by omega) a s' (Nat.zero_le _) (by omega)
    rw [bind_ok hrs]
    cases hx : (f a s').1 with
    | ok b =>
      rw [hx] at h'
      omega
    | error e =>
      rw [hx] at h'
      exact h'

/-- A field whose symbols are known to be there. -/
theorem field (hr : TakesExactly n r) (hn : n ≤ lo) (hf : ∀ a, Takes bad (lo - n) (hi - n) 0 (f a)) :
    Takes bad lo hi n (r >>= f) := by
  intro s hs hs'
  rcases hr s (Nat.le_trans hn hs) with ⟨a, ha⟩
  have hlen : (s.drop n).length = s.length - n := length_drop
  have h := hf a (s.drop n) (by omega) (by omega)
  rw [bind_ok ha]
  cases hx : (f a (s.drop n)).1 with
  | ok b =>
    rw [hx] at h
    omega
  | error e =>
    rw [hx] at h
    exact h

theorem need (he : ¬ bad e) (hr : Takes bad (max lo n) hi k r) : Takes bad lo hi k (need n e >>= fun _ => r) := by
  intro s hs hs'
  by_cases hlt : s.length < n
  · have hneed : (Reader.need n e : Reader β ε Unit) s = (.error e, s) := if_pos hlt
    rw [bind_error hneed]
    exact he
  · have hneed : (Reader.need n e : Reader β ε Unit) s = (.ok (), s) := if_neg hlt
    rw [bind_ok hneed]
    exact hr s (Nat.max_le.2 ⟨hs, Nat.not_lt.1 hlt⟩) hs'

theorem lookahead (hr : Takes bad lo hi k r) (hf : ∀ a, Takes bad lo hi j (f a)) :
    Takes bad lo hi j (lookahead r >>= f) := by
  intro s hs hs'
  have h := hr s hs hs'
  cases hx : (r s).1 with
  | ok a =>
    have hlook : Reader.lookahead r s = (.ok a, s) := by rw [Reader.lookahead, hx]
    rw [bind_ok hlook]
    exact hf a s hs hs'
  | error e =>
    have hlook : Reader.lookahead r s = (.error e, s) := by rw [Reader.lookahead, hx]
    rw [hx] at h
    rw [bind_error hlook]
    exact h

end Takes

/-! ## Bounded recursion -/

/-- `r'` does what `r` does wherever `r` does not fail with `e`, the error for an exhausted bound. -/
def ExtendedBy (e : ε) (r r' : Reader β ε α) : Prop := ∀ s, (r s).1 = .error e ∨ r s = r' s

namespace ExtendedBy

variable {e : ε} {r r' : Reader β ε α} {f f' : α → Reader β ε γ}

theorem refl (r : Reader β ε α) : ExtendedBy e r r := fun _ => Or.inr rfl

theorem fail (r' : Reader β ε α) : ExtendedBy e (fail e) r' := fun _ => Or.inl rfl

theorem bind (hr : ExtendedBy e r r') (hf : ∀ a, ExtendedBy e (f a) (f' a)) : ExtendedBy e (r >>= f) (r' >>= f') := by
  intro s
  rcases hr s with herr | heq
  · exact Or.inl (bind_fst_error herr f)
  · rcases hrs : r s with ⟨x, s'⟩
    have hrs' : r' s = (x, s') := heq ▸ hrs
    cases x with
    | ok a =>
      rw [bind_ok hrs, bind_ok hrs']
      exact hf a s'
    | error e' =>
      rw [bind_error hrs, bind_error hrs']
      exact Or.inr rfl

theorem ite {c : Prop} [Decidable c] {q q' : Reader β ε α} (hr : ExtendedBy e r r')
    (hq : ExtendedBy e q q') : ExtendedBy e (if c then r else q) (if c then r' else q') := by
  split
  · exact hr
  · exact hq

end ExtendedBy

end Reader

end Whispercast.Library
