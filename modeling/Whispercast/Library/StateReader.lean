import Whispercast.Library.Reader

/-!
# Readers with a state of their own

A decoder object takes symbols from the head of a stream, changes its own state on the way, and yields a
value or an error. State and stream are left as they are at the moment of an error, so that the next call
starts from what a failed one has left behind.

Three properties are kept apart. `Gets` is a triple: from a state with the precondition, on an encoding with
blanks in front, the reader yields the value, leaves a state with the postcondition and at most blanks of
the encoding. `Extends` says that what a reader has decided on an input stays decided when the input goes on.
`Keeps` is an invariant of the state, on every input. The first two together tell what happens on an initial part
of an encoding: no value yet and no error but the one that asks for more (`Gets.short`).
-/

namespace Whispercast.Library

/-- A reader of symbols `β` with values `α`, errors `ε` and a state `σ`. -/
def StateReader (β ε σ α : Type) : Type := σ → List β → Except ε α × σ × List β

namespace StateReader

variable {β ε σ α γ : Type}

/-- Yield a value, take nothing. -/
protected def pure (a : α) : StateReader β ε σ α := fun s l => (.ok a, s, l)

/-- One reader after the other; an error ends the sequence where it occurs. -/
protected def bind (r : StateReader β ε σ α) (f : α → StateReader β ε σ γ) : StateReader β ε σ γ := fun s l =>
  match r s l with
  | (.ok a, s', l') => f a s' l'
  | (.error e, s', l') => (.error e, s', l')

instance : Monad (StateReader β ε σ) where
  pure := StateReader.pure
  bind := StateReader.bind

/-- Report an error, take nothing. -/
def fail (e : ε) : StateReader β ε σ α := fun s l => (.error e, s, l)

/-- Change the state, take nothing. -/
def modify (f : σ → σ) : StateReader β ε σ Unit := fun s l => (.ok (), f s, l)

/-- Take `n` symbols; with fewer of them available it is an error and none is taken. -/
def take (n : Nat) (e : ε) : StateReader β ε σ (List β) := fun s l =>
  if l.length < n then (.error e, s, l) else (.ok (l.take n), s, l.drop n)

theorem bind_eq (r : StateReader β ε σ α) (f : α → StateReader β ε σ γ) : r >>= f = StateReader.bind r f := rfl

variable {r : StateReader β ε σ α} {l : List β}

theorem bind_ok {s s' : σ} {l' : List β} {a : α} (h : r s l = (.ok a, s', l'))
    (f : α → StateReader β ε σ γ) : (r >>= f) s l = f a s' l' := by
  rw [bind_eq, StateReader.bind, h]

theorem bind_error {s s' : σ} {l' : List β} {e : ε}
    (h : r s l = (.error e, s', l')) (f : α → StateReader β ε σ γ) : (r >>= f) s l = (.error e, s', l') := by
  rw [bind_eq, StateReader.bind, h]

/-- The two ways in which a sequence ends. -/
theorem bind_cases (r : StateReader β ε σ α) (f : α → StateReader β ε σ γ) (s : σ) (l : List β) :
    (∃ a s' l', r s l = (.ok a, s', l') ∧ (r >>= f) s l = f a s' l') ∨
      ∃ e s' l', r s l = (.error e, s', l') ∧ (r >>= f) s l = (.error e, s', l') := by
  rcases hr : r s l with ⟨x, s', l'⟩
  cases x with
  | ok a => exact Or.inl ⟨a, s', l', rfl, bind_ok hr f⟩
  | error e => exact Or.inr ⟨e, s', l', rfl, bind_error hr f⟩

theorem bind_assoc {δ : Type} (r : StateReader β ε σ α) (f : α → StateReader β ε σ γ)
    (g : γ → StateReader β ε σ δ) : r >>= f >>= g = r >>= fun a => f a >>= g := by
  funext s l
  rcases bind_cases r f s l with ⟨a, s', l', ha, hbind⟩ | ⟨e, s', l', he, hbind⟩
  · rw [bind_ok ha, bind_eq (r >>= f), StateReader.bind, hbind]
    rfl
  · rw [bind_error he, bind_error hbind]

theorem take_of_le {n : Nat} (e : ε) (s : σ) (h : n ≤ l.length) :
    (take n e : StateReader β ε σ (List β)) s l = (.ok (l.take n), s, l.drop n) := if_neg (Nat.not_lt.2 h)

/-! ## Readers on a given input -/

/-! ## Reading an encoding -/

/-- All symbols of a list are blank. -/
def Blanks (blank : β → Prop) (l : List β) : Prop := ∀ c ∈ l, blank c

theorem blanks_nil (blank : β → Prop) : Blanks blank [] := by
  intro c hc
  exact absurd hc List.not_mem_nil

section Triples

variable (blank : β → Prop) (next : List β → Prop)

/-- From a state with `P`, on the encoding `u` with blanks in front of it and something `next` behind it, the
reader yields `a`, leaves a state with `Q`, and of the encoding at most blanks. -/
def Gets (P : σ → Prop) (r : StateReader β ε σ α) (u : List β) (a : α) (Q : σ → Prop) : Prop :=
  ∀ s b rest, P s → Blanks blank b → next rest →
    ∃ s' t, Q s' ∧ Blanks blank t ∧ r s (b ++ (u ++ rest)) = (.ok a, s', t ++ rest)

variable {blank next} {N : List β → Prop} {P Q R : σ → Prop} {r : StateReader β ε σ α}
  {f : α → StateReader β ε σ γ} {u v : List β} {a : α} {b : γ}

namespace Gets

theorem pure (a : α) : Gets blank next P (Pure.pure a : StateReader β ε σ α) [] a P := by
  intro s b rest hP hb _
  exact ⟨s, b, hP, hb, rfl⟩

section

variable (hr : Gets blank next P r u a Q)

include hr

/-- Sequence: the second encoding is something that may stand behind the first one. -/
theorem bind (hf : Gets blank N Q (f a) v b R)
    (hnext : ∀ rest, N rest → next (v ++ rest)) : Gets blank N P (r >>= f) (u ++ v) b R := by
  intro s bl rest hP hbl hrest
  obtain ⟨s', t, hQ, ht, heq⟩ := hr s bl (v ++ rest) hP hbl (hnext rest hrest)
  -- What the first reader has left of its blanks stands in front of the second encoding.
  obtain ⟨s'', t', hR, ht', heq'⟩ := hf s' t rest hQ ht hrest
  refine ⟨s'', t', hR, ht', ?_⟩
  rw [List.append_assoc, bind_ok heq]
  exact heq'

/-- Sequence with a reader that takes nothing. -/
theorem bind_nil (hf : Gets blank next Q (f a) [] b R) : Gets blank next P (r >>= f) u b R := by
  have h := hr.bind hf fun _ hrest => hrest
  rwa [List.append_nil] at h

/-- The last reader of a sequence takes the rest of the encoding. -/
theorem bind_pure (g : α → γ) : Gets blank next P (r >>= fun x => Pure.pure (g x)) u (g a) Q :=
  hr.bind_nil (f := fun x => Pure.pure (g x)) (pure (g a))

theorem consequence {P' Q' : σ → Prop} (hP : ∀ s, P' s → P s)
    (hQ : ∀ s, Q s → Q' s) (hnext : ∀ rest, N rest → next rest) : Gets blank N P' r u a Q' := by
  intro s bl rest hs hbl hrest
  obtain ⟨s', t, hs', ht, heq⟩ := hr s bl rest (hP s hs) hbl (hnext rest hrest)
  exact ⟨s', t, hQ s' hs', ht, heq⟩

end

theorem modify {g : σ → σ} (h : ∀ s, P s → Q (g s)) :
    Gets blank next P (modify g : StateReader β ε σ Unit) [] () Q := by
  intro s b rest hP hb _
  exact ⟨g s, b, h s hP, hb, rfl⟩

end Gets

end Triples

/-! ## Decided stays decided -/

/-- What the reader decides on this input, it decides on every longer one: the value and what it has taken are
the same, and so is an error other than `short`. -/
structure ExtendsAt (short : ε) (r : StateReader β ε σ α) (s : σ) (l : List β) : Prop where
  ok : ∀ a s' l', r s l = (.ok a, s', l') → ∀ x, r s (l ++ x) = (.ok a, s', l' ++ x)
  error : ∀ e s' l', r s l = (.error e, s', l') → e ≠ short → ∀ x, (r s (l ++ x)).1 = .error e

/-- The reader decides on every input for all longer ones. -/
def Extends (short : ε) (r : StateReader β ε σ α) : Prop := ∀ s l, ExtendsAt short r s l

theorem ExtendsAt.bind {short : ε} {f : α → StateReader β ε σ γ} {s : σ}
    (hr : ExtendsAt short r s l) (hf : ∀ a s' l', r s l = (.ok a, s', l') → ExtendsAt short (f a) s' l') :
    ExtendsAt short (r >>= f) s l := by
  constructor
  · intro c s'' l'' h x
    rcases bind_cases r f s l with ⟨a, s', l', ha, hbind⟩ | ⟨e, s', l', he, hbind⟩
    · rw [hbind] at h
      rw [bind_ok (hr.ok a s' l' ha x)]
      exact (hf a s' l' ha).ok c s'' l'' h x
    · rw [hbind] at h
      cases h
  · intro e s'' l'' h hne x
    rcases bind_cases r f s l with ⟨a, s', l', ha, hbind⟩ | ⟨_, s', l', he, hbind⟩
    · rw [hbind] at h
      rw [bind_ok (hr.ok a s' l' ha x)]
      exact (hf a s' l' ha).error e s'' l'' h hne x
    · rw [hbind] at h
      cases h
      have herr := hr.error e s'' l'' he hne x
      have hpair : r s (l ++ x) = (.error e, (r s (l ++ x)).2) := by rw [← herr]
      rw [bind_error hpair]

namespace Extends

variable {short e : ε} {r : StateReader β ε σ α} {f : α → StateReader β ε σ γ}

theorem pure (a : α) : Extends short (Pure.pure a : StateReader β ε σ α) := by
  intro s l
  constructor
  · intro c s' l' h x
    cases h
    rfl
  · intro e s' l' h
    cases h

theorem fail (e : ε) : Extends short (fail e : StateReader β ε σ α) := by
  intro s l
  constructor
  · intro c s' l' h
    cases h
  · intro e' s' l' h _ x
    cases h
    rfl

theorem modify (g : σ → σ) : Extends short (modify g : StateReader β ε σ Unit) := by
  intro s l
  constructor
  · intro c s' l' h x
    cases h
    rfl
  · intro e s' l' h
    cases h

theorem bind (hr : Extends short r) (hf : ∀ a, Extends short (f a)) : Extends short (r >>= f) :=
  fun s l => (hr s l).bind fun a s' l' _ => hf a s' l'

theorem take (n : Nat) (e : ε) : Extends e (take n e : StateReader β ε σ (List β)) := by
  intro s l
  constructor
  · intro c s' l' h x
    rw [StateReader.take] at h
    split_ifs at h with hn
    · cases h
    · cases h
      have hle := Nat.not_lt.1 hn
      have hlen : n ≤ (l ++ x).length := by
        rw [List.length_append]
        omega
      rw [take_of_le e s hlen, List.take_append_of_le_length hle, List.drop_append_of_le_length hle]
  · intro e' s' l' h hne
    rw [StateReader.take] at h
    split_ifs at h with hn
    · cases h
      exact absurd rfl hne
    · cases h

end Extends

/-- Where the whole input leads to a value and leaves blanks only, a part of it that something else than
blanks is missing from leads to no decision. -/
theorem Extends.short_of_missing {blank : β → Prop} {short : ε} {s s' : σ}
    {p x rest : List β} {a : α} (hr : Extends short r) (hfull : r s (p ++ x) = (.ok a, s', rest))
    (hrest : Blanks blank rest) (hx : ¬ Blanks blank x) : (r s p).1 = .error short := by
  rcases hp : r s p with ⟨y, s'', l⟩
  cases y with
  | ok c =>
    -- A value on the part would leave all that is missing.
    exfalso
    have hok := (hr s p).ok c s'' l hp x
    rw [hfull, Prod.mk.injEq, Prod.mk.injEq] at hok
    apply hx
    intro c hc
    apply hrest c
    rw [hok.2.2]
    exact List.mem_append_right _ hc
  | error e =>
    by_contra hshort
    have he : e ≠ short := by
      rintro rfl
      exact hshort rfl
    have herr := (hr s p).error e s'' l hp he x
    rw [hfull] at herr
    cases herr

/-! ## Invariants of the state -/

/-- On every input the reader keeps the invariant, also when it fails. -/
def Keeps (P : σ → Prop) (r : StateReader β ε σ α) : Prop := ∀ s l, P s → P (r s l).2.1

namespace Keeps

variable {P : σ → Prop} {r : StateReader β ε σ α} {f : α → StateReader β ε σ γ}

theorem pure (a : α) : Keeps P (Pure.pure a : StateReader β ε σ α) := fun _ _ h => h

theorem fail (e : ε) : Keeps P (fail e : StateReader β ε σ α) := fun _ _ h => h

theorem modify {g : σ → σ} (hg : ∀ s, P s → P (g s)) : Keeps P (modify g : StateReader β ε σ Unit) :=
  fun s _ h => hg s h

theorem take (n : Nat) (e : ε) : Keeps P (take n e : StateReader β ε σ (List β)) := by
  intro s l hs
  rw [StateReader.take]
  split_ifs
  · exact hs
  · exact hs

theorem bind (hr : Keeps P r) (hf : ∀ a, Keeps P (f a)) : Keeps P (r >>= f) := by
  intro s l hs
  have h := hr s l hs
  rcases bind_cases r f s l with ⟨a, s', l', ha, hbind⟩ | ⟨e, s', l', he, hbind⟩
  · rw [hbind]
    rw [ha] at h
    exact hf a s' l' h
  · rw [hbind]
    rw [he] at h
    exact h

end Keeps

/-! ## Loops -/

/-- A value takes at least `k` symbols. -/
def Takes (k : Nat) (r : StateReader β ε σ α) : Prop :=
  ∀ s l a s' l', r s l = (.ok a, s', l') → l'.length + k ≤ l.length

namespace Takes

variable {k j : Nat} {r : StateReader β ε σ α} {f : α → StateReader β ε σ γ}

theorem pure (a : α) : Takes 0 (Pure.pure a : StateReader β ε σ α) := by
  intro s l a' s' l' h
  cases h
  exact Nat.le_refl _

theorem fail (e : ε) : Takes k (fail e : StateReader β ε σ α) := by
  intro s l a' s' l' h
  cases h

theorem modify (g : σ → σ) : Takes 0 (modify g : StateReader β ε σ Unit) := by
  intro s l a' s' l' h
  cases h
  exact Nat.le_refl _

theorem take (n : Nat) (e : ε) : Takes n (take n e : StateReader β ε σ (List β)) := by
  intro s l a s' l' h
  rw [StateReader.take] at h
  split_ifs at h with hn
  · cases h
  · cases h
    rw [List.length_drop]
    omega

theorem mono (hr : Takes k r) (hj : j ≤ k) : Takes j r := by
  intro s l a s' l' h
  have := hr s l a s' l' h
  omega

theorem bind (hr : Takes k r) (hf : ∀ a, Takes j (f a)) : Takes (k + j) (r >>= f) := by
  intro s l b s'' l'' h
  rcases bind_cases r f s l with ⟨a, s', l', ha, hbind⟩ | ⟨e, s', l', -, hbind⟩
  · rw [hbind] at h
    have h1 := hr s l a s' l' ha
    have h2 := hf a s' l' b s'' l'' h
    omega
  · rw [hbind] at h
    cases h

end Takes

section Iterate

variable {x : γ} (body : γ → StateReader β ε σ (γ ⊕ α)) (out : ε)

/-- At most `n` turns of a loop, each of which ends it or says what the next one starts from. -/
def turns : Nat → γ → StateReader β ε σ α
  | 0, _ => fail out
  | n + 1, x => body x >>= fun y => match y with
      | .inl x' => turns n x'
      | .inr a => pure a

/-- The loop. A turn that does not end it takes a symbol, so the length of the input bounds the turns and `out`
is never reported. -/
def iterate (x : γ) : StateReader β ε σ α := fun s l => turns body out (l.length + 1) x s l

variable {body out}

/-- A turn takes a symbol unless it is the last one. -/
def TurnTakes (r : StateReader β ε σ (γ ⊕ α)) : Prop :=
  ∀ s l x' s' l', r s l = (.ok (.inl x'), s', l') → l'.length < l.length

theorem TurnTakes.last (a : α) : TurnTakes (pure (.inr a) : StateReader β ε σ (γ ⊕ α)) := by
  intro s l x' s' l' h
  cases h

theorem TurnTakes.of_takes {r : StateReader β ε σ (γ ⊕ α)} (hr : Takes 1 r) : TurnTakes r := by
  intro s l x' s' l' h
  exact hr s l _ s' l' h

theorem TurnTakes.bind {δ : Type} {r : StateReader β ε σ δ} {f : δ → StateReader β ε σ (γ ⊕ α)} (hr : Takes 0 r)
    (hf : ∀ d, TurnTakes (f d)) : TurnTakes (r >>= f) := by
  intro s l x' s'' l'' h
  rcases bind_cases r f s l with ⟨d, s', l', hd, hbind⟩ | ⟨e, s', l', -, hbind⟩
  · rw [hbind] at h
    have h1 := hr s l d s' l' hd
    have h2 := hf d s' l' x' s'' l'' h
    omega
  · rw [hbind] at h
    cases h

/-- Every turn takes a symbol unless it is the last one. -/
def Progress (body : γ → StateReader β ε σ (γ ⊕ α)) : Prop := ∀ x, TurnTakes (body x)

theorem turns_congr (hprogress : Progress body) {m n : Nat} {s : σ} {l : List β} (hm : l.length < m)
    (hn : l.length < n) : turns body out m x s l = turns body out n x s l := by
  induction m generalizing n x s l with
  | zero => exact absurd hm (Nat.not_lt_zero _)
  | succ m ih =>
    cases n with
    | zero => exact absurd hn (Nat.not_lt_zero _)
    | succ n =>
      rw [turns, turns]
      rcases hb : body x s l with ⟨y, s', l'⟩
      cases y with
      | error e => rw [bind_error hb, bind_error hb]
      | ok y =>
        rw [bind_ok hb, bind_ok hb]
        cases y with
        | inr a => rfl
        | inl x' =>
          have hlt := hprogress x s l x' s' l' hb
          exact ih (by omega) (by omega)

/-- A loop is one turn, and what comes after it. -/
theorem iterate_eq (hprogress : Progress body) (x : γ) :
    iterate body out x = (body x >>= fun y => match y with
      | .inl x' => iterate body out x'
      | .inr a => pure a) := by
  funext s l
  rw [iterate, turns]
  rcases hb : body x s l with ⟨y, s', l'⟩
  cases y with
  | error e => rw [bind_error hb, bind_error hb]
  | ok y =>
    rw [bind_ok hb, bind_ok hb]
    cases y with
    | inr a => rfl
    | inl x' =>
      have hlt := hprogress x s l x' s' l' hb
      exact turns_congr hprogress hlt (Nat.lt_succ_self _)

section Triples

variable {blank : β → Prop} {next N : List β → Prop} {P Q R : σ → Prop} {u v : List β} {x' : γ} {a : α}

/-- The last turn of a loop. -/
theorem Gets.iterate_last (hprogress : Progress body) (h : Gets blank next P (body x) u (.inr a) Q) :
    Gets blank next P (iterate body out x) u a Q := by
  rw [iterate_eq hprogress]
  exact h.bind_nil (Gets.pure a)

/-- A turn of a loop, and the others. -/
theorem Gets.iterate_turn (hprogress : Progress body) (h : Gets blank next P (body x) u (.inl x') Q)
    (h' : Gets blank N Q (iterate body out x') v a R) (hnext : ∀ rest, N rest → next (v ++ rest)) :
    Gets blank N P (iterate body out x) (u ++ v) a R := by
  rw [iterate_eq hprogress]
  exact h.bind h' hnext

end Triples

theorem Extends.iterate {short : ε} (hprogress : Progress body) (hbody : ∀ x, Extends short (body x)) (x : γ) :
    Extends short (iterate body out x) := by
  -- A turn that is not the last one takes a symbol: induction on the number of symbols.
  have hall : ∀ n s l x, l.length < n → ExtendsAt short (StateReader.iterate body out x) s l := by
    intro n
    induction n with
    | zero => exact fun s l x hn => absurd hn (Nat.not_lt_zero _)
    | succ n ih =>
      intro s l x hn
      rw [iterate_eq hprogress]
      apply (hbody x s l).bind
      intro y s' l' hb
      cases y with
      | inr a => exact Extends.pure a s' l'
      | inl x' =>
        have hlt := hprogress x s l x' s' l' hb
        exact ih s' l' x' (by omega)
  intro s l
  exact hall (l.length + 1) s l x (Nat.lt_succ_self _)

theorem Keeps.iterate {P : σ → Prop} (hbody : ∀ x, Keeps P (body x)) (x : γ) : Keeps P (iterate body out x) := by
  have hturns : ∀ n x, Keeps P (turns body out n x) := by
    intro n
    induction n with
    | zero => exact fun x => Keeps.fail out
    | succ n ih =>
      intro x
      apply (hbody x).bind
      intro y
      cases y with
      | inl x' => exact ih x'
      | inr a => exact Keeps.pure a
  intro s l hs
  exact hturns _ x s l hs

theorem Takes.iterate {k : Nat} (hbody : ∀ x, Takes k (body x)) (x : γ) : Takes k (iterate body out x) := by
  have hturns : ∀ n x, Takes k (turns body out n x) := by
    intro n
    induction n with
    | zero => exact fun x => Takes.fail out
    | succ n ih =>
      intro x
      refine Takes.mono ((hbody x).bind (j := 0) ?_) (Nat.le_add_right k 0)
      intro y
      cases y with
      | inl x' => exact (ih x').mono (Nat.zero_le k)
      | inr a => exact Takes.pure a
  intro s l
  exact hturns _ x s l

end Iterate

/-! ## All together -/

/-- What holds of a reader on every input: it decides for all longer inputs, takes at least `k` symbols with a
value, and keeps an invariant of its state. -/
structure Regular (short : ε) (I : σ → Prop) (k : Nat) (r : StateReader β ε σ α) : Prop where
  decides : Extends short r
  takes : Takes k r
  keeps : Keeps I r

namespace Regular

variable {short : ε} {I : σ → Prop} {k j : Nat} {r : StateReader β ε σ α} {f : α → StateReader β ε σ γ}

theorem pure (a : α) : Regular short I 0 (Pure.pure a : StateReader β ε σ α) :=
  ⟨Extends.pure a, Takes.pure a, Keeps.pure a⟩

theorem fail (e : ε) : Regular short I k (fail e : StateReader β ε σ α) :=
  ⟨Extends.fail e, Takes.fail e, Keeps.fail e⟩

theorem modify {g : σ → σ} (hg : ∀ s, I s → I (g s)) : Regular short I 0 (modify g : StateReader β ε σ Unit) :=
  ⟨Extends.modify g, Takes.modify g, Keeps.modify hg⟩

theorem take (n : Nat) (e : ε) : Regular e I n (take n e : StateReader β ε σ (List β)) :=
  ⟨Extends.take n e, Takes.take n e, Keeps.take n e⟩

theorem mono (hr : Regular short I k r) (hj : j ≤ k) : Regular short I j r :=
  ⟨hr.decides, hr.takes.mono hj, hr.keeps⟩

theorem bind (hr : Regular short I k r) (hf : ∀ a, Regular short I j (f a)) : Regular short I (k + j) (r >>= f) :=
  ⟨hr.decides.bind fun a => (hf a).decides, hr.takes.bind fun a => (hf a).takes,
    hr.keeps.bind fun a => (hf a).keeps⟩

/-- The first reader takes what is asked for. -/
theorem bind_left (hr : Regular short I k r) (hf : ∀ a, Regular short I 0 (f a)) :
    Regular short I k (r >>= f) := hr.bind hf

/-- The second reader takes what is asked for. -/
theorem bind_right (hr : Regular short I 0 r) (hf : ∀ a, Regular short I k (f a)) :
    Regular short I k (r >>= f) := (hr.bind hf).mono (Nat.le_add_left k 0)

theorem iterate {body : γ → StateReader β ε σ (γ ⊕ α)} {out : ε} (hprogress : Progress body)
    (hbody : ∀ x, Regular short I k (body x)) (x : γ) : Regular short I k (iterate body out x) :=
  ⟨Extends.iterate hprogress (fun x => (hbody x).decides) x, Takes.iterate (fun x => (hbody x).takes) x,
    Keeps.iterate (fun x => (hbody x).keeps) x⟩

end Regular

end StateReader

end Whispercast.Library
