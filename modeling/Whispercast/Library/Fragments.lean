import Mathlib.Data.List.Forall2

/-!
# Fragments of messages

A message is sent as one fragment or several ones. The first one is marked, and all but the last one are marked as
being continued. An assembler takes one fragment after another and puts the messages together again. It may come
into the stream at any point, and it can be told to skip what is left of a message.
-/

namespace Whispercast.Library

open List

variable {α : Type}

/-- A part of a message. -/
structure Fragment (α : Type) where
  first : Bool
  cont : Bool
  data : List α

/-- The fragments carry the message, of which they are the beginning or the rest. -/
inductive Carries : Bool → List α → List (Fragment α) → Prop where
  | last (first : Bool) (m : List α) : Carries first m [⟨first, false, m⟩]
  | more (first : Bool) {d m : List α} {fs : List (Fragment α)} (hd : d ≠ []) (h : Carries false m fs) :
      Carries first (d ++ m) (⟨first, true, d⟩ :: fs)

/-- What an assembler has: the data of a message that is not complete, and whether it skips. -/
structure Assembler (α : Type) where
  pending : List α := []
  skip : Bool := false

/-- What an assembler gives: a message, or the notice that a message has no end. -/
inductive Assembled (α : Type) where
  | message (m : List α)
  | unfinished

namespace Assembler

/-- One fragment is taken. A rest whose beginning was not seen is passed over. -/
def take (a : Assembler α) (f : Fragment α) : Option (Assembled α) × Assembler α :=
  if a.skip then (none, { a with skip := f.cont })
  else if f.first ∧ a.pending ≠ [] then (some .unfinished, { a with pending := [] })
  else if a.pending = [] ∧ f.first = false then (none, a)
  else if f.cont then (none, { a with pending := a.pending ++ f.data })
  else (some (.message (a.pending ++ f.data)), { a with pending := [] })

/-- All fragments are taken. -/
def assemble : Assembler α → List (Fragment α) → List (Assembled α) × Assembler α
  | a, [] => ([], a)
  | a, f :: fs =>
    let (o, a) := a.take f
    let (os, a) := assemble a fs
    (o.toList ++ os, a)

@[simp] theorem assemble_nil (a : Assembler α) : a.assemble [] = ([], a) := rfl

theorem assemble_cons (a : Assembler α) (f : Fragment α) (fs : List (Fragment α)) : a.assemble (f :: fs) =
      ((a.take f).1.toList ++ ((a.take f).2.assemble fs).1, ((a.take f).2.assemble fs).2) := rfl

theorem assemble_append (a : Assembler α) (fs gs : List (Fragment α)) : a.assemble (fs ++ gs) =
      ((a.assemble fs).1 ++ ((a.assemble fs).2.assemble gs).1, ((a.assemble fs).2.assemble gs).2) := by
  induction fs generalizing a with
  | nil => simp
  | cons f fs ih => simp [assemble_cons, ih]

end Assembler

/-! ## Whole messages -/

section Whole

variable {first : Bool} {m : List α} {fs gs : List (Fragment α)} {ms : List (List α)} {frs : List (List (Fragment α))}

theorem Carries.ne_nil (h : Carries first m fs) : fs ≠ [] := by
  cases h <;> exact cons_ne_nil _ _

theorem Carries.first_eq (h : Carries first m fs) : ∃ f rest, fs = f :: rest ∧ f.first = first := by
  cases h with
  | last => exact ⟨_, [], rfl, rfl⟩
  | more _ hd h => exact ⟨_, _, rfl, rfl⟩

/-- The rest of a message completes what is pending. -/
theorem Assembler.assemble_rest (h : Carries false m fs) {p : List α} (hp : p ≠ []) :
    Assembler.assemble ⟨p, false⟩ fs = ([.message (p ++ m)], {}) := by
  generalize hb : false = b at h
  induction h generalizing p with
  | last b m =>
    subst hb
    simp [Assembler.assemble_cons, Assembler.take, hp]
  | @more b d m fs hd h ih =>
    subst hb
    have hpd : p ++ d ≠ [] := append_ne_nil_of_left_ne_nil hp d
    have ih := ih hpd rfl
    simp [Assembler.assemble_cons, Assembler.take, hp, ih]

/-- A message is put together when nothing is pending. -/
theorem Assembler.assemble_message (h : Carries true m fs) : Assembler.assemble {} fs = ([.message m], {}) := by
  cases h with
  | last => simp [Assembler.assemble_cons, Assembler.take]
  | @more _ d m fs hd h =>
    have ih := Assembler.assemble_rest h hd
    simp [Assembler.assemble_cons, Assembler.take, ih]

/-- Messages are put together in their order. -/
theorem Assembler.assemble_messages (h : List.Forall₂ (Carries true) ms frs) :
    Assembler.assemble {} frs.flatten = (ms.map .message, {}) := by
  induction h with
  | nil => rfl
  | cons hm _ ih => simp [Assembler.assemble_append, Assembler.assemble_message hm, ih]

/-- Only the first fragment may be marked as the first one. -/
theorem Carries.first_tail (h : Carries first m fs) : ∀ f ∈ fs.tail, f.first = false := by
  induction h with
  | last => simp
  | more _ hd h ih =>
    obtain ⟨f, _, rfl, hf⟩ := h.first_eq
    exact forall_mem_cons.2 ⟨hf, ih⟩

theorem Carries.first_all (h : Carries false m fs) : ∀ f ∈ fs, f.first = false := by
  obtain ⟨f, _, rfl, hf⟩ := h.first_eq
  exact forall_mem_cons.2 ⟨hf, h.first_tail⟩

/-- Fragments whose beginning was not seen are passed over. -/
theorem Assembler.assemble_passed (h : ∀ f ∈ fs, f.first = false) : Assembler.assemble {} fs = ([], {}) := by
  induction fs with
  | nil => rfl
  | cons f fs ih =>
    obtain ⟨hf, hfs⟩ := forall_mem_cons.1 h
    simp [Assembler.assemble_cons, Assembler.take, hf, ih hfs]

theorem Assembler.assemble_stray (h : Carries false m fs) : Assembler.assemble {} fs = ([], {}) :=
  Assembler.assemble_passed h.first_all

/-- A message that is skipped, whole or from its middle on. -/
theorem Assembler.assemble_skipped (h : Carries first m fs) (p : List α) :
    Assembler.assemble ⟨p, true⟩ fs = ([], ⟨p, false⟩) := by
  induction h with
  | last => simp [Assembler.assemble_cons, Assembler.take]
  | more b hd h ih => simp [Assembler.assemble_cons, Assembler.take, ih]

/-- A message that comes while another one is pending is lost, of which some fragments have come at least. -/
theorem Assembler.assemble_lost (h : Carries true m (fs ++ gs)) (hfs : fs ≠ []) {p : List α} (hp : p ≠ []) :
    Assembler.assemble ⟨p, false⟩ fs = ([.unfinished], {}) := by
  cases fs with
  | nil => exact absurd rfl hfs
  | cons f fs =>
    obtain ⟨f', _, heq, hf⟩ := h.first_eq
    obtain rfl : f = f' := (List.cons.inj heq).1
    have hrest : ∀ g ∈ fs, g.first = false := fun g hg => h.first_tail g (mem_append_left _ hg)
    simp [Assembler.assemble_cons, Assembler.take, hp, hf, Assembler.assemble_passed hrest]

end Whole

/-! ## Parts of messages -/

section Parts

variable {first : Bool} {m : List α} {fs : List (Fragment α)} {ms : List (List α)} {frs : List (List (Fragment α))}

/-- A beginning of a message that is not the whole of it, as the assembler has it. -/
theorem Assembler.assemble_begun (h : Carries true m fs) {begun rest : List (Fragment α)}
    (hfs : fs = begun ++ rest) (hbegun : begun ≠ []) (hrest : rest ≠ []) :
    ∃ p, p ≠ [] ∧ Assembler.assemble {} begun = ([], ⟨p, false⟩) := by
  have hgrow : ∀ {m : List α} {fs begun : List (Fragment α)} {p : List α}, Carries false m fs → p ≠ [] →
      fs = begun ++ rest → ∃ q, q ≠ [] ∧ Assembler.assemble ⟨p, false⟩ begun = ([], ⟨q, false⟩) := by
    intro m fs begun p hfs hp heq
    generalize hb : false = b at hfs
    induction hfs generalizing begun p with
    | last b m =>
      -- A single fragment has no beginning before its end.
      cases begun with
      | nil => exact ⟨p, hp, by rfl⟩
      | cons f begun => simp [hrest] at heq
    | @more b d m fs hd h ih =>
      subst hb
      cases begun with
      | nil => exact ⟨p, hp, by rfl⟩
      | cons f begun =>
        rw [cons_append, List.cons.injEq] at heq
        obtain ⟨rfl, heq⟩ := heq
        obtain ⟨q, hq, hread⟩ := ih (append_ne_nil_of_left_ne_nil hp d) heq rfl
        exact ⟨q, hq, by simp [Assembler.assemble_cons, Assembler.take, hp, hread]⟩
  cases h with
  | last => cases begun with
    | nil => exact absurd rfl hbegun
    | cons f begun => simp [hrest] at hfs
  | @more _ d m fs hd h => cases begun with
    | nil => exact absurd rfl hbegun
    | cons f begun =>
      rw [cons_append, List.cons.injEq] at hfs
      obtain ⟨rfl, hfs⟩ := hfs
      obtain ⟨q, hq, hread⟩ := hgrow h hd hfs
      exact ⟨q, hq, by simp [Assembler.assemble_cons, Assembler.take, hread]⟩

/-- What is left of a message behind one of its fragments carries the rest of its data. -/
theorem Carries.rest (h : Carries first m fs) {begun rest : List (Fragment α)} (hfs : fs = begun ++ rest)
    (hbegun : begun ≠ []) (hrest : rest ≠ []) : ∃ m', Carries false m' rest := by
  induction h generalizing begun with
  | last first m =>
    cases begun with
    | nil => exact absurd rfl hbegun
    | cons f begun => simp [hrest] at hfs
  | @more first d m fs hd h ih =>
    cases begun with
    | nil => exact absurd rfl hbegun
    | cons f begun =>
      rw [cons_append, List.cons.injEq] at hfs
      cases begun with
      | nil =>
        rw [nil_append] at hfs
        exact ⟨m, hfs.2 ▸ h⟩
      | cons g begun => exact ih hfs.2 (cons_ne_nil _ _)

/-- What a beginning of the fragments gives is a beginning of what they give. -/
theorem Assembler.assemble_append_fst (a : Assembler α) (fs gs : List (Fragment α)) :
    (a.assemble fs).1 <+: (a.assemble (fs ++ gs)).1 := by
  rw [Assembler.assemble_append]
  exact prefix_append _ _

end Parts

/-! ## What is delivered -/

/-- The messages among what an assembler gives. -/
def messages (os : List (Assembled α)) : List (List α) :=
  os.filterMap fun
    | .message m => some m
    | .unfinished => none

@[simp] theorem messages_nil : messages ([] : List (Assembled α)) = [] := rfl

@[simp] theorem messages_append (os os' : List (Assembled α)) : messages (os ++ os') = messages os ++ messages os' :=
  filterMap_append

@[simp] theorem messages_map (ms : List (List α)) : messages (ms.map Assembled.message) = ms := by
  simp [messages, filterMap_map]

theorem messages_of_prefix {os os' : List (Assembled α)} (h : os <+: os') (hnone : messages os' = []) :
    messages os = [] := by
  obtain ⟨t, rfl⟩ := h
  exact (append_eq_nil_iff.1 ((messages_append os t).symm.trans hnone)).1

/-- The beginning of a message, which may have nothing yet but is not the whole. -/
def Opened (fs : List (Fragment α)) : Prop := ∃ m rest, rest ≠ [] ∧ Carries true m (fs ++ rest)

/-- The end of a message whose first fragment is missing, or nothing. -/
def Stray (fs : List (Fragment α)) : Prop := fs = [] ∨ ∃ m, Carries false m fs

section Delivered

variable {ms : List (List α)} {frs : List (List (Fragment α))} {opened stray : List (Fragment α)} {p : List α}

theorem opened_nil : Opened ([] : List (Fragment α)) := ⟨[], _, cons_ne_nil _ _, .last true []⟩

/-- Nothing is delivered of a message that is not complete. -/
theorem Assembler.messages_opened (h : Opened opened) : messages (Assembler.assemble {} opened).1 = [] := by
  obtain ⟨m, _, hrest, hm⟩ := h
  by_cases hnil : opened = []
  · rw [hnil]
    rfl
  · obtain ⟨p, -, hbegun⟩ := Assembler.assemble_begun hm rfl hnil hrest
    rw [hbegun]
    rfl

theorem Assembler.messages_opened_lost (h : Opened opened) (hp : p ≠ []) :
    messages (Assembler.assemble ⟨p, false⟩ opened).1 = [] := by
  obtain ⟨m, _, -, hm⟩ := h
  by_cases hnil : opened = []
  · rw [hnil]
    rfl
  · rw [Assembler.assemble_lost hm hnil hp]
    rfl

/-- From a clean start whole messages are delivered. -/
theorem Assembler.messages_whole (h : List.Forall₂ (Carries true) ms frs) (hopened : Opened opened) :
    messages (Assembler.assemble {} (frs.flatten ++ opened)).1 = ms := by
  rw [Assembler.assemble_append, Assembler.assemble_messages h, messages_append, messages_map,
    Assembler.messages_opened hopened, append_nil]

/-- A message that is pending costs the next one. -/
theorem Assembler.messages_lost (h : List.Forall₂ (Carries true) ms frs) (hopened : Opened opened) (hp : p ≠ []) :
    messages (Assembler.assemble ⟨p, false⟩ (frs.flatten ++ opened)).1 = ms.drop 1 := by
  cases h with
  | nil => exact Assembler.messages_opened_lost hopened hp
  | @cons m fr ms frs hm h =>
    have hlost := Assembler.assemble_lost (fr.append_nil.symm ▸ hm) hm.ne_nil hp
    rw [flatten_cons, append_assoc, Assembler.assemble_append, hlost, messages_append,
      Assembler.messages_whole h hopened]
    rfl

/-- A stray end does no harm where nothing is pending. -/
theorem Assembler.messages_stray (hstray : Stray stray) (h : List.Forall₂ (Carries true) ms frs)
    (hopened : Opened opened) :
    messages (Assembler.assemble {} (stray ++ (frs.flatten ++ opened))).1 = ms := by
  rcases hstray with rfl | ⟨m, hm⟩
  · exact Assembler.messages_whole h hopened
  · rw [Assembler.assemble_append, Assembler.assemble_stray hm]
    exact Assembler.messages_whole h hopened

/-- A message that is pending and skipped costs a whole one at least, if there is one. -/
theorem Assembler.messages_skipped (hstray : Stray stray) (h : List.Forall₂ (Carries true) ms frs)
    (hopened : Opened opened) (hp : p ≠ []) :
    ∃ n, messages (Assembler.assemble ⟨p, true⟩ (stray ++ (frs.flatten ++ opened))).1 = ms.drop (n + 1) := by
  rcases hstray with rfl | ⟨m, hm⟩
  · cases h with
    | nil =>
      obtain ⟨m, rest, -, hm⟩ := hopened
      refine ⟨0, messages_of_prefix (Assembler.assemble_append_fst ⟨p, true⟩ opened rest) ?_⟩
      rw [Assembler.assemble_skipped hm]
      rfl
    | @cons m fr ms frs hm h =>
      refine ⟨1, ?_⟩
      rw [nil_append, flatten_cons, append_assoc, Assembler.assemble_append,
        Assembler.assemble_skipped hm, messages_append, Assembler.messages_lost h hopened hp]
      rfl
  · refine ⟨0, ?_⟩
    rw [Assembler.assemble_append, Assembler.assemble_skipped hm, messages_append,
      Assembler.messages_lost h hopened hp]
    rfl

/-- Nothing is delivered of the middle of a message. -/
theorem Assembler.messages_middle {m : List α} {mid rest : List (Fragment α)} (h : Carries false m (mid ++ rest)) :
    messages (Assembler.assemble {} mid).1 = [] ∧ messages (Assembler.assemble ⟨p, true⟩ mid).1 = [] := by
  constructor
  · rw [Assembler.assemble_passed fun f hf => h.first_all f (mem_append_left _ hf)]
    rfl
  · refine messages_of_prefix (Assembler.assemble_append_fst ⟨p, true⟩ mid rest) ?_
    rw [Assembler.assemble_skipped h]
    rfl

end Delivered

/-! ## Fragment by fragment -/

/-- The fragments complete a message, the last of them and none before. -/
inductive Completes : Assembler α → List α → List (Fragment α) → Prop where
  | last {a a' : Assembler α} {m : List α} {f : Fragment α} (h : a.take f = (some (.message m), a')) (ha : a' = {}) :
      Completes a m [f]
  | more {a a' : Assembler α} {m : List α} {f : Fragment α} {fs : List (Fragment α)} (h : a.take f = (none, a'))
      (hrest : Completes a' m fs) : Completes a m (f :: fs)

/-- The number of fragments that end a message. -/
def ends (fs : List (Fragment α)) : Nat := fs.countP fun f => !f.cont

section Completed

variable {first : Bool} {m : List α} {fs gs : List (Fragment α)} {a : Assembler α}

theorem Carries.completes_rest (h : Carries false m fs) {p : List α} (hp : p ≠ []) :
    Completes ⟨p, false⟩ (p ++ m) fs := by
  generalize hb : false = b at h
  induction h generalizing p with
  | last b m =>
    subst hb
    exact .last (by simp [Assembler.take, hp]) rfl
  | @more b d m fs hd h ih =>
    subst hb
    have hrest := ih (append_ne_nil_of_left_ne_nil hp d) rfl
    rw [append_assoc] at hrest
    exact .more (by simp [Assembler.take, hp]) hrest

theorem Carries.completes (h : Carries true m fs) : Completes {} m fs := by
  cases h with
  | last => exact .last (by simp [Assembler.take]) rfl
  | @more _ d m fs hd h => exact .more (by simp [Assembler.take]) (h.completes_rest hd)

/-- The first fragments do not complete the message. -/
theorem Completes.split (h : Completes a m (fs ++ gs)) (hgs : gs ≠ []) :
    ∃ a', Completes a' m gs ∧ a.assemble fs = ([], a') := by
  induction fs generalizing a with
  | nil => exact ⟨a, h, rfl⟩
  | cons f fs ih =>
    rw [cons_append] at h
    generalize hl : fs ++ gs = l at h
    cases h with
    | last => exact absurd hl (by simp [hgs])
    | more htake hrest =>
      subst hl
      obtain ⟨a', ha', hassemble⟩ := ih hrest
      exact ⟨a', ha', by rw [Assembler.assemble_cons, htake, hassemble]; rfl⟩

@[simp] theorem ends_append (fs gs : List (Fragment α)) : ends (fs ++ gs) = ends fs + ends gs := countP_append

theorem Carries.ends_eq (h : Carries first m fs) : ends fs = 1 := by
  induction h with
  | last => rfl
  | more _ hd h ih =>
    rw [← ih]
    exact countP_cons_of_neg (by simp)

theorem ends_flatten {ms : List (List α)} {frs : List (List (Fragment α))} (h : List.Forall₂ (Carries true) ms frs) :
    ends frs.flatten = frs.length := by
  induction h with
  | nil => rfl
  | cons hm _ ih =>
    rw [flatten_cons, ends_append, hm.ends_eq, ih, length_cons, Nat.add_comm]

end Completed

end Whispercast.Library
