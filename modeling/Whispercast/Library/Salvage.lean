import Whispercast.Library.Fragments

/-!
# Messages from what is left of a stream

Some fragments of a stream of messages never come. An assembler that is told where the stream has a gap gives none but
messages of the stream, each of them once at most and in their order, as long as it does the following: what is pending
at a gap is not completed, and the next fragments are skipped up to the end of a message.
-/

namespace Whispercast.Library

open Assembler List

variable {α : Type}

/-- What is ahead in a stream: the rest of a message or nothing, and then these messages. -/
inductive Ahead : List (Fragment α) → List (List α) → Prop where
  | intro {stray : List (Fragment α)} {ms : List (List α)} {frs : List (List (Fragment α))} (hstray : Stray stray)
      (h : List.Forall₂ (Carries true) ms frs) : Ahead (stray ++ frs.flatten) ms

/-- An assembler that has taken all that is behind, or has passed over it, with what is ahead. -/
inductive Sound : Assembler α → List (Fragment α) → List (List α) → Prop where
  | clean {fs : List (Fragment α)} {ms : List (List α)} (h : Ahead fs ms) : Sound {} fs ms
  | skipping {p : List α} {fs : List (Fragment α)} {ms : List (List α)} (hp : p ≠ []) (h : Ahead fs ms) :
      Sound ⟨p, true⟩ fs ms
  /-- The message that was pending has been skipped. -/
  | leftover {p : List α} {ms : List (List α)} {frs : List (List (Fragment α))} (hp : p ≠ [])
      (h : List.Forall₂ (Carries true) ms frs) : Sound ⟨p, false⟩ frs.flatten ms
  | pending {p m : List α} {rest : List (Fragment α)} {ms : List (List α)} {frs : List (List (Fragment α))} (hp : p ≠ [])
      (hm : Carries false m rest) (h : List.Forall₂ (Carries true) ms frs) :
      Sound ⟨p, false⟩ (rest ++ frs.flatten) ((p ++ m) :: ms)

section

variable {f : Fragment α} {fs gs : List (Fragment α)} {ms : List (List α)} {a : Assembler α} {first : Bool} {m : List α}

theorem ahead_messages {frs : List (List (Fragment α))} (h : List.Forall₂ (Carries true) ms frs) :
    Ahead frs.flatten ms := .intro (.inl rfl) h

/-- A fragment of a message, and what follows it. -/
theorem Carries.cons_inv (h : Carries first m (f :: fs)) :
    f.first = first ∧ (f.cont = false ∧ m = f.data ∧ fs = [] ∨
      f.cont = true ∧ f.data ≠ [] ∧ ∃ m', m = f.data ++ m' ∧ Carries false m' fs) := by
  cases h with
  | last => exact ⟨rfl, .inl ⟨rfl, rfl, rfl⟩⟩
  | more _ hd h => exact ⟨rfl, .inr ⟨rfl, hd, _, rfl, h⟩⟩

/-- The next fragment goes on with a message, of which the rest is still to come or not, or it begins the next one. -/
theorem Ahead.cons_inv (h : Ahead (f :: fs) ms) :
    (f.first = false ∧ Ahead fs ms ∧ (f.cont = false → ∃ frs, List.Forall₂ (Carries true) ms frs ∧ fs = frs.flatten)) ∨
    (f.first = true ∧ ∃ m ms' rest frs, ms = m :: ms' ∧ Carries true m (f :: rest) ∧
      List.Forall₂ (Carries true) ms' frs ∧ fs = rest ++ frs.flatten) := by
  generalize hl : f :: fs = l at h
  obtain ⟨hstray, hms⟩ := h
  rename_i stray frs
  rcases hstray with rfl | ⟨m, hm⟩
  · -- The next fragment begins a message.
    cases hms with
    | nil => cases hl
    | @cons m fr ms frs hm hms =>
      obtain ⟨g, rest, rfl, hg⟩ := hm.first_eq
      obtain ⟨rfl, rfl⟩ := List.cons.inj hl
      exact .inr ⟨hg, m, ms, rest, frs, rfl, hm, hms, rfl⟩
  · obtain ⟨g, rest, rfl, hg⟩ := hm.first_eq
    obtain ⟨rfl, rfl⟩ := List.cons.inj hl
    refine .inl ⟨hg, ?_, ?_⟩
    · rcases hm.cons_inv.2 with ⟨-, -, rfl⟩ | ⟨-, -, m', -, hrest⟩
      · exact ahead_messages hms
      · exact .intro (.inr ⟨m', hrest⟩) hms
    · intro hcont
      rcases hm.cons_inv.2 with ⟨-, -, rfl⟩ | ⟨htrue, -⟩
      · exact ⟨frs, hms, rfl⟩
      · rw [hcont] at htrue
        cases htrue

/-- The rest of a message that has begun, and then the messages behind it. -/
theorem Carries.ahead_tail {rest : List (Fragment α)} {frs : List (List (Fragment α))} (hm : Carries first m (f :: rest))
    (h : List.Forall₂ (Carries true) ms frs) : Ahead (rest ++ frs.flatten) ms := by
  rcases hm.cons_inv.2 with ⟨-, -, rfl⟩ | ⟨-, -, m', -, hrest⟩
  · exact ahead_messages h
  · exact .intro (.inr ⟨m', hrest⟩) h

/-- Fragments that do not come cost the messages of which they are parts. -/
theorem Ahead.drop (h : Ahead (fs ++ gs) ms) : ∃ ms', ms'.Sublist ms ∧ Ahead gs ms' := by
  induction fs generalizing ms with
  | nil => exact ⟨ms, Sublist.refl ms, h⟩
  | cons f fs ih =>
    rw [cons_append] at h
    rcases h.cons_inv with ⟨-, hrest, -⟩ | ⟨-, m, ms', _, _, rfl, hm, hms, hfs⟩
    · exact ih hrest
    · rw [hfs] at ih
      obtain ⟨ms'', hsub, hahead⟩ := ih (hm.ahead_tail hms)
      exact ⟨ms'', hsub.cons m, hahead⟩

namespace Sound

/-- What is ahead, without what is pending. -/
theorem ahead (h : Sound a fs ms) : ∃ ms', ms'.Sublist ms ∧ Ahead fs ms' := by
  cases h with
  | clean h => exact ⟨ms, Sublist.refl ms, h⟩
  | skipping hp h => exact ⟨ms, Sublist.refl ms, h⟩
  | leftover hp h => exact ⟨ms, Sublist.refl ms, ahead_messages h⟩
  | @pending p m rest ms frs hp hm h => exact ⟨ms, sublist_cons_self _ _, .intro (.inr ⟨m, hm⟩) h⟩

theorem skip_eq (h : Sound a fs ms) (hpending : a.pending = []) : a = {} := by
  cases h with
  | clean h => rfl
  | skipping hp h => exact absurd hpending hp
  | leftover hp h => exact absurd hpending hp
  | pending hp hm h => exact absurd hpending hp

/-- A fragment is taken. -/
theorem take (h : Sound a (f :: fs) ms) :
    ∃ ms', Sound (a.take f).2 fs ms' ∧ (messages (a.take f).1.toList ++ ms').Sublist ms := by
  generalize hl : f :: fs = l at h
  cases h with
  | clean h =>
    subst hl
    rcases h.cons_inv with ⟨hf, hrest, -⟩ | ⟨hf, m, ms', rest, frs, rfl, hm, hms, rfl⟩
    · exact ⟨ms, by simpa [Assembler.take, hf] using Sound.clean hrest, by simp [Assembler.take, hf]⟩
    · rcases hm.cons_inv.2 with ⟨hcont, rfl, rfl⟩ | ⟨hcont, hd, m', rfl, hrest⟩
      · refine ⟨ms', ?_, ?_⟩
        · simpa [Assembler.take, hf, hcont] using Sound.clean (ahead_messages hms)
        · simp [Assembler.take, hf, hcont, messages]
      · refine ⟨(f.data ++ m') :: ms', ?_, ?_⟩
        · simpa [Assembler.take, hf, hcont] using Sound.pending hd hrest hms
        · simp [Assembler.take, hf, hcont]
  | @skipping p _ _ hp h =>
    subst hl
    rcases h.cons_inv with ⟨-, hrest, hlast⟩ | ⟨-, m, ms', rest, frs, rfl, hm, hms, rfl⟩
    · refine ⟨ms, ?_, by simp [Assembler.take]⟩
      cases hcont : f.cont with
      | true => simpa [Assembler.take, hcont] using Sound.skipping hp hrest
      | false =>
        obtain ⟨frs, hms, rfl⟩ := hlast hcont
        simpa [Assembler.take, hcont] using Sound.leftover hp hms
    · -- The skip has come upon the beginning of a message, which it passes over.
      refine ⟨ms', ?_, by simp [Assembler.take]⟩
      rcases hm.cons_inv.2 with ⟨hcont, -, rfl⟩ | ⟨hcont, -, m', -, hrest⟩
      · simpa [Assembler.take, hcont] using Sound.leftover hp hms
      · simpa [Assembler.take, hcont] using Sound.skipping hp (.intro (.inr ⟨m', hrest⟩) hms)
  | @leftover p _ frs hp h =>
    have hahead := ahead_messages h
    cases h with
    | nil => cases hl
    | @cons m fr ms' frs hm hms =>
      obtain ⟨g, rest, rfl, hf⟩ := hm.first_eq
      obtain ⟨rfl, rfl⟩ := List.cons.inj hl
      refine ⟨ms', ?_, by simp [Assembler.take, hp, hf, messages]⟩
      simpa [Assembler.take, hp, hf] using Sound.clean (hm.ahead_tail hms)
  | @pending p m rest ms' frs hp hm h =>
    obtain ⟨g, _, rfl, hf⟩ := hm.first_eq
    obtain ⟨rfl, rfl⟩ := List.cons.inj hl
    rcases hm.cons_inv.2 with ⟨hcont, rfl, rfl⟩ | ⟨hcont, hd, m', rfl, hrest⟩
    · refine ⟨ms', ?_, ?_⟩
      · simpa [Assembler.take, hp, hf, hcont] using Sound.clean (ahead_messages h)
      · simp [Assembler.take, hp, hf, hcont, messages]
    · refine ⟨(p ++ (f.data ++ m')) :: ms', ?_, ?_⟩
      · have hmore := Sound.pending (append_ne_nil_of_left_ne_nil hp f.data) hrest h
        simpa [Assembler.take, hp, hf, hcont] using hmore
      · simp [Assembler.take, hp, hf, hcont]

/-- Fragments are taken: what is given now and what will be given later are messages of the stream, in order. -/
theorem assemble (h : Sound a (fs ++ gs) ms) :
    ∃ ms', Sound (a.assemble fs).2 gs ms' ∧ (messages (a.assemble fs).1 ++ ms').Sublist ms := by
  induction fs generalizing a ms with
  | nil => exact ⟨ms, h, by simp⟩
  | cons f fs ih =>
    obtain ⟨_, hsound₁, hsub₁⟩ := h.take
    obtain ⟨ms₂, hsound₂, hsub₂⟩ := ih hsound₁
    refine ⟨ms₂, hsound₂, ?_⟩
    rw [assemble_cons, messages_append, append_assoc]
    exact (hsub₂.append_left _).trans hsub₁

end Sound

end

end Whispercast.Library
