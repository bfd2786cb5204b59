import Whispercast.Library.StateReader

/-!
# Receiving messages from a stream

A receiver reads messages from its buffer and handles each of them as soon as it is complete. When a message is not
complete the buffer stays as it is, and the reader starts again with more symbols; its own state is the one that the
failed attempt has left. If every message can be read from its encoding (`Messages`), then wherever the stream is cut
the receiver handles the messages that have arrived, in order and once each (`receive_stream`).
-/

namespace Whispercast.Library

open StateReader List

variable {β ε σ α ω τ : Type}

/-- Read and handle messages until the buffer is empty, a message is not complete or cannot be read. The flag tells
whether all went well. -/
def receive [DecidableEq ε] (r : StateReader β ε σ α) (short : ε) (handle : τ → α → τ) : Nat → τ → σ → List β → τ × σ × List β × Bool
  | 0, x, s, l => (x, s, l, true)
  | fuel + 1, x, s, l =>
    if l.isEmpty then (x, s, l, true)
    else match r s l with
      | (.ok a, s', l') => receive r short handle fuel (handle x a) s' l'
      | (.error e, s', l') => if e = short then (x, s', l, true) else (x, s', l', false)

/-- The messages `w` of a kind can be read: the value that `Back` relates to one comes from its encoding, after blanks
and before anything, whose last symbol is not blank. -/
structure Messages (r : StateReader β ε σ α) (short : ε) (blank : β → Prop) (P : σ → Prop) (enc : ω → List β)
    (Good : ω → Prop) (Back : ω → α → Prop) : Prop where
  regular : Regular short P 1 r
  gets : ∀ w, Good w → ∃ a, Back w a ∧ Gets blank (fun _ => True) P r (enc w) a P
  last : ∀ w, Good w → ∃ u c, enc w = u ++ [c] ∧ ¬ blank c
  some : ∃ w, Good w

namespace Messages

variable {r : StateReader β ε σ α} {short : ε} {blank : β → Prop} {P : σ → Prop} {enc : ω → List β}
  {Good : ω → Prop} {Back : ω → α → Prop} (messages : Messages r short blank P enc Good Back)

include messages

section

variable {s : σ} {t : List β} (hs : P s) (ht : Blanks blank t)

include hs ht

/-- Less than a message is too little. -/
theorem short_of_less {p x : List β} {w : ω} (hw : Good w)
    (heq : p ++ x = t ++ enc w) (hx : x ≠ []) : (r s p).1 = .error short := by
  obtain ⟨a, -, hgets⟩ := messages.gets w hw
  obtain ⟨u, c, henc, hc⟩ := messages.last w hw
  obtain ⟨_, _, -, ht', hread⟩ := hgets s t [] hs ht trivial
  rw [append_nil, append_nil, ← heq] at hread
  refine messages.regular.decides.short_of_missing hread ht' fun hblank => hc (hblank c ?_)
  -- What is missing ends with the last symbol of the message.
  have hlast := congrArg getLast? heq
  rw [henc, ← append_assoc, getLast?_concat, getLast?_append_of_ne_nil _ hx] at hlast
  exact mem_of_getLast? hlast

theorem short_of_blanks : (r s t).1 = .error short := by
  obtain ⟨w, hw⟩ := messages.some
  refine messages.short_of_less (x := enc w) hs ht hw rfl ?_
  obtain ⟨u, c, henc, -⟩ := messages.last w hw
  rw [henc]
  exact concat_ne_nil c u

/-- When all that is on its way has arrived and the next message is not complete, there is no next message. -/
theorem eq_nil_of_short {buffer : List β} {ws : List ω}
    (hws : ∀ w ∈ ws, Good w) (heq : buffer = t ++ ws.flatMap enc) (hshort : (r s buffer).1 = .error short) :
    ws = [] := by
  cases ws with
  | nil => rfl
  | cons w ws =>
    obtain ⟨a, -, hgets⟩ := messages.gets w (hws w mem_cons_self)
    obtain ⟨_, _, -, -, hread⟩ := hgets s t (ws.flatMap enc) hs ht trivial
    rw [flatMap_cons] at heq
    rw [heq, hread] at hshort
    cases hshort

end

variable [DecidableEq ε]

/-- A receiver stops where nothing is complete. -/
theorem receive_short (handle : τ → α → τ) (fuel : Nat) (x : τ) {s : σ} {l : List β} (hs : P s)
    (hl : (r s l).1 = .error short) : ∃ s', P s' ∧ receive r short handle fuel x s l = (x, s', l, true) := by
  cases fuel with
  | zero => exact ⟨s, hs, rfl⟩
  | succ fuel =>
    rw [receive]
    split_ifs with hempty
    · exact ⟨s, hs, rfl⟩
    · refine ⟨(r s l).2.1, messages.regular.keeps s l hs, ?_⟩
      rcases hread : r s l with ⟨y, s', _⟩
      rw [hread] at hl
      cases hl
      dsimp only
      rw [if_pos rfl]

/-- The messages that have arrived are handled, and the next one has not arrived yet. -/
theorem receive_stream (handle : τ → α → τ) {fuel : Nat} {x : τ} {s : σ} {t buffer rest : List β} {ws : List ω}
    (hs : P s) (ht : Blanks blank t) (hws : ∀ w ∈ ws, Good w) (hfuel : buffer.length ≤ fuel)
    (heq : buffer ++ rest = t ++ ws.flatMap enc) :
    ∃ here there values s' t' buffer', ws = here ++ there ∧ List.Forall₂ Back here values ∧ P s' ∧ Blanks blank t' ∧
      receive r short handle fuel x s buffer = (values.foldl handle x, s', buffer', true) ∧
      buffer' ++ rest = t' ++ there.flatMap enc ∧ (r s' buffer').1 = .error short := by
  induction ws generalizing fuel x s t buffer with
  | nil =>
    -- Only blanks are left.
    rw [flatMap_nil, append_nil] at heq
    have hblank : Blanks blank buffer := fun c hc => ht c (heq ▸ mem_append_left rest hc)
    obtain ⟨s', hs', hreceive⟩ := messages.receive_short handle fuel x hs
      (messages.short_of_blanks hs hblank)
    exact ⟨[], [], [], s', t, buffer, rfl, .nil, hs', ht, hreceive,
      by rw [heq, flatMap_nil, append_nil], messages.short_of_blanks hs' hblank⟩
  | cons w ws ih =>
    have hw := hws w mem_cons_self
    rw [flatMap_cons, ← append_assoc] at heq
    by_cases hall : ∃ more, buffer = t ++ (enc w ++ more) ∧ more ++ rest = ws.flatMap enc
    · -- The first message is complete: it is handled, and the induction is about what is behind it.
      obtain ⟨more, hbuffer, hmore⟩ := hall
      obtain ⟨a, ha, hgets⟩ := messages.gets w hw
      obtain ⟨s', t', hs', ht', hread⟩ := hgets s t more hs ht trivial
      rw [← hbuffer] at hread
      have htakes := messages.regular.takes s buffer a s' (t' ++ more) hread
      obtain ⟨fuel, rfl⟩ : ∃ n, fuel = n + 1 := ⟨fuel - 1, by omega⟩
      have hempty : ¬ buffer.isEmpty = true := by
        intro hempty
        rw [isEmpty_iff.1 hempty] at htakes
        exact absurd htakes (Nat.not_succ_le_zero _)
      have hlength : (t' ++ more).length ≤ fuel := by omega
      have hstream : (t' ++ more) ++ rest = t' ++ ws.flatMap enc := by rw [append_assoc, hmore]
      obtain ⟨here, there, values, s'', t'', buffer', rfl, hback, hs'', ht'', hreceive, hrest, hshort⟩ :=
        ih (x := handle x a) hs' ht' (fun v hv => hws v (mem_cons_of_mem _ hv)) hlength hstream
      refine ⟨w :: here, there, a :: values, s'', t'', buffer', rfl, .cons ha hback, hs'', ht'', ?_, hrest, hshort⟩
      rw [receive, if_neg hempty, hread, foldl_cons]
      exact hreceive
    · -- It is not.
      have hless : ∃ x', x' ≠ [] ∧ buffer ++ x' = t ++ enc w := by
        rcases append_eq_append_iff.1 heq with ⟨x', henc, hrest⟩ | ⟨more, hbuffer, hrest⟩
        · refine ⟨x', ?_, henc.symm⟩
          rintro rfl
          exact hall ⟨[], by rw [append_nil, henc, append_nil], by rw [hrest, nil_append, nil_append]⟩
        · exact absurd ⟨more, by rw [hbuffer, append_assoc], hrest.symm⟩ hall
      obtain ⟨x', hx', henc⟩ := hless
      obtain ⟨s', hs', hreceive⟩ := messages.receive_short handle fuel x hs
        (messages.short_of_less hs ht hw henc hx')
      refine ⟨[], w :: ws, [], s', t, buffer, rfl, .nil, hs', ht, hreceive, ?_,
        messages.short_of_less hs' ht hw henc hx'⟩
      rw [heq, flatMap_cons, append_assoc]

end Messages

end Whispercast.Library
