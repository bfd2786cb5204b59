import Whispercast.Library.Session

/-!
# Receivers that go on where they stopped

A receiver may take symbols off the buffer before a message is complete and keep what they say in its state. It goes
on where it stopped when a later call, on what is left and more symbols, does what it would have done on all symbols
at once (`Resumable.part`). Then a session delivers the messages of a stream wherever the stream is cut
(`Resumable.session_eq`). A message may be one that cannot be resumed everywhere: `Safe` tells where it can.
-/

namespace Whispercast.Library

open List

namespace Session

variable {σ β α ε ω : Type}

/-- The receiver reads messages `w` from their encodings: `P` holds of its state between two messages. -/
structure Resumable (recv : σ → List β → Outcome σ β α ε) (P : σ → Prop) (enc : ω → List β) (back : ω → α)
    (Good : ω → Prop) (Safe : ω → List β → Prop) : Prop where
  idle : ∀ s, P s → recv s [] = .more s []
  pos : ∀ w, Good w → enc w ≠ []
  whole : ∀ w, Good w → ∀ s, P s → ∀ y, ∃ s', P s' ∧ recv s (enc w ++ y) = .out (back w) s' y
  part : ∀ w, Good w → ∀ s, P s → ∀ p q, p ++ q = enc w → p ≠ [] → q ≠ [] → Safe w p →
    ∃ s' r, recv s p = .more s' r ∧ ∀ y, recv s' (r ++ y) = recv s (p ++ y)

/-- No cut of the stream is where its message cannot be resumed. -/
def Cuts (enc : ω → List β) (Safe : ω → List β → Prop) (front : List β) (ps : List (List β)) (ws : List ω) : Prop :=
  ∀ qs rs, ps = qs ++ rs → ∀ here w there p q, ws = here ++ w :: there →
    front ++ qs.flatten = here.flatMap enc ++ p → p ++ q = enc w → p ≠ [] → q ≠ [] → Safe w p

/-- Between two calls: the receiver has `p`, a front of the next message, and will go on as if it had not looked at it. -/
structure Pending (recv : σ → List β → Outcome σ β α ε) (P : σ → Prop) (enc : ω → List β) (ws : List ω) (p : List β)
    (s : σ) (r : List β) : Prop where
  front : p = [] ∨ ∃ w rest q, ws = w :: rest ∧ p ++ q = enc w ∧ q ≠ []
  nil : p = [] → P s ∧ r = []
  resumes : ∃ s₀, P s₀ ∧ ∀ y, recv s (r ++ y) = recv s₀ (p ++ y)

theorem pending_idle {recv : σ → List β → Outcome σ β α ε} {P : σ → Prop} {s : σ} (hs : P s) (enc : ω → List β)
    (ws : List ω) : Pending recv P enc ws [] s [] :=
  ⟨Or.inl rfl, fun _ => ⟨hs, rfl⟩, s, hs, fun _ => rfl⟩

namespace Resumable

variable {recv : σ → List β → Outcome σ β α ε} {P : σ → Prop} {enc : ω → List β} {back : ω → α} {Good : ω → Prop}
  {Safe : ω → List β → Prop} (resumable : Resumable recv P enc back Good Safe)

include resumable

variable {ws : List ω}

/-- The messages that have arrived are delivered, and the next one is pending. -/
theorem drain_spec {n : Nat} {s : σ} {b rest : List β} (hs : P s) (hws : ∀ w ∈ ws, Good w)
    (hb : b ++ rest = ws.flatMap enc)
    (hn : ∀ here there p, ws = here ++ there → b = here.flatMap enc ++ p → here.length < n)
    (hcuts : Cuts enc Safe b [] ws) :
    ∃ here there p s' r, ws = here ++ there ∧ b = here.flatMap enc ++ p ∧
      drain recv n s b = ⟨here.map back, s', r, none⟩ ∧ Pending recv P enc there p s' r := by
  induction ws generalizing n s b with
  | nil =>
    have hnil : b = [] := (append_eq_nil_iff.1 hb).1
    obtain ⟨n, rfl⟩ : ∃ m, n = m + 1 := Nat.exists_eq_add_one.2 (hn [] [] b rfl rfl)
    refine ⟨[], [], [], s, [], rfl, hnil, ?_, pending_idle hs enc []⟩
    rw [drain, hnil, resumable.idle s hs]
    rfl
  | cons w ws ih =>
    obtain ⟨n, rfl⟩ : ∃ m, n = m + 1 := Nat.exists_eq_add_one.2 (hn [] _ b rfl rfl)
    have hw := hws w mem_cons_self
    by_cases hall : ∃ more, b = enc w ++ more
    · -- The first message is complete: it is delivered, and the induction is about what is behind it.
      obtain ⟨more, rfl⟩ := hall
      obtain ⟨_, hs₁, hout⟩ := resumable.whole w hw s hs more
      rw [append_assoc] at hb
      have hmore : ∀ here there p, ws = here ++ there → more = here.flatMap enc ++ p → here.length < n := by
        intro here there p hsplit hbytes
        have hlt := hn (w :: here) there p (by rw [hsplit]; rfl)
          (by rw [hbytes, flatMap_cons, append_assoc])
        rw [length_cons] at hlt
        omega
      have hcuts' : Cuts enc Safe more [] ws := by
        intro qs rs hqs here v there p q hsplit hfront
        refine hcuts qs rs hqs (w :: here) v there p q (by rw [hsplit]; rfl) ?_
        rw [append_assoc, hfront, flatMap_cons, append_assoc]
      obtain ⟨here, there, p, s', r, hsplit, hbytes, hdrain, hpending⟩ :=
        ih hs₁ (fun v hv => hws v (mem_cons_of_mem _ hv)) (append_cancel_left hb) hmore hcuts'
      refine ⟨w :: here, there, p, s', r, by rw [hsplit]; rfl, ?_, ?_, hpending⟩
      · rw [hbytes, flatMap_cons, append_assoc]
      · rw [drain, hout]
        dsimp only
        rw [hdrain]
        rfl
    · -- It is not.
      by_cases hempty : b = []
      · refine ⟨[], w :: ws, [], s, [], rfl, hempty, ?_, pending_idle hs enc _⟩
        rw [drain, hempty, resumable.idle s hs]
        rfl
      have hless : ∃ q, q ≠ [] ∧ b ++ q = enc w := by
        rcases append_eq_append_iff.1 hb with ⟨q, henc, _⟩ | ⟨more, hbuffer, -⟩
        · refine ⟨q, ?_, henc.symm⟩
          rintro rfl
          exact hall ⟨[], by rw [append_nil, henc, append_nil]⟩
        · exact absurd ⟨more, hbuffer⟩ hall
      obtain ⟨q, hq, henc⟩ := hless
      have hsafe : Safe w b := hcuts [] [] rfl [] w ws b q rfl (append_nil b) henc hempty hq
      obtain ⟨s', r, hmore, hresume⟩ := resumable.part w hw s hs b q henc hempty hq hsafe
      refine ⟨[], w :: ws, b, s', r, rfl, rfl, ?_, ⟨Or.inr ⟨w, ws, q, rfl, henc, hq⟩, ?_, s, hs, hresume⟩⟩
      · rw [drain, hmore]
        rfl
      · intro hb
        exact absurd hb hempty

theorem length_le_flatMap (hws : ∀ w ∈ ws, Good w) : ws.length ≤ (ws.flatMap enc).length := by
  induction ws with
  | nil => exact Nat.le_refl 0
  | cons w ws ih =>
    have hpos := length_pos_of_ne_nil (resumable.pos w (hws w mem_cons_self))
    have htail := ih fun v hv => hws v (mem_cons_of_mem _ hv)
    rw [flatMap_cons, length_append, length_cons]
    omega

/-- Every message that is completed needs a symbol of the last piece. -/
theorem length_le_piece {p y p' : List β} {here there : List ω} {s : σ} {r : List β}
    (hpending : Pending recv P enc (here ++ there) p s r) (hws : ∀ w ∈ here, Good w)
    (hb : p ++ y = here.flatMap enc ++ p') : here.length ≤ y.length := by
  rcases hpending.front with rfl | ⟨w, _, q, hsplit, hq, hne⟩
  · have hle := resumable.length_le_flatMap hws
    have hlen := congrArg length hb
    rw [nil_append, length_append] at hlen
    omega
  · cases here with
    | nil => exact Nat.zero_le _
    | cons v here =>
      obtain rfl : v = w := (List.cons.inj hsplit).1
      have hle := resumable.length_le_flatMap fun u hu => hws u (mem_cons_of_mem _ hu)
      have hlen := congrArg length hb
      have hpos := length_pos_of_ne_nil hne
      rw [flatMap_cons, ← hq] at hlen
      simp only [length_append, length_cons] at hlen ⊢
      omega

/-- A session delivers what was sent, wherever the stream is cut, and is ready for more. -/
theorem session_spec {s : σ} {r p : List β} {ps : List (List β)}
    (hpending : Pending recv P enc ws p s r) (hws : ∀ w ∈ ws, Good w) (hb : p ++ ps.flatten = ws.flatMap enc)
    (hcuts : Cuts enc Safe p ps ws) : ∃ s', P s' ∧ session recv s r ps = ⟨ws.map back, s', [], none⟩ := by
  induction ps generalizing s r p ws with
  | nil =>
    rw [flatten_nil, append_nil] at hb
    have hnil : ws = [] ∧ p = [] := by
      rcases hpending.front with rfl | ⟨w, _, q, rfl, hq, hne⟩
      · refine ⟨?_, rfl⟩
        cases ws with
        | nil => rfl
        | cons w ws =>
          exact absurd (append_eq_nil_iff.1 hb.symm).1 (resumable.pos w (hws w mem_cons_self))
      · exfalso
        have hlen := congrArg length hb
        have hpos := length_pos_of_ne_nil hne
        rw [flatMap_cons, ← hq] at hlen
        simp only [length_append] at hlen
        omega
    obtain ⟨hs, rfl⟩ := hpending.nil hnil.2
    exact ⟨s, hs, by rw [hnil.1]; rfl⟩
  | cons y ps ih =>
    rw [flatten_cons, ← append_assoc] at hb
    obtain ⟨s₀, hs₀, hresume⟩ := hpending.resumes
    have hcall : ∀ n, drain recv (n + 1) s (r ++ y) = drain recv (n + 1) s₀ (p ++ y) := by
      intro n
      rw [drain, drain, hresume y]
    have hfuel : ∀ here there p', ws = here ++ there → p ++ y = here.flatMap enc ++ p' →
        here.length < (r ++ y).length + 1 := by
      intro here there p' hsplit hbytes
      have hle := resumable.length_le_piece (hsplit ▸ hpending)
        (fun w hw => hws w (hsplit ▸ mem_append_left _ hw)) hbytes
      rw [length_append]
      omega
    have hfirst : Cuts enc Safe (p ++ y) [] ws := by
      intro qs rs hqs here w there p' q hsplit hfront
      obtain ⟨rfl, rfl⟩ := append_eq_nil_iff.1 hqs.symm
      refine hcuts [y] ps rfl here w there p' q hsplit ?_
      simpa using hfront
    obtain ⟨here, there, p', s', _, hsplit, hbytes, hdrain, hpending'⟩ :=
      resumable.drain_spec hs₀ hws hb hfuel hfirst
    have hbehind : Cuts enc Safe p' ps there := by
      intro qs rs hqs here' w there' p'' q hsplit' hfront
      refine hcuts (y :: qs) rs (by rw [hqs]; rfl) (here ++ here') w there' p'' q ?_ ?_
      · rw [hsplit, hsplit', append_assoc]
      · rw [flatten_cons, ← append_assoc, hbytes, append_assoc, hfront, flatMap_append,
          append_assoc]
    have hrest : p' ++ ps.flatten = there.flatMap enc := by
      rw [hbytes, hsplit, flatMap_append, append_assoc] at hb
      exact append_cancel_left hb
    obtain ⟨s'', hs'', hsession⟩ := ih hpending' (fun w hw => hws w (hsplit ▸ mem_append_right _ hw)) hrest hbehind
    refine ⟨s'', hs'', ?_⟩
    rw [session, hcall, hdrain]
    rw [hsession, hsplit, map_append]

/-- From a state between two messages. -/
theorem session_eq {s : σ} {ps : List (List β)} (hs : P s) (hws : ∀ w ∈ ws, Good w)
    (hb : ps.flatten = ws.flatMap enc) (hcuts : Cuts enc Safe [] ps ws) :
    ∃ s', P s' ∧ session recv s [] ps = ⟨ws.map back, s', [], none⟩ :=
  resumable.session_spec (pending_idle hs enc ws) hws hb hcuts

end Resumable

end Session

end Whispercast.Library
