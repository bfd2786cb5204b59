import Mathlib.Data.List.Basic
import Mathlib.Order.Basic

/-!
# Receiving a stream in pieces

A receiver has a state and a buffer of symbols. Called on the buffer, it delivers a value, asks for more
symbols, or fails. A session appends the incoming pieces to the buffer and calls the receiver after each
of them until it asks for more.

What is sent is a sequence of frames. A frame is taken from the head of the buffer as soon as the buffer
has a certain number of symbols, which may be more than the frame itself has, and it may or may not
complete a value. If every call behaves like that (`Delivers`), then so does every session, wherever the
stream is cut: it delivers the values of the frames it has taken, and the next frame is still waiting for
symbols.
-/

namespace Whispercast.Library

open List

universe u v

/-- A part of a stream that the receiver takes as a whole. -/
structure Frame (β α : Type) where
  /-- The symbols of the frame. -/
  bytes : List β
  /-- The number of symbols the receiver waits for before it takes the frame. -/
  wants : Nat
  /-- The value that the frame completes. -/
  out : Option α
  /-- A frame is not empty. -/
  pos : 0 < bytes.length
  /-- The receiver waits for the whole frame at least. -/
  le_wants : bytes.length ≤ wants

/-- What a call of the receiver ends with. -/
inductive Outcome (σ β α ε : Type) where
  /-- A value, the next state and the rest of the buffer. -/
  | out (a : α) (s : σ) (rest : List β)
  /-- More symbols are needed. -/
  | more (s : σ) (rest : List β)
  /-- An error, and what it leaves. -/
  | fail (e : ε) (s : σ) (rest : List β)

/-- The state that a call leaves, and its error. -/
def Outcome.ends {σ β α ε : Type} : Outcome σ β α ε → σ × Option ε
  | .out _ s _ | .more s _ => (s, none)
  | .fail e s _ => (s, some e)

namespace Session

variable {σ β α ε : Type}

/-- The symbols of a sequence of frames. -/
def bytesOf (fs : List (Frame β α)) : List β := fs.flatMap Frame.bytes

/-- The values that a sequence of frames completes. -/
def outsOf (fs : List (Frame β α)) : List α := fs.filterMap Frame.out

@[simp] theorem bytesOf_nil : bytesOf ([] : List (Frame β α)) = [] := rfl

@[simp] theorem bytesOf_cons (f : Frame β α) (fs : List (Frame β α)) : bytesOf (f :: fs) = f.bytes ++ bytesOf fs := rfl

variable (fs : List (Frame β α))

@[simp] theorem bytesOf_append (gs : List (Frame β α)) : bytesOf (fs ++ gs) = bytesOf fs ++ bytesOf gs :=
  flatMap_append

@[simp] theorem outsOf_append (gs : List (Frame β α)) : outsOf (fs ++ gs) = outsOf fs ++ outsOf gs :=
  filterMap_append

theorem bytesOf_length_pos {fs : List (Frame β α)} (h : fs ≠ []) : 0 < (bytesOf fs).length := by
  cases fs with
  | nil => exact absurd rfl h
  | cons f fs =>
    rw [bytesOf_cons, length_append]
    exact Nat.lt_of_lt_of_le f.pos (Nat.le_add_right _ _)

/-- The first frame is not there yet as far as the receiver wants it. -/
def Waiting (fs : List (Frame β α)) (buffer : List β) : Prop :=
  match fs with
  | [] => buffer = []
  | f :: _ => buffer.length < f.wants

/-- A receiver that is given nothing is waiting. -/
theorem waiting_nil : Waiting fs [] := by
  cases fs with
  | nil => rfl
  | cons f fs => exact Nat.lt_of_lt_of_le f.pos f.le_wants

/-- With `n` symbols there, each of the frames has as many as the receiver wants when its turn comes. -/
def Available : Nat → List (Frame β α) → Prop
  | _, [] => True
  | n, f :: fs => f.wants ≤ n ∧ Available (n - f.bytes.length) fs

theorem Available.mono {m n : Nat} {fs : List (Frame β α)} (h : Available m fs) (hmn : m ≤ n) : Available n fs := by
  induction fs generalizing m n with
  | nil => trivial
  | cons f fs ih => exact ⟨Nat.le_trans h.1 hmn, ih h.2 (Nat.sub_le_sub_right hmn _)⟩

theorem available_append {n : Nat} {fs gs : List (Frame β α)} :
    Available n (fs ++ gs) ↔ Available n fs ∧ Available (n - (bytesOf fs).length) gs := by
  induction fs generalizing n with
  | nil => exact ⟨fun h => ⟨trivial, h⟩, fun h => h.2⟩
  | cons f fs ih =>
    have hsub : n - (bytesOf (f :: fs)).length = n - f.bytes.length - (bytesOf fs).length := by
      rw [bytesOf_cons, length_append, Nat.sub_add_eq]
    rw [hsub]
    constructor
    · intro h
      exact ⟨⟨h.1, (ih.1 h.2).1⟩, (ih.1 h.2).2⟩
    · intro h
      exact ⟨h.1.1, ih.2 ⟨h.1.2, h.2⟩⟩

/-! ## Frames in sequence -/

section Chain

variable {φ : Type} (A : σ → φ → σ → Prop)

/-- The elements of a list take a state to another one. -/
inductive Chain : σ → List φ → σ → Prop where
  | nil (s : σ) : Chain s [] s
  | cons {s s' t : σ} {f : φ} {fs : List φ} (hf : A s f s') (hfs : Chain s' fs t) : Chain s (f :: fs) t

variable {A}

variable {s t : σ} {fs : List φ}

theorem Chain.append {s' : σ} {gs : List φ} (hf : Chain A s fs s') (hg : Chain A s' gs t) :
    Chain A s (fs ++ gs) t := by
  induction hf with
  | nil s => exact hg
  | cons hf _ ih => exact .cons hf (ih hg)

theorem Chain.mono {B : σ → φ → σ → Prop} (h : Chain A s fs t)
    (hAB : ∀ s f s', A s f s' → B s f s') : Chain B s fs t := by
  induction h with
  | nil s => exact .nil s
  | cons hf _ ih => exact .cons (hAB _ _ _ hf) ih

/-- Steps with one outcome each have one outcome together. -/
theorem Chain.unique (hA : ∀ s f s' s'', A s f s' → A s f s'' → s' = s'') {t' : σ}
    (h : Chain A s fs t) (h' : Chain A s fs t') : t = t' := by
  induction h with
  | nil s => cases h'; rfl
  | cons hf _ ih =>
    cases h' with
    | cons hf' hfs' =>
      obtain rfl := hA _ _ _ _ hf hf'
      exact ih hfs'

theorem Chain.nil_inv (h : Chain A s [] t) : s = t := by
  cases h
  rfl

theorem Chain.cons_inv {f : φ} (h : Chain A s (f :: fs) t) : ∃ s', A s f s' ∧ Chain A s' fs t := by
  cases h with
  | cons hf hfs => exact ⟨_, hf, hfs⟩

/-- A sequence can be cut anywhere. -/
theorem Chain.split {gs : List φ} (h : Chain A s (fs ++ gs) t) : ∃ s', Chain A s fs s' ∧ Chain A s' gs t := by
  induction fs generalizing s with
  | nil => exact ⟨s, .nil s, h⟩
  | cons f fs ih =>
    obtain ⟨_, hf, hrest⟩ := h.cons_inv
    obtain ⟨s', hfs, hgs⟩ := ih hrest
    exact ⟨s', .cons hf hfs, hgs⟩

theorem Chain.take (h : Chain A s fs t) (n : Nat) : ∃ s', Chain A s (fs.take n) s' := by
  rw [← take_append_drop n fs] at h
  obtain ⟨s', hfs, -⟩ := h.split
  exact ⟨s', hfs⟩

theorem Chain.single {s' : σ} {f : φ} (hf : A s f s') : Chain A s [f] s' := .cons hf (.nil s')

end Chain

/-! ## Calls and sessions -/

/-- What a series of calls ends with: the values, the state, the rest of the buffer, and an error. -/
structure Result (σ β α ε : Type) where
  outs : List α
  state : σ
  rest : List β
  error : Option ε

/-- Call the receiver until it asks for more. -/
def drain (recv : σ → List β → Outcome σ β α ε) : Nat → σ → List β → Result σ β α ε
  | 0, s, b => ⟨[], s, b, none⟩
  | n + 1, s, b =>
    match recv s b with
    | .out a s' rest =>
      let r := drain recv n s' rest
      ⟨a :: r.outs, r.state, r.rest, r.error⟩
    | .more s' rest => ⟨[], s', rest, none⟩
    | .fail e s' rest => ⟨[], s', rest, some e⟩

/-- Append each piece to the buffer and call the receiver until it asks for more. An error ends the
session. Each value takes symbols off the buffer, so the length of the buffer bounds the calls. -/
def session (recv : σ → List β → Outcome σ β α ε) : σ → List β → List (List β) → Result σ β α ε
  | s, b, [] => ⟨[], s, b, none⟩
  | s, b, p :: ps =>
    let r := drain recv ((b ++ p).length + 1) s (b ++ p)
    match r.error with
    | some e => ⟨r.outs, r.state, r.rest, some e⟩
    | none =>
      let q := session recv r.state r.rest ps
      ⟨r.outs ++ q.outs, q.state, q.rest, q.error⟩

section Delivers

variable (A : σ → Frame β α → σ → Prop) (recv : σ → List β → Outcome σ β α ε)

/-- A series of calls on a stream of frames: the frames `done` are taken, since enough symbols were there
for each of them, the frames `todo` are not, and the buffer holds what has come of them. -/
structure Taken (s t : σ) (fs : List (Frame β α)) (b : List β) (done todo : List (Frame β α)) (s' : σ)
    (rest : List β) : Prop where
  split : fs = done ++ todo
  before : Chain A s done s'
  after : Chain A s' todo t
  buffer : b = bytesOf done ++ rest
  available : Available b.length done

/-- A call takes frames until a value is complete, or until the next frame has to wait. -/
def Delivers : Prop :=
  ∀ s t fs b, Chain A s fs t → b <+: bytesOf fs →
    ∃ done todo s' rest, Taken A s t fs b done todo s' rest ∧
      ((outsOf done = [] ∧ Waiting todo rest ∧ recv s b = .more s' rest) ∨
        ∃ a, outsOf done = [a] ∧ recv s b = .out a s' rest)

variable {A recv} {s s' s'' t : σ} {fs done todo done' todo' : List (Frame β α)} {b rest rest' : List β}

theorem Taken.refl (h : Chain A s fs t) : Taken A s t fs b [] fs s b :=
  ⟨rfl, .nil s, h, rfl, trivial⟩

section

variable (h : Taken A s t fs b done todo s' rest)

include h

theorem Taken.trans (h' : Taken A s' t todo rest done' todo' s'' rest') :
    Taken A s t fs b (done ++ done') todo' s'' rest' := by
  refine ⟨?_, h.before.append h'.before, h'.after, ?_, available_append.2 ⟨h.available, ?_⟩⟩
  · rw [append_assoc, ← h'.split]
    exact h.split
  · rw [bytesOf_append, append_assoc, ← h'.buffer]
    exact h.buffer
  · have hlen : b.length - (bytesOf done).length = rest.length := by
      rw [h.buffer, length_append, Nat.add_sub_cancel_left]
    rw [hlen]
    exact h'.available

/-- More symbols come in behind the buffer. -/
theorem Taken.feed (p : List β) : Taken A s t fs (b ++ p) done todo s' (rest ++ p) := by
  refine ⟨h.split, h.before, h.after, ?_, h.available.mono ?_⟩
  · rw [h.buffer, append_assoc]
  · rw [length_append]
    exact Nat.le_add_right _ _

/-- The buffer is an initial part of the frames that are left. -/
theorem Taken.rest_prefix (hb : b <+: bytesOf fs) : rest <+: bytesOf todo := by
  rw [h.split, h.buffer, bytesOf_append] at hb
  exact (prefix_append_right_inj _).1 hb

end

section

variable (hrecv : Delivers A recv) (hchain : Chain A s fs t)

include hrecv hchain

/-- Calling the receiver until it asks for more takes all frames that do not have to wait. -/
theorem drain_spec {n : Nat} (hb : b <+: bytesOf fs)
    (hn : b.length < n) : ∃ done todo s' rest, Taken A s t fs b done todo s' rest ∧ Waiting todo rest ∧
      drain recv n s b = ⟨outsOf done, s', rest, none⟩ := by
  induction n generalizing s fs b with
  | zero => exact absurd hn (Nat.not_lt_zero _)
  | succ n ih =>
    rcases hrecv s t fs b hchain hb with ⟨done, todo, s', rest, htaken, hcase⟩
    rcases hcase with ⟨hnone, hwait, hcall⟩ | ⟨a, hsome, hcall⟩
    · refine ⟨done, todo, s', rest, htaken, hwait, ?_⟩
      rw [drain, hcall, hnone]
    · -- A value was delivered, so the buffer is shorter now.
      have hne : done ≠ [] := by
        intro hnil
        rw [hnil] at hsome
        cases hsome
      have hpos := bytesOf_length_pos hne
      have hlen : b.length = (bytesOf done).length + rest.length := by
        rw [htaken.buffer, length_append]
      rcases ih htaken.after (htaken.rest_prefix hb) (by omega) with
        ⟨done', todo', s'', rest', htaken', hwait, hdrain⟩
      refine ⟨done ++ done', todo', s'', rest', htaken.trans htaken', hwait, ?_⟩
      rw [drain, hcall]
      dsimp only
      rw [hdrain, outsOf_append, hsome, singleton_append]

/-- A session delivers the values of the frames it has taken, wherever the stream is cut, and then waits
for the next frame. -/
theorem session_spec {ps : List (List β)} (hb : b ++ ps.flatten <+: bytesOf fs) (hwait : Waiting fs b) :
    ∃ done todo s' rest, Taken A s t fs (b ++ ps.flatten) done todo s' rest ∧ Waiting todo rest ∧
      session recv s b ps = ⟨outsOf done, s', rest, none⟩ := by
  induction ps generalizing s fs b with
  | nil =>
    rw [flatten_nil, append_nil]
    exact ⟨[], fs, s, b, Taken.refl hchain, hwait, rfl⟩
  | cons p ps ih =>
    rw [flatten_cons, ← append_assoc] at hb ⊢
    have hbp : b ++ p <+: bytesOf fs := (prefix_append _ _).trans hb
    rcases drain_spec hrecv hchain hbp (Nat.lt_succ_self _) with
      ⟨done, todo, s', rest, htaken, hwait', hdrain⟩
    have hfed := htaken.feed ps.flatten
    rcases ih htaken.after (hfed.rest_prefix hb) hwait' with
      ⟨done', todo', s'', rest', htaken', hwait'', hsession⟩
    refine ⟨done ++ done', todo', s'', rest', hfed.trans htaken', hwait'', ?_⟩
    rw [session, hdrain]
    rw [hsession, outsOf_append]

/-- When every frame is taken as soon as it is there, all that was sent is delivered. -/
theorem session_complete {ps : List (List β)}
    (hps : ps.flatten = bytesOf fs) (hprompt : ∀ f ∈ fs, f.wants = f.bytes.length) :
    session recv s [] ps = ⟨outsOf fs, t, [], none⟩ := by
  have hb : [] ++ ps.flatten <+: bytesOf fs := by
    exact hps ▸ prefix_rfl
  rcases session_spec hrecv hchain hb (waiting_nil fs) with
    ⟨_, todo, _, rest, htaken, hwait, hsession⟩
  rw [nil_append, hps] at htaken
  have hrest : bytesOf todo = rest := by
    have hbuffer := htaken.buffer
    rw [htaken.split, bytesOf_append] at hbuffer
    exact append_cancel_left hbuffer
  cases todo with
  | nil =>
    have hdone := htaken.split
    rw [append_nil] at hdone
    have hafter := htaken.after
    cases hafter
    rw [hsession, ← hdone, ← hrest, bytesOf_nil]
  | cons f todo =>
    -- The frame is there as a whole, so the receiver does not wait for it.
    have hf : f ∈ fs := by
      rw [htaken.split]
      exact mem_append_right _ mem_cons_self
    have hlt : rest.length < f.wants := hwait
    rw [hprompt f hf, ← hrest, bytesOf_cons, length_append] at hlt
    omega

end

end Delivers

/-! ## Receivers that take one frame after the other -/

/-- A buffer that starts a sequence of frames starts with the first frame or is a part of it. -/
theorem prefix_bytesOf_cons {f : Frame β α} {fs : List (Frame β α)} {b : List β}
    (h : b <+: bytesOf (f :: fs)) : b <+: f.bytes ∨ f.bytes <+: b := by
  exact prefix_or_prefix_of_prefix h (prefix_append _ _)

/-- The frame is at the head of a buffer that is long enough. -/
theorem prefix_of_wants {f : Frame β α} {b : List β} (h : b <+: f.bytes ∨ f.bytes <+: b)
    (hlen : f.wants ≤ b.length) : f.bytes <+: b := by
  rcases h with hb | hf
  · have heq : b = f.bytes := hb.eq_of_length_le (Nat.le_trans f.le_wants hlen)
    exact heq ▸ prefix_rfl
  · exact hf

/-- A call takes one frame and delivers its value, once the buffer has as many symbols as it wants. -/
def TakesOne (recv : σ → List β → Outcome σ β α ε) (s : σ) (f : Frame β α) (s' : σ) : Prop :=
  ∃ a, f.out = some a ∧ ∀ b, b <+: f.bytes ∨ f.bytes <+: b →
    recv s b = if b.length < f.wants then .more s b else .out a s' (b.drop f.bytes.length)

theorem delivers_takesOne {recv : σ → List β → Outcome σ β α ε} (hend : ∀ s, recv s [] = .more s []) :
    Delivers (TakesOne recv) recv := by
  intro s t fs b hchain hb
  cases hchain with
  | nil =>
    have hnil : b = [] := prefix_nil.1 hb
    refine ⟨[], [], _, b, Taken.refl (.nil _), Or.inl ⟨rfl, hnil, ?_⟩⟩
    rw [hnil, hend]
  | @cons _ s' _ f fs hf hfs =>
    have hcompat := prefix_bytesOf_cons hb
    rcases hf with ⟨a, hout, hcall⟩
    have hrecv := hcall b hcompat
    by_cases hlt : b.length < f.wants
    · rw [if_pos hlt] at hrecv
      exact ⟨[], f :: fs, s, b, Taken.refl (.cons ⟨a, hout, hcall⟩ hfs), Or.inl ⟨rfl, hlt, hrecv⟩⟩
    · rw [if_neg hlt] at hrecv
      rcases prefix_of_wants hcompat (Nat.le_of_not_lt hlt) with ⟨rest, hrest⟩
      have hdrop : b.drop f.bytes.length = rest := by rw [← hrest, drop_left]
      rw [hdrop] at hrecv
      refine ⟨[f], fs, s', rest,
        ⟨rfl, .single ⟨a, hout, hcall⟩, hfs, ?_, ⟨Nat.le_of_not_lt hlt, trivial⟩⟩, Or.inr ⟨a, ?_, hrecv⟩⟩
      · rw [bytesOf_cons, bytesOf_nil, append_nil, hrest]
      · rw [outsOf, filterMap_cons_some hout, filterMap_nil]

/-- Repeat a step that takes one frame until a value is complete. -/
def untilOut (step : σ → List β → Outcome σ β (Option α) ε) : Nat → σ → List β → Outcome σ β α ε
  | 0, s, b => .more s b
  | n + 1, s, b =>
    match step s b with
    | .out (some a) s' rest => .out a s' rest
    | .out none s' rest => untilOut step n s' rest
    | .more s' rest => .more s' rest
    | .fail e s' rest => .fail e s' rest

/-- The step takes the frame once the buffer has as many symbols as it wants, whatever they are behind
the frame, and leaves state and buffer alone before. -/
def Steps (step : σ → List β → Outcome σ β (Option α) ε) (s : σ) (f : Frame β α) (s' : σ) : Prop :=
  ∀ b, b <+: f.bytes ∨ f.bytes <+: b →
    step s b = if b.length < f.wants then .more s b else .out f.out s' (b.drop f.bytes.length)

variable {step : σ → List β → Outcome σ β (Option α) ε}

/-- A step that does not go on ends the call. -/
theorem untilOut_of_ne {s : σ} {b : List β} {n : Nat} (h : ∀ s' rest, step s b ≠ .out none s' rest) :
    (untilOut step (n + 1) s b).ends = (step s b).ends := by
  rw [untilOut]
  cases hstep : step s b with
  | out a s' rest =>
    cases a with
    | none => exact absurd hstep (h s' rest)
    | some a => rfl
  | more | fail => rfl

/-- A step over a frame leads to one state: some buffer is long enough to see it. -/
theorem Steps.unique [Inhabited β] (s : σ) (f : Frame β α) (s' s'' : σ) (h' : Steps step s f s')
    (h'' : Steps step s f s'') : s' = s'' := by
  have hlong : ¬ (f.bytes ++ replicate f.wants default).length < f.wants := by
    rw [length_append, length_replicate]
    omega
  have hpre : f.bytes <+: f.bytes ++ replicate f.wants default := prefix_append _ _
  have hcall := (h' _ (Or.inr hpre)).symm.trans (h'' _ (Or.inr hpre))
  rw [if_neg hlong, if_neg hlong] at hcall
  injection hcall

/-- Repeating the step delivers what the frames complete. -/
theorem untilOut_spec {s t : σ} {fs : List (Frame β α)} {b : List β} {n : Nat}
    (hchain : Chain (Steps step) s fs t) (hb : b <+: bytesOf fs) (hend : ∀ s, step s [] = .more s [])
    (hn : b.length < n) :
    ∃ done todo s' rest, Taken (Steps step) s t fs b done todo s' rest ∧
      ((outsOf done = [] ∧ Waiting todo rest ∧ untilOut step n s b = .more s' rest) ∨
        ∃ a, outsOf done = [a] ∧ untilOut step n s b = .out a s' rest) := by
  induction n generalizing s fs b with
  | zero => exact absurd hn (Nat.not_lt_zero _)
  | succ n ih =>
    cases hchain with
    | nil =>
      have hnil : b = [] := prefix_nil.1 hb
      refine ⟨[], [], _, b, Taken.refl (.nil _), Or.inl ⟨rfl, hnil, ?_⟩⟩
      rw [untilOut, hnil, hend]
    | @cons _ s' _ f fs hf hfs =>
      have hcompat := prefix_bytesOf_cons hb
      have hstep := hf b hcompat
      by_cases hlt : b.length < f.wants
      · rw [if_pos hlt] at hstep
        refine ⟨[], f :: fs, s, b, Taken.refl (.cons hf hfs), Or.inl ⟨rfl, hlt, ?_⟩⟩
        rw [untilOut, hstep]
      · rw [if_neg hlt] at hstep
        have hhead := prefix_of_wants hcompat (Nat.le_of_not_lt hlt)
        rcases hhead with ⟨rest, hrest⟩
        have hdrop : b.drop f.bytes.length = rest := by rw [← hrest, drop_left]
        have htaken : Taken (Steps step) s t (f :: fs) b [f] fs s' rest := by
          refine ⟨rfl, .single hf, hfs, ?_, ⟨Nat.le_of_not_lt hlt, trivial⟩⟩
          rw [bytesOf_cons, bytesOf_nil, append_nil, hrest]
        rw [hdrop] at hstep
        cases hout : f.out with
        | some a =>
          rw [hout] at hstep
          refine ⟨[f], fs, s', rest, htaken, Or.inr ⟨a, ?_, ?_⟩⟩
          · rw [outsOf, filterMap_cons_some hout, filterMap_nil]
          · rw [untilOut, hstep]
        | none =>
          rw [hout] at hstep
          have hpos := f.pos
          have hlen : b.length = f.bytes.length + rest.length := by
            rw [← hrest, length_append]
          rcases ih hfs (htaken.rest_prefix hb) (by omega) with
            ⟨done, todo, s'', rest', htaken', hcase⟩
          refine ⟨[f] ++ done, todo, s'', rest', htaken.trans htaken', ?_⟩
          have hsingle : outsOf [f] = [] := by
            rw [outsOf, filterMap_cons_none hout, filterMap_nil]
          have hcall : untilOut step (n + 1) s b = untilOut step n s' rest := by
            rw [untilOut, hstep]
          rw [outsOf_append, hsingle, nil_append, hcall]
          exact hcase

end Session

end Whispercast.Library
