import Whispercast.Util.NormalizePath

/-!
# Normal paths are normal

With its leading separator a path is a list of components, and every loop of `NormalizePath` takes components out of the
list: empty ones, ".", and ".." with the component in front of it. What a loop takes out does not change where the path
leads (`walk`), and what it has taken out does not come back later. So the loops end with a list on which all of them
find nothing.
-/

namespace Whispercast.Util.Strutil

open Library Library.Components Io List

/-- The separator. -/
abbrev slash : UInt8 := 0x2f

/-- ".". -/
abbrev dot : Bytes := [0x2e]

/-- "..". -/
abbrev dotdot : Bytes := [0x2e, 0x2e]

/-! ## Where a path leads -/

/-- The components of a path from left to right, as a stack; `none` where an empty stack is popped. -/
def walk : List Bytes → List Bytes → Option (List Bytes)
  | stack, [] => some stack
  | stack, c :: cs =>
    if c = [] ∨ c = dot then walk stack cs
    else if c = dotdot then
      if stack = [] then none else walk stack.dropLast cs
    else walk (stack ++ [c]) cs

/-- A path without "." and "..", and without empty components but the last one and the first ones: two at most. -/
structure NormalPath (path : Bytes) : Prop where
  dots : ∀ c ∈ components slash path, c ≠ dot ∧ c ≠ dotdot
  empties : ∀ pre rest, components slash path = pre ++ [] :: rest → rest = [] ∨ pre = [] ∨ pre = [[]]

theorem walk_append (stack cs cs' : List Bytes) :
    walk stack (cs ++ cs') = (walk stack cs).bind fun stack => walk stack cs' := by
  induction cs generalizing stack with
  | nil => rfl
  | cons c cs ih =>
    rw [cons_append, walk, walk]
    split_ifs
    · exact ih stack
    · rfl
    · exact ih stack.dropLast
    · exact ih (stack ++ [c])

/-- Empty components and "." lead nowhere. -/
theorem walk_skip {ps : List Bytes} (h : ∀ c ∈ ps, c = [] ∨ c = dot) (stack rest : List Bytes) :
    walk stack (ps ++ rest) = walk stack rest := by
  induction ps with
  | nil => rfl
  | cons c ps ih =>
    rw [cons_append, walk, if_pos (h c mem_cons_self), ih fun c hc => h c (mem_cons_of_mem _ hc)]

theorem walk_dot : ∀ c ∈ [dot], c = [] ∨ c = dot := fun _ hc => Or.inr (mem_singleton.1 hc)

/-- A name and ".." behind it lead back. -/
theorem walk_back {x : Bytes} (hempty : x ≠ []) (hdot : x ≠ dot) (hdotdot : x ≠ dotdot) (stack rest : List Bytes) :
    walk stack (x :: dotdot :: rest) = walk stack rest := by
  have hnot : ¬ (x = [] ∨ x = dot) := fun h => h.elim hempty hdot
  have hne : stack ++ [x] ≠ [] := append_ne_nil_of_right_ne_nil _ (cons_ne_nil _ _)
  rw [walk, if_neg hnot, if_neg hdotdot, walk, if_neg (by decide), if_pos rfl, if_neg hne, dropLast_concat]

variable {cs : List Bytes}

/-- Without ".." every path leads somewhere. -/
theorem walk_isSome (h : dotdot ∉ cs) (stack : List Bytes) : ∃ t, walk stack cs = some t := by
  induction cs generalizing stack with
  | nil => exact ⟨stack, rfl⟩
  | cons c cs ih =>
    rw [mem_cons, not_or] at h
    rw [walk]
    split_ifs with hskip hback
    · exact ih h.2 stack
    · exact absurd hback.symm h.1
    · exact absurd hback.symm h.1
    · exact ih h.2 (stack ++ [c])

/-! ## Components that are taken out -/

section Removed

variable {pre ps rest : List Bytes} {c : Bytes}

theorem removed_dropLast (hrest : rest ≠ []) (h : c ∉ (pre ++ (ps ++ rest)).dropLast) : c ∉ (pre ++ rest).dropLast := by
  rw [← append_assoc, dropLast_append_of_ne_nil hrest] at h
  rw [dropLast_append_of_ne_nil hrest]
  simp only [mem_append, not_or] at h ⊢
  exact ⟨h.1.1, h.2⟩

theorem removed_tail (hps : ps ≠ []) (hrest : rest ≠ []) (h : c ∉ (pre ++ (ps ++ rest)).tail.dropLast) :
    c ∉ (pre ++ rest).tail.dropLast := by
  cases pre with
  | cons p pre => exact removed_dropLast hrest h
  | nil =>
    obtain ⟨p, ps, rfl⟩ := exists_cons_of_ne_nil hps
    obtain ⟨r, rest, rfl⟩ := exists_cons_of_ne_nil hrest
    rw [nil_append, cons_append, tail_cons, dropLast_append_of_ne_nil hrest, mem_append,
      not_or] at h
    intro hmem
    refine h.2 ?_
    cases rest with
    | nil => exact absurd hmem not_mem_nil
    | cons r' rest =>
      rw [dropLast_cons_cons]
      exact mem_cons_of_mem _ hmem

/-- A component that does not occur with others behind it is the last one. -/
theorem not_mem_dropLast {cs : List Bytes} (h : ∀ pre rest, cs = pre ++ ([c] ++ rest) → rest = []) :
    c ∉ cs.dropLast := by
  intro hmem
  rcases eq_nil_or_concat cs with rfl | ⟨_, last, rfl⟩
  · exact absurd hmem not_mem_nil
  · rw [concat_eq_append, dropLast_concat] at hmem
    obtain ⟨pre, rest, rfl⟩ := append_of_mem hmem
    have hnil := h pre (rest ++ [last]) (by simp)
    exact absurd hnil (append_ne_nil_of_right_ne_nil _ (cons_ne_nil _ _))

end Removed

/-! ## The loops -/

theorem free_singleton {c : Bytes} (h : slash ∉ c) : Free slash [c] := by
  intro c' hc'
  rw [mem_singleton.1 hc']
  exact h

/-- How a text is searched behind the components that are skipped. -/
theorem find_nil (pattern : Bytes) (cs : List Bytes) : find pattern 0 (render slash ([] ++ cs)) =
      (findSub pattern (render slash cs)).map (· + (render slash ([] : List Bytes)).length) := rfl

theorem find_tail {pattern first : Bytes} (hfirst : slash ∉ first) (cs : List Bytes) :
    find (slash :: pattern) 1 (render slash ([first] ++ cs)) =
      (findSub (slash :: pattern) (render slash cs)).map (· + (render slash [first]).length) := by
  have hlength : (render slash [first]).length = first.length + 1 := by rw [render_singleton, length_cons]
  rw [hlength, cons_append, nil_append, render, find, drop_one, tail_cons, findSub_append hfirst,
    Option.map_map]
  rfl

/-- What is cut out of a text is components. -/
theorem cut_render (a ps rest : List Bytes) : (render slash (a ++ (ps ++ rest))).take (render slash a).length ++
        (render slash (a ++ (ps ++ rest))).drop ((render slash a).length + (render slash ps).length) =
      render slash (a ++ rest) := by
  rw [render_append, render_append, render_append, take_left, drop_length_add_append, drop_left]

/-- The rule of the loops: what is kept wherever components are taken out holds when they do not occur any more, and
there are enough passes. -/
theorem removeLoop_render {ps skip : List Bytes} {start : Nat} (hps : Free slash ps)
    (hfind : ∀ cs, find (render slash ps ++ [slash]) start (render slash (skip ++ cs)) =
      (findSub (render slash ps ++ [slash]) (render slash cs)).map (· + (render slash skip).length))
    (I : List Bytes → Prop) (hI : ∀ pre rest, rest ≠ [] → I (pre ++ (ps ++ rest)) → I (pre ++ rest))
    (h : I cs) (hcs : Free slash cs) (hne : ps ≠ []) {fuel : Nat} (hfuel : cs.length < fuel) :
    ∃ cs', removeLoop (render slash ps ++ [slash]) start (render slash ps).length fuel (render slash (skip ++ cs)) =
        some (render slash (skip ++ cs')) ∧ I cs' ∧ Free slash cs' ∧
      ∀ pre rest, cs' = pre ++ (ps ++ rest) → rest = [] := by
  induction fuel generalizing cs with
  | zero => exact absurd hfuel (Nat.not_lt_zero _)
  | succ fuel ih =>
    have hsearch := findSub_render hps hcs
    rw [removeLoop, hfind]
    generalize findSub (render slash ps ++ [slash]) (render slash cs) = found at hsearch ⊢
    cases hsearch with
    | none hnone => exact ⟨cs, rfl, h, hcs, hnone⟩
    | @some pre rest hsplit hrest hfirst =>
      subst hsplit
      have hcut := cut_render (skip ++ pre) ps rest
      rw [append_assoc, append_assoc, render_append skip pre, length_append,
        Nat.add_comm (render slash skip).length] at hcut
      have hpos := length_pos_iff.2 hne
      simp only [length_append] at hfuel
      rw [Option.map_some]
      dsimp only
      rw [hcut]
      refine ih (hI pre rest hrest h) ?_ ?_
      · intro c hc
        refine hcs c ?_
        rw [mem_append] at hc
        rw [mem_append, mem_append]
        exact hc.imp id Or.inr
      · rw [length_append]
        omega

/-- The rule of the loop for "/../": it ends with the root where ".." is the first component, and else without "..". -/
theorem parentLoop_render (I : List Bytes → Prop)
    (hI : ∀ pre x rest, rest ≠ [] → x ≠ dotdot → I (pre ++ ([x, dotdot] ++ rest)) → I (pre ++ rest))
    (h : I cs) (hcs : Free slash cs) {fuel : Nat} (hfuel : cs.length < fuel) :
    (parentLoop slash fuel (render slash cs) = some .root ∧ ∃ rest, I (dotdot :: rest)) ∨
      ∃ cs', parentLoop slash fuel (render slash cs) = some (.path (render slash cs')) ∧ I cs' ∧ Free slash cs' ∧
        ∀ pre rest, cs' = pre ++ ([dotdot] ++ rest) → rest = [] := by
  induction fuel generalizing cs with
  | zero => exact absurd hfuel (Nat.not_lt_zero _)
  | succ fuel ih =>
    have hps : Free slash [dotdot] := free_singleton (by decide)
    have hsearch := findSub_render hps hcs
    have hfind : find [slash, 0x2e, 0x2e, slash] 0 (render slash cs) =
        (findSub (render slash [dotdot] ++ [slash]) (render slash cs)).map (· + 0) := rfl
    rw [parentLoop, hfind]
    generalize findSub (render slash [dotdot] ++ [slash]) (render slash cs) = found at hsearch ⊢
    cases hsearch with
    | none hnone => exact Or.inr ⟨cs, rfl, h, hcs, hnone⟩
    | @some pre rest hsplit hrest hfirst =>
      subst hsplit
      rcases eq_nil_or_concat pre with rfl | ⟨init, x, rfl⟩
      · exact Or.inl ⟨rfl, rest, h⟩
      · rw [concat_eq_append] at *
        have hx : slash ∉ x := hcs x (by simp)
        have hback : x ≠ dotdot := by
          -- else ".." would have been found one component before
          rintro rfl
          have hle := hfirst init ([dotdot] ++ rest) (by simp) (by simp)
          rw [length_append, length_singleton] at hle
          exact absurd hle (by omega)
        have hsplit : init ++ [x] ++ ([dotdot] ++ rest) = init ++ ([x, dotdot] ++ rest) := by simp
        have hlength : (render slash (init ++ [x])).length = (render slash init).length + (x.length + 1) := by
          rw [render_append, render_singleton, length_append, length_cons]
        have htake : (render slash (init ++ [x] ++ ([dotdot] ++ rest))).take (render slash (init ++ [x])).length =
            render slash init ++ slash :: x := by
          rw [render_append (init ++ [x]), take_left, render_append, render_singleton]
        have hlast : findLastOf slash (render slash (init ++ [x] ++ ([dotdot] ++ rest)))
            ((render slash (init ++ [x])).length - 1) = some (render slash init).length := by
          rw [findLastOf, Nat.sub_add_cancel (by omega), htake, lastIndexOf_append _ hx]
        have hcut := cut_render init [x, dotdot] rest
        have hback2 : (render slash init).length + (render slash [x, dotdot]).length =
            (render slash (init ++ [x])).length + 3 := by
          rw [hlength, render, render_singleton, length_cons, length_append, length_cons]
          have htwo : dotdot.length = 2 := rfl
          omega
        rw [hback2, ← hsplit] at hcut
        simp only [length_append, length_cons] at hfuel
        rw [Option.map_some, Nat.add_zero]
        dsimp only
        rw [if_neg (by omega), hlast]
        dsimp only
        rw [hcut]
        refine ih (hI init x rest hrest hback (by rw [← hsplit]; exact h)) ?_ ?_
        · intro c hc
          refine hcs c ?_
          simp only [mem_append] at hc ⊢
          tauto
        · rw [length_append]
          omega

/-! ## The ends -/

theorem resolveDotEnd_render (hcs : Free slash cs) :
    (∃ pre, cs = pre ++ [dot] ∧ resolveDotEnd slash (render slash cs) = render slash pre) ∨
      ((∀ pre, cs ≠ pre ++ [dot]) ∧ resolveDotEnd slash (render slash cs) = render slash cs) := by
  have hend := rfindSub_at_end (s := render slash cs) (cons_ne_nil slash [0x2e])
  have hsuffix := suffix_render (p := dot) (by decide) hcs
  by_cases hdot : ∃ pre, cs = pre ++ [dot]
  · obtain ⟨pre, rfl⟩ := hdot
    refine Or.inl ⟨pre, rfl, ?_⟩
    have hlength : (render slash (pre ++ [dot])).length - 2 = (render slash pre).length := by
      rw [render_append, length_append]
      exact Nat.add_sub_cancel _ 2
    rw [resolveDotEnd, hend.2 (hsuffix.2 ⟨pre, rfl⟩)]
    dsimp only [length_cons, length_nil]
    rw [if_pos rfl, hlength, render_append, take_left]
  · refine Or.inr ⟨fun pre heq => hdot ⟨pre, heq⟩, ?_⟩
    rw [resolveDotEnd]
    cases hfound : rfindSub [slash, 0x2e] (render slash cs) with
    | none => rfl
    | some index =>
      dsimp only
      split_ifs with hindex
      · rw [hindex] at hfound
        exact absurd (hsuffix.1 (hend.1 hfound)) hdot
      · rfl

theorem resolveParentEnd_render (hcs : Free slash cs) :
    (cs = [dotdot] ∧ resolveParentEnd slash (render slash cs) = .root) ∨
      (∃ pre x, cs = pre ++ [x, dotdot] ∧ resolveParentEnd slash (render slash cs) = .path (render slash pre)) ∨
        ((∀ pre, cs ≠ pre ++ [dotdot]) ∧ resolveParentEnd slash (render slash cs) = .path (render slash cs)) := by
  have hend := rfindSub_at_end (s := render slash cs) (cons_ne_nil slash [0x2e, 0x2e])
  have hsuffix := suffix_render (p := dotdot) (by decide) hcs
  by_cases hdotdot : ∃ pre, cs = pre ++ [dotdot]
  · obtain ⟨pre, rfl⟩ := hdotdot
    have hlength : (render slash (pre ++ [dotdot])).length - 3 = (render slash pre).length := by
      rw [render_append, length_append]
      exact Nat.add_sub_cancel _ 3
    have hfound := hend.2 (hsuffix.2 ⟨pre, rfl⟩)
    rcases eq_nil_or_concat pre with rfl | ⟨init, x, rfl⟩
    · refine Or.inl ⟨rfl, ?_⟩
      rw [resolveParentEnd, hfound]
      rfl
    · rw [concat_eq_append] at *
      have hx : slash ∉ x := hcs x (by simp)
      have hindex : (render slash (init ++ [x])).length = (render slash init).length + (x.length + 1) := by
        rw [render_append, render_singleton, length_append, length_cons]
      have htake : (render slash (init ++ [x] ++ [dotdot])).take (render slash (init ++ [x])).length =
          render slash init ++ slash :: x := by
        rw [render_append (init ++ [x]), take_left, render_append, render_singleton]
      have hlast : findLastOf slash (render slash (init ++ [x] ++ [dotdot]))
          ((render slash (init ++ [x])).length - 1) = some (render slash init).length := by
        rw [findLastOf, Nat.sub_add_cancel (by omega), htake, lastIndexOf_append _ hx]
      refine Or.inr (Or.inl ⟨init, x, by simp, ?_⟩)
      rw [resolveParentEnd, hfound]
      dsimp only [length_cons, length_nil]
      rw [if_pos rfl, hlength, if_neg (by omega), hlast]
      dsimp only
      rw [append_assoc, render_append, take_left]
  · refine Or.inr (Or.inr ⟨fun pre heq => hdotdot ⟨pre, heq⟩, ?_⟩)
    rw [resolveParentEnd]
    cases hfound : rfindSub [slash, 0x2e, 0x2e] (render slash cs) with
    | none => rfl
    | some index =>
      dsimp only
      split_ifs with hindex
      · rw [hindex] at hfound
        exact absurd (hsuffix.1 (hend.1 hfound)) hdotdot
      · rw [hindex] at hfound
        exact absurd (hsuffix.1 (hend.1 hfound)) hdotdot
      · rfl

/-! ## What the loops keep -/

/-- What is kept of the components of a path while empty ones are taken out; without a leading separator of its own, a
path does not start with an empty component. -/
structure Kept (all : List Bytes) (relative : Bool) (cs : List Bytes) : Prop where
  ne : cs ≠ []
  sub : ∀ c ∈ cs, c ∈ all
  leads : ∀ stack, walk [] all = some stack → walk [] cs = some stack
  head : relative = true → cs.head? = some [] → cs = [[]]

/-- What is kept of them when only the first and the last one can be empty. -/
structure Tidy (all : List Bytes) (relative : Bool) (cs : List Bytes) : Prop where
  ne : cs ≠ []
  sub : ∀ c ∈ cs, c ∈ all
  leads : ∀ stack, walk [] all = some stack → walk [] cs = some stack
  inner : [] ∉ cs.tail.dropLast
  first : relative = true → [] ∉ cs.dropLast

/-- What is reached: "." and ".." are gone. -/
structure Normal (all : List Bytes) (relative : Bool) (cs : List Bytes) : Prop where
  sub : ∀ c ∈ cs, c ∈ all
  leads : ∀ stack, walk [] all = some stack → walk [] cs = some stack
  inner : [] ∉ cs.tail.dropLast
  first : relative = true → [] ∉ cs.dropLast
  noDot : dot ∉ cs
  noDotdot : dotdot ∉ cs

section Kept

variable {all pre ps rest cs : List Bytes} {relative : Bool}

theorem sub_removed (h : ∀ c ∈ pre ++ (ps ++ rest), c ∈ all) : ∀ c ∈ pre ++ rest, c ∈ all := by
  intro c hc
  refine h c ?_
  rw [mem_append] at hc
  rw [mem_append, mem_append]
  exact hc.imp id Or.inr

theorem Kept.remove (h : Kept all relative (pre ++ (ps ++ rest))) (hempty : ∀ c ∈ ps, c = []) (hps : ps ≠ [])
    (hrest : rest ≠ []) : Kept all relative (pre ++ rest) := by
  refine ⟨append_ne_nil_of_right_ne_nil _ hrest, sub_removed h.sub, ?_, ?_⟩
  · intro stack hstack
    have hwalk := h.leads stack hstack
    rw [walk_append] at hwalk ⊢
    simpa only [walk_skip fun c hc => Or.inl (hempty c hc)] using hwalk
  · intro hrelative hhead
    obtain ⟨p, ps, rfl⟩ := exists_cons_of_ne_nil hps
    obtain ⟨r, rest, rfl⟩ := exists_cons_of_ne_nil hrest
    obtain rfl := hempty p mem_cons_self
    cases pre with
    | nil =>
      have hone := congrArg length (h.head hrelative rfl)
      simp at hone
    | cons d pre =>
      have hone := congrArg length (h.head hrelative hhead)
      simp at hone

theorem Kept.tidy {c : Bytes} (h : Kept all relative (c :: cs)) (hinner : [] ∉ cs.dropLast) :
    Tidy all relative (c :: cs) := by
  refine ⟨h.ne, h.sub, h.leads, hinner, ?_⟩
  intro hrelative hmem
  cases cs with
  | nil => exact absurd hmem not_mem_nil
  | cons d cs =>
    rcases mem_cons.1 hmem with hc | hmem
    · have hone := h.head hrelative (by rw [hc]; rfl)
      exact absurd (congrArg length hone) (by simp)
    · exact hinner hmem

theorem Tidy.remove (h : Tidy all relative (pre ++ (ps ++ rest))) (hps : ps ≠ []) (hrest : rest ≠ [])
    (hwalk : ∀ stack, walk [] (pre ++ (ps ++ rest)) = some stack → walk [] (pre ++ rest) = some stack) :
    Tidy all relative (pre ++ rest) :=
  ⟨append_ne_nil_of_right_ne_nil _ hrest, sub_removed h.sub, fun stack hstack => hwalk stack (h.leads stack hstack),
    removed_tail hps hrest h.inner, fun hrelative => removed_dropLast hrest (h.first hrelative)⟩

/-- Back from an empty component leads nowhere, as it is the first one. -/
theorem Tidy.walk_back {x : Bytes} (h : Tidy all relative (pre ++ ([x, dotdot] ++ rest))) (hdot : x ≠ dot)
    (hdotdot : x ≠ dotdot) (stack : List Bytes) (hwalk : walk [] (pre ++ ([x, dotdot] ++ rest)) = some stack) :
    walk [] (pre ++ rest) = some stack := by
  by_cases hempty : x = []
  · subst hempty
    cases pre with
    | nil =>
      rw [nil_append, cons_append, cons_append, walk, if_pos (Or.inl rfl), walk, if_neg (by decide),
        if_pos rfl, if_pos rfl] at hwalk
      cases hwalk
    | cons d pre =>
      refine absurd ?_ h.inner
      have hsplit : (d :: pre ++ ([[], dotdot] ++ rest)).tail = pre ++ [] :: (dotdot :: rest) := rfl
      rw [hsplit, dropLast_append_of_ne_nil (cons_ne_nil _ _), dropLast_cons_cons]
      exact mem_append_right _ mem_cons_self
  · rw [walk_append] at hwalk ⊢
    simpa only [cons_append, nil_append, Strutil.walk_back hempty hdot hdotdot] using hwalk

end Kept

/-! ## All loops -/

section Resolve

variable {all pre cs : List Bytes} {relative : Bool}

variable {last : List Bytes}

theorem init_not_mem {c : Bytes} (hlast : last ≠ []) (h : c ∉ (pre ++ last).dropLast) : c ∉ pre := by
  rw [dropLast_append_of_ne_nil hlast, mem_append, not_or] at h
  exact h.1

theorem init_tail {c : Bytes} (hlast : last ≠ []) (h : c ∉ (pre ++ last).tail.dropLast) : c ∉ pre.tail.dropLast := by
  cases pre with
  | nil => exact not_mem_nil
  | cons d pre => exact fun hmem => init_not_mem hlast h (mem_of_mem_dropLast hmem)

/-- The last components are taken off. -/
theorem Tidy.normal_init (h : Tidy all relative (pre ++ last)) (hlast : last ≠ [])
    (hdot : dot ∉ pre) (hdotdot : dotdot ∉ pre)
    (hwalk : ∀ stack, walk [] (pre ++ last) = some stack → walk [] pre = some stack) : Normal all relative pre :=
  ⟨fun c hc => h.sub c (mem_append_left _ hc), fun stack hstack => hwalk stack (h.leads stack hstack),
    init_tail hlast h.inner,
    fun hrelative hmem => init_not_mem hlast (h.first hrelative) (mem_of_mem_dropLast hmem), hdot, hdotdot⟩

/-- What is not among the first components, and is not the last one, is none. -/
theorem not_mem_of_last {c : Bytes} (h : c ∉ cs.dropLast) (hlast : ∀ pre, cs ≠ pre ++ [c]) : c ∉ cs := by
  rcases eq_nil_or_concat cs with rfl | ⟨init, _, rfl⟩
  · exact not_mem_nil
  · rw [concat_eq_append] at *
    rw [dropLast_concat] at h
    intro hmem
    rcases mem_append.1 hmem with hinit | heq
    · exact h hinit
    · exact hlast init (by rw [mem_singleton.1 heq])

/-- The ends of the path, when no "." and ".." have others behind them. -/
theorem ends_render (h : Tidy all relative cs) (hcs : Free slash cs) (hdot : dot ∉ cs.dropLast)
    (hdotdot : dotdot ∉ cs.dropLast) :
    (resolveParentEnd slash (resolveDotEnd slash (render slash cs)) = .root ∧ ∀ stack, walk [] all ≠ some stack) ∨
      ∃ cs', resolveParentEnd slash (resolveDotEnd slash (render slash cs)) = .path (render slash cs') ∧
        Normal all relative cs' := by
  have hne : ∀ c : Bytes, [c] ≠ [] := fun c => cons_ne_nil c []
  rcases resolveDotEnd_render hcs with ⟨init, rfl, hend⟩ | ⟨hlast, hend⟩
  · have hdotdot' := init_not_mem (hne dot) hdotdot
    have hfree : Free slash init := fun c hc => hcs c (mem_append_left _ hc)
    have hnormal : Normal all relative init := by
      refine h.normal_init (hne dot) (init_not_mem (hne dot) hdot) hdotdot' ?_
      intro stack hstack
      rw [walk_append] at hstack
      obtain ⟨t, ht, hlast⟩ := Option.bind_eq_some_iff.1 hstack
      cases hlast
      exact ht
    rw [hend]
    rcases resolveParentEnd_render hfree with ⟨rfl, -⟩ | ⟨pre, x, rfl, -⟩ | ⟨-, hparent⟩
    · exact absurd mem_cons_self hdotdot'
    · exact absurd (by simp) hdotdot'
    · exact Or.inr ⟨init, hparent, hnormal⟩
  · have hdot' := not_mem_of_last hdot hlast
    rw [hend]
    rcases resolveParentEnd_render hcs with ⟨rfl, hroot⟩ | ⟨pre, x, rfl, hparent⟩ | ⟨hlast', hparent⟩
    · refine Or.inl ⟨hroot, ?_⟩
      intro stack hstack
      cases h.leads stack hstack
    · have hx : x ≠ dotdot := by
        rintro rfl
        refine hdotdot ?_
        rw [dropLast_append_of_ne_nil (cons_ne_nil _ _)]
        exact mem_append_right _ mem_cons_self
      have hinit := init_not_mem (cons_ne_nil x [dotdot]) hdotdot
      have hxdot : x ≠ dot := by
        rintro rfl
        exact hdot' (by simp)
      refine Or.inr ⟨pre, hparent, h.normal_init (cons_ne_nil _ _) (fun hmem => hdot' (mem_append_left _ hmem))
        hinit ?_⟩
      intro stack hstack
      have hback := Tidy.walk_back (show Tidy all relative (pre ++ ([x, dotdot] ++ [])) from h) hxdot hx stack hstack
      rw [append_nil] at hback
      exact hback
    · have hdotdot' := not_mem_of_last hdotdot hlast'
      exact Or.inr ⟨cs, hparent, h.sub, h.leads, h.inner, h.first, hdot', hdotdot'⟩

/-- The loops and the ends: they leave a normal list, or the root where the path leads nowhere. -/
theorem resolve_render (h : Kept all relative cs) (hcs : Free slash cs) :
    (resolve slash (render slash cs) = some .root ∧ ∀ stack, walk [] all ≠ some stack) ∨
      ∃ cs', resolve slash (render slash cs) = some (.path (render slash cs')) ∧ Normal all relative cs' := by
  have hfuel : ∀ cs : List Bytes, cs.length < (render slash cs).length + 1 :=
    fun cs => Nat.lt_succ_of_le (length_le_render cs)
  have hempties : Free slash [[], []] := by
    intro c hc
    simp only [mem_cons, not_mem_nil, or_false, or_self] at hc
    rw [hc]
    exact not_mem_nil
  -- "///"
  obtain ⟨cs₁, hrun₁, hkept₁, hfree₁, -⟩ := removeLoop_render hempties (find_nil _) (Kept all relative)
    (fun pre rest hrest hkept => hkept.remove (by simp) (cons_ne_nil _ _) hrest) h hcs (cons_ne_nil _ _)
    (hfuel cs)
  have hstep₁ : removeLoop [slash, slash, slash] 0 2 ((render slash cs).length + 1) (render slash cs) =
      some (render slash cs₁) := hrun₁
  obtain ⟨c, tail₁, rfl⟩ := exists_cons_of_ne_nil hkept₁.ne
  -- "//", but not in front
  obtain ⟨tail₂, hrun₂, hkept₂, hfree₂, hnone₂⟩ := removeLoop_render (free_singleton not_mem_nil)
    (find_tail (hfree₁ c mem_cons_self)) (fun tail => Kept all relative (c :: tail))
    (fun pre rest hrest hkept => Kept.remove (show Kept all relative (c :: pre ++ ([[]] ++ rest)) from hkept) (by simp) (cons_ne_nil _ _) hrest) hkept₁
    (fun d hd => hfree₁ d (mem_cons_of_mem _ hd)) (cons_ne_nil _ _)
    (Nat.lt_of_lt_of_le (Nat.lt_succ_self _) (Nat.le_of_lt (hfuel (c :: tail₁))))
  have hstep₂ : removeLoop [slash, slash] 1 1 ((render slash (c :: tail₁)).length + 1) (render slash (c :: tail₁)) =
      some (render slash (c :: tail₂)) := hrun₂
  have htidy := hkept₂.tidy (not_mem_dropLast hnone₂)
  have hfree : Free slash (c :: tail₂) := by
    intro d hd
    rcases mem_cons.1 hd with rfl | hmem
    · exact hfree₁ d mem_cons_self
    · exact hfree₂ d hmem
  -- "/./"
  obtain ⟨cs₃, hrun₃, htidy₃, hfree₃, hnone₃⟩ := removeLoop_render (free_singleton (by decide)) (find_nil _)
    (Tidy all relative) (fun pre rest hrest htidy => htidy.remove (cons_ne_nil dot []) hrest (by
      intro stack hstack
      rw [walk_append] at hstack ⊢
      simpa only [walk_skip walk_dot] using hstack))
    htidy hfree (cons_ne_nil _ _) (hfuel (c :: tail₂))
  have hstep₃ : removeLoop [slash, 0x2e, slash] 0 2 ((render slash (c :: tail₂)).length + 1)
      (render slash (c :: tail₂)) = some (render slash cs₃) := hrun₃
  -- "/../"
  have hloop := parentLoop_render (fun cs => Tidy all relative cs ∧ dot ∉ cs.dropLast) (by
      rintro pre x rest hrest hx ⟨htidy, hdot⟩
      have hxdot : x ≠ dot := by
        rintro rfl
        refine hdot ?_
        rw [← append_assoc, dropLast_append_of_ne_nil hrest]
        exact mem_append_left _ (by simp)
      exact ⟨htidy.remove (cons_ne_nil _ _) hrest (htidy.walk_back hxdot hx), removed_dropLast hrest hdot⟩)
    ⟨htidy₃, not_mem_dropLast hnone₃⟩ hfree₃ (hfuel cs₃)
  rw [resolve, hstep₁, Option.bind_eq_bind, Option.bind_some, hstep₂, Option.bind_some, hstep₃, Option.bind_some]
  rcases hloop with ⟨hroot, rest, htidy₄, -⟩ | ⟨_, hpath, ⟨htidy₄, hdot₄⟩, hfree₄, hnone₄⟩
  · refine Or.inl ⟨by rw [hroot]; rfl, ?_⟩
    intro stack hstack
    cases htidy₄.leads stack hstack
  · rw [hpath]
    rcases ends_render htidy₄ hfree₄ hdot₄ (not_mem_dropLast hnone₄) with ⟨hroot, hnowhere⟩ | ⟨cs', hend, hnormal⟩
    · exact Or.inl ⟨congrArg some hroot, hnowhere⟩
    · exact Or.inr ⟨cs', congrArg some hend, hnormal⟩

/-- A normal list is left as it is. -/
theorem Normal.fixed (h : Normal all relative cs) (hne : cs ≠ []) (hcs : Free slash cs) :
    resolve slash (render slash cs) = some (.path (render slash cs)) := by
  have hfuel : cs.length < (render slash cs).length + 1 := Nat.lt_succ_of_le (length_le_render cs)
  have hempties : Free slash [[], []] := by
    intro c hc
    simp only [mem_cons, not_mem_nil, or_false, or_self] at hc
    rw [hc]
    exact not_mem_nil
  have hinner : ∀ pre rest : List Bytes, rest ≠ [] → pre ++ ([[], []] ++ rest) ≠ cs := by
    rintro pre rest hrest rfl
    refine h.inner ?_
    cases pre with
    | nil =>
      rw [nil_append, cons_append, tail_cons, dropLast_append_of_ne_nil hrest]
      exact mem_append_left _ mem_cons_self
    | cons d pre =>
      rw [cons_append, tail_cons, ← append_assoc, dropLast_append_of_ne_nil hrest]
      exact mem_append_left _ (by simp)
  obtain ⟨cs₁, hrun₁, rfl, -, -⟩ := removeLoop_render hempties (find_nil _) (fun cs' => cs' = cs)
    (fun pre rest hrest heq => absurd heq (hinner pre rest hrest)) rfl hcs (cons_ne_nil _ _) hfuel
  have hstep₁ : removeLoop [slash, slash, slash] 0 2 ((render slash cs₁).length + 1) (render slash cs₁) =
      some (render slash cs₁) := hrun₁
  obtain ⟨c, tail, rfl⟩ := exists_cons_of_ne_nil hne
  obtain ⟨tail₂, hrun₂, rfl, -, -⟩ := removeLoop_render (free_singleton not_mem_nil)
    (find_tail (hcs c mem_cons_self)) (fun tail' => tail' = tail) (by
      rintro pre rest hrest rfl
      refine absurd ?_ h.inner
      rw [tail_cons, ← append_assoc, dropLast_append_of_ne_nil hrest]
      exact mem_append_left _ (by simp)) rfl
    (fun d hd => hcs d (mem_cons_of_mem _ hd)) (cons_ne_nil _ _)
    (Nat.lt_of_lt_of_le (Nat.lt_succ_self _) (Nat.le_of_lt hfuel))
  have hstep₂ : removeLoop [slash, slash] 1 1 ((render slash (c :: tail₂)).length + 1) (render slash (c :: tail₂)) =
      some (render slash (c :: tail₂)) := hrun₂
  obtain ⟨_, hrun₃, rfl, -, -⟩ := removeLoop_render (free_singleton (by decide)) (find_nil _)
    (fun cs' => cs' = c :: tail₂) (by
      intro pre rest hrest heq
      exact absurd (by rw [← heq]; simp) h.noDot) rfl hcs (cons_ne_nil dot []) hfuel
  have hstep₃ : removeLoop [slash, 0x2e, slash] 0 2 ((render slash (c :: tail₂)).length + 1)
      (render slash (c :: tail₂)) = some (render slash (c :: tail₂)) := hrun₃
  have hloop := parentLoop_render (fun cs' => cs' = c :: tail₂) (by
      intro pre x rest hrest hx heq
      exact absurd (by rw [← heq]; simp) h.noDotdot) rfl hcs hfuel
  rw [resolve, hstep₁, Option.bind_eq_bind, Option.bind_some, hstep₂, Option.bind_some, hstep₃, Option.bind_some]
  rcases hloop with ⟨-, rest, heq⟩ | ⟨_, hpath, rfl, -, -⟩
  · exact absurd (by rw [← heq]; exact mem_cons_self) h.noDotdot
  · rw [hpath]
    refine congrArg some ?_
    rcases resolveDotEnd_render hcs with ⟨_, heq, -⟩ | ⟨-, hend⟩
    · exact absurd (by rw [heq]; simp) h.noDot
    · rw [hend]
      rcases resolveParentEnd_render hcs with ⟨heq, -⟩ | ⟨pre, x, heq, -⟩ | ⟨-, hparent⟩
      · exact absurd (by rw [heq]; exact mem_cons_self) h.noDotdot
      · exact absurd (by rw [heq]; simp) h.noDotdot
      · exact hparent

end Resolve

/-! ## NormalizePath -/

/-- What is shown of a result. -/
structure Resolves (path result : Bytes) : Prop where
  normal : NormalPath result
  fixed : normalizePath result slash = some result
  inside : ∃ stack, walk [] (components slash result) = some stack
  leads : ∀ stack, walk [] (components slash (withSeparators slash path)) = some stack →
    walk [] (components slash result) = some stack

theorem withSeparators_of_free {s : Bytes} (h : (0x5c : UInt8) ∉ s) : withSeparators slash s = s := by
  induction s with
  | nil => rfl
  | cons b s ih =>
    rw [mem_cons, not_or] at h
    rw [withSeparators, map_cons, if_neg (Ne.symm h.1)]
    exact congrArg _ (ih h.2)

theorem not_mem_withSeparators (path : Bytes) : (0x5c : UInt8) ∉ withSeparators slash path := by
  rw [withSeparators, mem_map]
  rintro ⟨b, -, hb⟩
  split_ifs at hb with h
  · exact absurd hb (by decide)
  · exact h hb

/-- A text of components that come from a path has no backslash. -/
theorem withSeparators_render (path : Bytes) {s : Bytes}
    (hs : ∀ b ∈ s, b ∈ withSeparators slash path) (hcs : ∀ c ∈ cs, c ∈ components slash s) :
    (0x5c : UInt8) ∉ render slash cs := by
  intro hmem
  obtain ⟨c, hc, hb⟩ := exists_of_mem_render hmem (by decide)
  have hin := mem_render_of_mem slash (hcs c hc) hb
  rw [render_components, mem_cons] at hin
  exact not_mem_withSeparators path (hs _ (hin.resolve_left (by decide)))

theorem components_kept (s : Bytes) (relative : Bool) (h : relative = true → s.headD 0 ≠ slash) :
    Kept (components slash s) relative (components slash s) := by
  refine ⟨components_ne_nil s, fun c hc => hc, fun stack hstack => hstack, ?_⟩
  intro hrelative hhead
  cases s with
  | nil => rfl
  | cons b bs =>
    have hb : b ≠ slash := h hrelative
    rw [components, if_neg hb] at hhead
    cases hrest : components slash bs with
    | nil =>
      rw [hrest] at hhead
      cases hhead
    | cons c cs =>
      rw [hrest] at hhead
      cases hhead

section Resolves

variable {path p : Bytes}

theorem empties_short {cs pre rest : List Bytes} (hlength : cs.length ≤ 2) (heq : cs = pre ++ [] :: rest) :
    rest = [] ∨ pre = [] ∨ pre = [[]] := by
  rw [heq, length_append, length_cons] at hlength
  by_cases hrest : rest = []
  · exact Or.inl hrest
  · have hpos := length_pos_iff.2 hrest
    exact Or.inr (Or.inl (eq_nil_of_length_eq_zero (by omega)))

/-- The root. -/
theorem resolves_root (h : ∀ stack, walk [] (components slash (withSeparators slash path)) = some stack → stack = []) :
    Resolves path [slash] ∧ Resolves path [] := by
  have hslash : components slash [slash] = [[], []] := rfl
  have hempty : components slash [] = [[]] := rfl
  refine ⟨⟨⟨?_, ?_⟩, by decide +kernel, ⟨[], rfl⟩, ?_⟩, ⟨⟨?_, ?_⟩, by decide +kernel, ⟨[], rfl⟩, ?_⟩⟩
  · rw [hslash]
    decide
  · intro pre rest heq
    exact empties_short (by rw [hslash]; decide) heq
  · intro stack hstack
    rw [h stack hstack]
    rfl
  · rw [hempty]
    decide
  · intro pre rest heq
    exact empties_short (by rw [hempty]; decide) heq
  · intro stack hstack
    rw [h stack hstack]
    rfl

/-- A path that starts with a separator. -/
theorem resolves_absolute (hpath : withSeparators slash path = slash :: p) :
    ∃ result, normalizePath path slash = some result ∧ Resolves path result := by
  have hfree := components_free slash p
  have hcomponents : components slash (withSeparators slash path) = [] :: components slash p := by
    rw [hpath, components, if_pos rfl]
  have hwalk : walk [] (components slash (withSeparators slash path)) = walk [] (components slash p) := by
    rw [hcomponents, walk, if_pos (Or.inl rfl)]
  have hrun : normalizePath path slash = (resolve slash (render slash (components slash p))).map (finish slash false) := by
    rw [normalizePath, hpath, render_components]
    rfl
  rcases resolve_render (components_kept p false (absurd · Bool.false_ne_true)) hfree with ⟨hroot, hnowhere⟩ | ⟨cs, hresolve, hnormal⟩
  · refine ⟨[slash], by rw [hrun, hroot]; rfl, (resolves_root fun stack hstack => ?_).1⟩
    rw [hwalk] at hstack
    exact absurd hstack (hnowhere stack)
  · cases cs with
    | nil =>
      refine ⟨[slash], by rw [hrun, hresolve]; rfl, (resolves_root fun stack hstack => ?_).1⟩
      rw [hwalk] at hstack
      exact (Option.some.inj (hnormal.leads stack hstack)).symm
    | cons c cs =>
      have hcs : Free slash (c :: cs) := fun d hd => hfree d (hnormal.sub d hd)
      have hresult := components_render hcs
      have hbackslash := withSeparators_render path (s := p)
        (fun b hb => by rw [hpath]; exact mem_cons_of_mem _ hb) hnormal.sub
      refine ⟨render slash (c :: cs), by rw [hrun, hresolve]; rfl, ⟨?_, ?_⟩, ?_, ?_, ?_⟩
      · rw [hresult]
        intro d hd
        rcases mem_cons.1 hd with rfl | hmem
        · exact ⟨by decide, by decide⟩
        · exact ⟨fun heq => hnormal.noDot (heq ▸ hmem), fun heq => hnormal.noDotdot (heq ▸ hmem)⟩
      · intro pre rest heq
        rw [hresult] at heq
        cases pre with
        | nil => exact Or.inr (Or.inl rfl)
        | cons d pre =>
          rw [cons_append, List.cons.injEq] at heq
          obtain ⟨rfl, heq⟩ := heq
          by_cases hrest : rest = []
          · exact Or.inl hrest
          · refine Or.inr (Or.inr ?_)
            cases pre with
            | nil => rfl
            | cons e pre =>
              refine absurd ?_ hnormal.inner
              rw [heq, cons_append, tail_cons, dropLast_append_of_ne_nil (cons_ne_nil _ _),
                dropLast_cons_of_ne_nil hrest]
              exact mem_append_right _ mem_cons_self
      · have hfixed := hnormal.fixed (cons_ne_nil _ _) hcs
        rw [normalizePath, withSeparators_of_free hbackslash]
        change (resolve slash (render slash (c :: cs))).map (finish slash false) = _
        rw [hfixed]
        rfl
      · rw [hresult, walk, if_pos (Or.inl rfl)]
        exact walk_isSome hnormal.noDotdot []
      · intro stack hstack
        rw [hwalk] at hstack
        rw [hresult, walk, if_pos (Or.inl rfl)]
        exact hnormal.leads stack hstack

/-- A path that does not start with a separator: one is added, and taken away again. -/
theorem resolves_relative (hpath : (withSeparators slash path).headD 0 ≠ slash) :
    ∃ result, normalizePath path slash = some result ∧ Resolves path result := by
  have hfree := components_free slash (withSeparators slash path)
  have hadded : ((withSeparators slash path).headD 0 != slash) = true := by simpa using hpath
  have hrun : normalizePath path slash =
      (resolve slash (render slash (components slash (withSeparators slash path)))).map (finish slash true) := by
    rw [normalizePath, hadded, render_components]
    rfl
  rcases resolve_render (components_kept _ true fun _ => hpath) hfree with ⟨hroot, hnowhere⟩ | ⟨cs, hresolve, hnormal⟩
  · exact ⟨[], by rw [hrun, hroot]; rfl, (resolves_root fun stack hstack => absurd hstack (hnowhere stack)).2⟩
  · cases cs with
    | nil =>
      refine ⟨[], by rw [hrun, hresolve]; rfl, (resolves_root fun stack hstack => ?_).2⟩
      exact (Option.some.inj (hnormal.leads stack hstack)).symm
    | cons c cs =>
      have hcs : Free slash (c :: cs) := fun d hd => hfree d (hnormal.sub d hd)
      have hc := hcs c mem_cons_self
      have hrest : Free slash cs := fun d hd => hcs d (mem_cons_of_mem _ hd)
      have hresult : components slash (c ++ render slash cs) = c :: cs :=
        components_append hc (components_render hrest)
      have hbackslash : (0x5c : UInt8) ∉ c ++ render slash cs := fun hmem =>
        withSeparators_render path (fun b hb => hb) hnormal.sub (mem_cons_of_mem _ hmem)
      -- the result does not start with a separator: its first component is empty only where it is the only one
      have hhead : (c ++ render slash cs).headD 0 ≠ slash := by
        cases c with
        | cons b c => exact fun heq => hc (by rw [← heq]; exact mem_cons_self)
        | nil =>
          cases cs with
          | nil => decide
          | cons d cs =>
            refine absurd ?_ (hnormal.first rfl)
            rw [dropLast_cons_cons]
            exact mem_cons_self
      refine ⟨c ++ render slash cs, by rw [hrun, hresolve]; rfl, ⟨?_, ?_⟩, ?_, ?_, ?_⟩
      · rw [hresult]
        exact fun d hd => ⟨fun heq => hnormal.noDot (heq ▸ hd), fun heq => hnormal.noDotdot (heq ▸ hd)⟩
      · intro pre rest heq
        rw [hresult] at heq
        by_contra hnot
        refine hnormal.first rfl ?_
        rw [heq, dropLast_append_of_ne_nil (cons_ne_nil _ _),
          dropLast_cons_of_ne_nil fun hrest => hnot (Or.inl hrest)]
        exact mem_append_right _ mem_cons_self
      · have hfixed := hnormal.fixed (cons_ne_nil _ _) hcs
        have hadded' : ((c ++ render slash cs).headD 0 != slash) = true := by simpa using hhead
        rw [normalizePath, withSeparators_of_free hbackslash, hadded']
        change (resolve slash (render slash (c :: cs))).map (finish slash true) = _
        rw [hfixed]
        rfl
      · rw [hresult]
        exact walk_isSome hnormal.noDotdot []
      · intro stack hstack
        rw [hresult]
        exact hnormal.leads stack hstack

end Resolves

/-- Every path has a normal path that leads where it leads, and that is its own normal path. -/
theorem normalizePath_resolves (path : Bytes) : ∃ result, normalizePath path slash = some result ∧ Resolves path result := by
  by_cases hpath : (withSeparators slash path).headD 0 = slash
  · cases hs : withSeparators slash path with
    | nil =>
      rw [hs] at hpath
      exact absurd hpath (by decide)
    | cons b p =>
      rw [hs, headD_cons] at hpath
      rw [hpath] at hs
      exact resolves_absolute hs
  · exact resolves_relative hpath

/-- "//a" is left as it is, with an empty component that is not the first one. -/
theorem twoSlashes_kept : ¬ ∀ path result : Bytes, normalizePath path slash = some result →
      ∀ pre rest, components slash result = pre ++ [] :: rest → rest = [] ∨ pre = [] := by
  intro h
  rcases h [slash, slash, 0x61] [slash, slash, 0x61] (by decide +kernel) [[]] [[0x61]] rfl with hrest | hpre
  · cases hrest
  · cases hpre

end Whispercast.Util.Strutil
