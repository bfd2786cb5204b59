import Mathlib.Data.List.Nodup
import Whispercast.Logio.RoundTrip

/-!
# Damaged blocks

One block of what a writer has put out is damaged. The reader reports it and goes on with the next block. If a record
was pending at the damaged block, the next block is out of order: the reader then skips up to the end of a record,
though the next piece may begin one, and keeps what was pending, which costs the next record.
-/

namespace Whispercast.Logio

open Io Library RecordReader List Assembler

/-! ## What is delivered -/

/-- The records among the results of calls of `ReadRecord`. -/
def delivered (results : List (ReadResult × Bytes)) : List Bytes :=
  results.filterMap fun (result, data) => if result = .ok then some data else none

/-- The records that a fresh reader delivers from a whole stream of blocks. -/
def deliveredFrom (q : ReaderParams) (input : Bytes) : Option (List Bytes) :=
  (RecordReader.feed q [input] {} []).map delivered

@[simp] theorem delivered_append (results results' : List (ReadResult × Bytes)) :
    delivered (results ++ results') = delivered results ++ delivered results' := filterMap_append

theorem delivered_error {result : ReadResult} (h : result ≠ .ok) (data : Bytes)
    (results : List (ReadResult × Bytes)) : delivered ((result, data) :: results) = delivered results := by
  simp [delivered, h]

@[simp] theorem delivered_resultsOf (os : List (Assembled UInt8)) : delivered (resultsOf os) = messages os := by
  induction os with
  | nil => rfl
  | cons o os ih =>
    rw [resultsOf, map_cons]
    cases o with
    | message m =>
      rw [messages, filterMap_cons, ← messages, ← ih]
      rfl
    | unfinished => exact (delivered_error (by simp) _ _).trans ih

theorem deliveredFrom_blocks {q : ReaderParams} {ss : List Stored} (hss : ∀ s ∈ ss, s.Ok q)
    (hpos : 0 < q.block_size_) :
    deliveredFrom q (ss.flatMap (Stored.bytes q)) = some (delivered (readAll q {} 0 ss).1) := by
  have hread := @feed_all q {} ss 0 [] hss hpos [ss.flatMap (Stored.bytes q)] [] hpos (by simp)
  rw [deliveredFrom, show ({} : RecordReader) = between {} 0 from rfl, hread]
  rfl

/-! ## Some blocks of many -/

/-- What the blocks from the `k`-th on and before the `m`-th hold: the end of a record, whole records and the beginning
of one; or the middle of one record. -/
inductive Segment (k m : Nat) : List Extent → List Piece → Prop where
  | whole {es₁ es₂ es₃ : List Extent} {frs : List (List Piece)} {stray opened : List Piece}
      (hbefore : ∀ e ∈ es₁, e.firstBlock < k) (hinside : ∀ e ∈ es₂, k ≤ e.firstBlock ∧ e.lastBlock < m)
      (hafter : ∀ e ∈ es₃, m ≤ e.lastBlock) (hstray : Stray stray) (h : List.Forall₂ Holds es₂ frs)
      (hopened : Opened opened) : Segment k m (es₁ ++ es₂ ++ es₃) (stray ++ (frs.flatten ++ opened))
  | middle {es : List Extent} {mid rest : List Piece} {data : Bytes} (h : Carries false data (mid ++ rest))
      (houtside : ∀ e ∈ es, e.firstBlock < k ∨ m ≤ e.lastBlock) : Segment k m es mid

/-- The records that lie in the blocks from the `k`-th on and before the `m`-th. -/
def inside (k m : Nat) (es : List Extent) : List Extent := es.filter fun e => k ≤ e.firstBlock ∧ e.lastBlock < m

theorem carries_records {es : List Extent} {frs : List (List Piece)} (h : List.Forall₂ Holds es frs) :
    List.Forall₂ (Carries true) (es.map Extent.record) frs := by
  rw [forall₂_map_left_iff]
  exact h

section Segments

variable {es : List Extent} {frs blks : List (List Piece)} {ps : List Piece} {k m : Nat} {pieces : List Piece}

section

variable (h : Segment k m es pieces)

include h

theorem Segment.inside_eq :
    (∃ es₂ frs stray opened, inside k m es = es₂ ∧ pieces = stray ++ (frs.flatten ++ opened) ∧ Stray stray ∧
      List.Forall₂ Holds es₂ frs ∧ Opened opened) ∨
    (inside k m es = [] ∧ ∃ data rest, Carries false data (pieces ++ rest)) := by
  cases h with
  | @whole es₁ es₂ es₃ frs stray opened hbefore hinside hafter hstray h hopened =>
    refine .inl ⟨es₂, frs, stray, opened, ?_, rfl, hstray, h, hopened⟩
    have h₁ : es₁.filter (fun e => k ≤ e.firstBlock ∧ e.lastBlock < m) = [] :=
      filter_eq_nil_iff.2 fun e he => by have := hbefore e he; simp; omega
    have h₃ : es₃.filter (fun e => k ≤ e.firstBlock ∧ e.lastBlock < m) = [] :=
      filter_eq_nil_iff.2 fun e he => by have := hafter e he; simp; omega
    have h₂ : es₂.filter (fun e => k ≤ e.firstBlock ∧ e.lastBlock < m) = es₂ :=
      filter_eq_self.2 fun e he => by simpa using hinside e he
    rw [inside, filter_append, filter_append, h₁, h₂, h₃, nil_append, append_nil]
  | @middle es mid rest data h houtside =>
    refine .inr ⟨filter_eq_nil_iff.2 fun e he => ?_, data, rest, h⟩
    rcases houtside e he with _ | _ <;> simp <;> omega

/-- Where nothing is pending, the records inside are delivered. -/
theorem Segment.delivered : messages (Assembler.assemble {} pieces).1 = (inside k m es).map Extent.record := by
  rcases h.inside_eq with ⟨_, _, _, _, rfl, rfl, hstray, hholds, hopened⟩ | ⟨hnil, _, _, hmiddle⟩
  · exact messages_stray hstray (carries_records hholds) hopened
  · rw [hnil]
    exact (messages_middle (p := []) hmiddle).1

/-- Where a record is pending and skipped, the first one inside is lost at least. -/
theorem Segment.delivered_skipped {p : Bytes} (hp : p ≠ []) :
    ∃ n, messages (Assembler.assemble ⟨p, true⟩ pieces).1 = ((inside k m es).map Extent.record).drop (n + 1) := by
  rcases h.inside_eq with ⟨_, _, _, _, rfl, rfl, hstray, hholds, hopened⟩ | ⟨hnil, _, _, hmiddle⟩
  · exact messages_skipped hstray (carries_records hholds) hopened hp
  · rw [hnil]
    exact ⟨0, (messages_middle hmiddle).2⟩

theorem Segment.snoc {e : Extent} (he : m ≤ e.lastBlock) : Segment k m (es ++ [e]) pieces := by
  have hafter : ∀ {es : List Extent} {P : Extent → Prop}, (∀ e ∈ es, P e) → P e → ∀ e' ∈ es ++ [e], P e' := by
    intro es P hes hP e' he'
    rcases mem_append.1 he' with he' | he'
    · exact hes e' he'
    · exact mem_singleton.1 he' ▸ hP
  cases h with
  | @whole es₁ es₂ es₃ frs stray opened hbefore hinside hlast hstray h hopened =>
    rw [append_assoc]
    exact .whole hbefore hinside (hafter hlast he) hstray h hopened
  | middle h houtside => exact .middle h (hafter houtside (.inr he))

end

theorem Written.firstBlock_le (h : Written es frs blks ps) {e : Extent} (he : e ∈ es) : e.firstBlock ≤ e.lastBlock := by
  induction h with
  | nil => cases he
  | append _ _ ih =>
    rcases mem_append.1 he with he | he
    · exact ih he
    · rw [mem_singleton] at he
      exact he ▸ Nat.le_add_right _ _
  | dump _ ih => exact ih he

/-- What follows behind a cut. -/
theorem Written.behind (h : Written es frs blks ps) (hk : k ≤ blks.length) :
    ∃ es₁ es₂ frs₂ stray, es = es₁ ++ es₂ ∧ (∀ e ∈ es₁, e.firstBlock < k) ∧ (∀ e ∈ es₂, k ≤ e.firstBlock) ∧
      Stray stray ∧ List.Forall₂ Holds es₂ frs₂ ∧ (blks.drop k).flatten ++ ps = stray ++ frs₂.flatten := by
  have hfirst := fun e (he : e ∈ es) => h.firstBlock_le he
  have hcut := h.cutAt hk
  have hflatten := h.flatten
  rw [← take_append_drop k blks, flatten_append, append_assoc] at hflatten
  generalize (blks.take k).flatten = before at hcut hflatten
  cases hcut with
  | @between es₁ es₂ frs₁ frs₂ h₁ h₂ hlast hfirst' =>
    refine ⟨es₁, es₂, frs₂, [], rfl, fun e he => ?_, hfirst', .inl rfl, h₂, ?_⟩
    · exact (hfirst e (mem_append_left _ he)).trans_lt (hlast e he)
    · rw [flatten_append] at hflatten
      exact append_cancel_left hflatten
  | @inside es₁ es₂ frs₁ frs₂ e begun rest h₁ h₂ he hlast hfirst' hbegun hrest hcut =>
    obtain ⟨data, hdata⟩ := Carries.rest he rfl hbegun hrest
    refine ⟨es₁ ++ [e], es₂, frs₂, rest, by simp, fun e' he' => ?_, hfirst', .inr ⟨data, hdata⟩, h₂, ?_⟩
    · rcases mem_append.1 he' with he' | he'
      · exact (hfirst e' (mem_append_left _ he')).trans_lt (hlast e' he')
      · exact mem_singleton.1 he' ▸ hcut.1
    · rw [flatten_append, flatten_cons, append_assoc, append_assoc] at hflatten
      exact append_cancel_left (append_cancel_left hflatten)

/-- The blocks of a writer from the `k`-th on and before the `m`-th. -/
theorem Written.segment (h : Written es frs blks ps) (hkm : k ≤ m) (hm : m ≤ blks.length) :
    Segment k m es ((blks.take m).drop k).flatten := by
  induction h generalizing k m with
  | nil =>
    rw [List.take_nil, List.drop_nil]
    exact @Segment.whole k m [] [] [] [] [] [] (by simp) (by simp) (by simp) (.inl rfl) .nil opened_nil
  | @append es frs blks ps fr data h hdata ih =>
    rcases Nat.lt_or_ge blks.length m with hlt | hge
    · rw [List.length_append] at hm
      obtain ⟨begun, rest, hfr, -, hrest, htake⟩ := deal_take ps fr (show 0 < m - blks.length by omega) (by omega)
      have hall : (blks ++ (deal ps fr).1).take m = blks ++ (deal ps fr).1.take (m - blks.length) := by
        rw [List.take_append, List.take_of_length_le (by omega)]
      rcases Nat.lt_or_ge blks.length k with hlt' | hge'
      · -- Both ends fall between two pieces of the new record.
        obtain ⟨begun', _, _, hbegun', -, htake'⟩ :=
          deal_take ps fr (show 0 < k - blks.length by omega) (by omega)
        have hdrop : (blks ++ (deal ps fr).1.take (m - blks.length)).drop k =
            ((deal ps fr).1.take (m - blks.length)).drop (k - blks.length) := by
          rw [List.drop_append, List.drop_of_length_le (by omega), nil_append]
        have hsplit : begun = begun' ++ (((deal ps fr).1.take (m - blks.length)).drop (k - blks.length)).flatten := by
          have hflatten := congrArg List.flatten
            (take_append_drop (k - blks.length) ((deal ps fr).1.take (m - blks.length)))
          rw [flatten_append, List.take_take, Nat.min_eq_left (by omega), htake', htake, append_assoc]
            at hflatten
          exact (append_cancel_left hflatten).symm
        rw [hall, hdrop]
        obtain ⟨_, hdata'⟩ := Carries.rest hdata
          (show fr = begun' ++ ((((deal ps fr).1.take (m - blks.length)).drop (k - blks.length)).flatten ++ rest) by
            rw [← append_assoc, ← hsplit, hfr]) hbegun' (by simp [hrest])
        refine .middle hdata' fun e he => .inl ?_
        rcases mem_append.1 he with he | he
        · exact ((h.firstBlock_le he).trans (h.lastBlock_le he)).trans_lt hlt'
        · exact mem_singleton.1 he ▸ hlt'
      · obtain ⟨es₁, es₂, frs₂, stray, rfl, hbefore, hfirst, hstray, hholds, hbehind⟩ := h.behind hge'
        have hpieces : ((blks ++ (deal ps fr).1.take (m - blks.length)).drop k).flatten =
            stray ++ (frs₂.flatten ++ begun) := by
          rw [List.drop_append_of_le_length hge', flatten_append, htake, ← append_assoc, hbehind,
            append_assoc]
        rw [hall, hpieces]
        refine .whole hbefore (fun e he => ⟨hfirst e he, ?_⟩) (fun e he => ?_) hstray hholds ⟨data, rest, hrest, ?_⟩
        · exact (h.lastBlock_le (mem_append_right _ he)).trans_lt hlt
        · exact mem_singleton.1 he ▸ hm
        · rw [← hfr]
          exact hdata
    · rw [List.take_append_of_le_length hge]
      exact (ih hkm hge).snoc (hge.trans (Nat.le_add_right _ _))
  | @dump es frs blks ps h ih =>
    rcases Nat.lt_or_ge blks.length m with hlt | hge
    · have hall : (blks ++ [ps]).take m = blks ++ [ps] := List.take_of_length_le (by simp; omega)
      rw [hall]
      rcases Nat.lt_or_ge blks.length k with hlt' | hge'
      · rw [List.drop_of_length_le (by simp; omega)]
        have hbefore : ∀ e ∈ es, e.firstBlock < k := fun e he =>
          ((h.firstBlock_le he).trans (h.lastBlock_le he)).trans_lt hlt'
        have hsegment := @Segment.whole k m es [] [] [] [] [] hbefore (by simp) (by simp) (.inl rfl) .nil opened_nil
        simpa using hsegment
      · obtain ⟨es₁, es₂, frs₂, stray, rfl, hbefore, hfirst, hstray, hholds, hbehind⟩ := h.behind hge'
        have hpieces : ((blks ++ [ps]).drop k).flatten = stray ++ (frs₂.flatten ++ []) := by
          rw [List.drop_append_of_le_length hge', flatten_append, List.flatten_singleton, hbehind, append_nil]
        have hsegment := @Segment.whole k m es₁ es₂ [] frs₂ stray [] hbefore
          (fun e he => ⟨hfirst e he, (h.lastBlock_le (mem_append_right _ he)).trans_lt hlt⟩) (by simp) hstray
          hholds opened_nil
        rw [hpieces]
        rwa [append_nil] at hsegment
    · rw [List.take_append_of_le_length hge]
      exact ih hkm hge

end Segments

/-! ## A damaged block -/

/-- The `i`-th block has been replaced by other bytes. -/
def damage (blockSize i : Nat) (b out : Bytes) : Bytes :=
  out.take (i * blockSize) ++ (b ++ out.drop ((i + 1) * blockSize))

/-- The checksum of the `i`-th block. -/
def checksum (blockSize : Nat) (out : Bytes) (i : Nat) : Int32 := int32At (out.drop (i * blockSize + (blockSize - 4)))

/-- The checksums of all blocks. -/
def checksums (blockSize : Nat) (out : Bytes) : List Int32 :=
  (List.range (out.length / blockSize)).map (checksum blockSize out)

/-- The records of the first `m` blocks none of whose pieces lies in the `n`-th block. -/
def intact (n m : Nat) (es : List Extent) : List Extent :=
  es.filter fun e => e.lastBlock < m ∧ (e.lastBlock < n ∨ n < e.firstBlock)

section Damage

variable {q : ReaderParams} {es : List Extent} {frs blks : List (List Piece)} {ps : List Piece} {prev last : Int32}
  {a : Assembler UInt8} {n : Nat} {b : Bytes}

theorem checksum_chainBytes (h : ∀ fs ∈ blks, Fits q fs) {i : Nat} (hi : i < blks.length) :
    checksum q.block_size_ (chainBytes q prev blks) i = chainEnd q prev (blks.take (i + 1)) := by
  induction blks generalizing prev i with
  | nil => simp at hi
  | cons fs blks ih =>
    have hfs := h fs mem_cons_self
    have hcons : chainBytes q prev (fs :: blks) = blockBytes q prev fs ++ chainBytes q (blockCrc q prev fs) blks := by
      rw [chainBytes, chain, flatMap_cons]
      rfl
    cases i with
    | zero =>
      rw [checksum, hcons, Nat.zero_mul, Nat.zero_add, blockBytes, append_assoc,
        drop_left' (hfs.length_body), int32At_writeInt32]
      rfl
    | succ i =>
      have hi' : i < blks.length := Nat.lt_of_succ_lt_succ hi
      have ih : checksum q.block_size_ (chainBytes q (blockCrc q prev fs) blks) i =
          chainEnd q (blockCrc q prev fs) (blks.take (i + 1)) :=
        ih (fun gs hgs => h gs (mem_cons_of_mem _ hgs)) hi'
      rw [take_succ_cons, chainEnd, ← ih, checksum, checksum, hcons,
        show (i + 1) * q.block_size_ + (q.block_size_ - 4) = q.block_size_ + (i * q.block_size_ + (q.block_size_ - 4))
          by rw [Nat.succ_mul]; omega,
        ← drop_drop, drop_left' (hfs.length_block)]

/-- The blocks before and behind the one that is damaged. -/
theorem damage_chainBytes (h : ∀ fs ∈ blks, Fits q fs) (hn : n < blks.length) :
    damage q.block_size_ n b (chainBytes q 0 blks) =
      (chain q 0 (blks.take n) ++ .damaged b :: chain q (chainEnd q 0 (blks.take (n + 1))) (blks.drop (n + 1))).flatMap
        (Stored.bytes q) := by
  rw [damage, (chainBytes_cut h hn.le).1, (chainBytes_cut h (show n + 1 ≤ blks.length from hn)).2, flatMap_append,
    flatMap_cons]
  rfl

/-- What is delivered from a chain that may be broken at its beginning. -/
theorem delivered_chain : delivered (readAll q a last (chain q prev blks)).1 =
      messages (Assembler.assemble
        (if Broken prev last ∧ a.pending ≠ [] then { a with skip := true } else a) blks.flatten).1 := by
  by_cases hbroken : Broken prev last
  · cases blks with
    | nil => rfl
    | cons fs blks =>
      have hnext : ¬ Broken (blockCrc q prev fs) (blockCrc q prev fs) := fun hbroken => hbroken.2.2 rfl
      rw [chain, readAll_cons, delivered_append, flatten_cons, assemble_append, messages_append]
      by_cases hpending : a.pending = []
      · have hread : readStored q a last (.block prev fs) = ((.crcBlockBroken, []) ::
            resultsOf (a.assemble fs).1, (a.assemble fs).2, blockCrc q prev fs) :=
          (if_pos hbroken).trans (if_pos hpending)
        rw [hread, readAll_chain hnext, delivered_error (by simp), delivered_resultsOf, delivered_resultsOf,
          if_neg fun h => h.2 hpending]
      · have hread : readStored q a last (.block prev fs) =
            (resultsOf (assemble { a with skip := true } fs).1,
              (assemble { a with skip := true } fs).2, blockCrc q prev fs) :=
          (if_pos hbroken).trans (if_neg hpending)
        rw [hread, readAll_chain hnext, delivered_resultsOf, delivered_resultsOf, if_pos ⟨hbroken, hpending⟩]
  · rw [readAll_chain hbroken, delivered_resultsOf, if_neg fun h => hbroken h.1]

section

variable (h : Written es frs blks ps)

include h

/-- The records that are begun before a cut: those that are complete, and one more or not. -/
theorem Written.begun_eq (hn : n ≤ blks.length) :
    (∃ frs₁, es.filter (fun e => e.firstBlock < n) = es.filter (fun e => e.lastBlock < n) ∧
      List.Forall₂ Holds (es.filter fun e => e.lastBlock < n) frs₁ ∧ (blks.take n).flatten = frs₁.flatten) ∨
    (∃ frs₁ e opened rest, es.filter (fun e => e.firstBlock < n) = es.filter (fun e => e.lastBlock < n) ++ [e] ∧
      n ≤ e.lastBlock ∧ List.Forall₂ Holds (es.filter fun e => e.lastBlock < n) frs₁ ∧ Holds e (opened ++ rest) ∧
      opened ≠ [] ∧ rest ≠ [] ∧ (blks.take n).flatten = frs₁.flatten ++ opened) := by
  have hfirst := fun e (he : e ∈ es) => h.firstBlock_le he
  have hcut := h.cutAt hn
  generalize (blks.take n).flatten = pieces at hcut
  have hwhole : ∀ {es₁ : List Extent}, (∀ e ∈ es₁, e ∈ es) → (∀ e ∈ es₁, e.lastBlock < n) →
      es₁.filter (fun e => e.lastBlock < n) = es₁ ∧ es₁.filter (fun e => e.firstBlock < n) = es₁ := by
    intro es₁ hes hlast
    refine ⟨filter_eq_self.2 fun e he => by simpa using hlast e he, filter_eq_self.2 fun e he => ?_⟩
    simpa using (hfirst e (hes e he)).trans_lt (hlast e he)
  have hnone : ∀ {es₂ : List Extent}, (∀ e ∈ es₂, e ∈ es) → (∀ e ∈ es₂, n ≤ e.firstBlock) →
      es₂.filter (fun e => e.lastBlock < n) = [] ∧ es₂.filter (fun e => e.firstBlock < n) = [] := by
    intro es₂ hes hafter
    refine ⟨filter_eq_nil_iff.2 fun e he => ?_, filter_eq_nil_iff.2 fun e he => by simpa using hafter e he⟩
    simpa using (hafter e he).trans (hfirst e (hes e he))
  cases hcut with
  | @between es₁ es₂ frs₁ frs₂ h₁ h₂ hlast hafter =>
    obtain ⟨hl₁, hf₁⟩ := hwhole (fun e he => mem_append_left _ he) hlast
    obtain ⟨hl₂, hf₂⟩ := hnone (fun e he => mem_append_right _ he) hafter
    refine .inl ⟨frs₁, ?_, ?_, rfl⟩
    · rw [filter_append, filter_append, hl₁, hf₁, hl₂, hf₂]
    · rw [filter_append, hl₁, hl₂, append_nil]
      exact h₁
  | @inside es₁ es₂ frs₁ frs₂ e opened rest h₁ h₂ he hlast hafter hopened hrest hspan =>
    obtain ⟨hl₁, hf₁⟩ := hwhole (fun e he => mem_append_left _ he) hlast
    obtain ⟨hl₂, hf₂⟩ := hnone (fun e he => mem_append_right _ (mem_cons_of_mem _ he)) hafter
    have hel : (e :: es₂).filter (fun e => e.lastBlock < n) = [] := by
      rw [filter_cons_of_neg (by simpa using hspan.2), hl₂]
    have hef : (e :: es₂).filter (fun e => e.firstBlock < n) = [e] := by
      rw [filter_cons_of_pos (by simpa using hspan.1), hf₂]
    refine .inr ⟨frs₁, e, opened, rest, ?_, hspan.2, ?_, he, hopened, hrest, rfl⟩
    · rw [filter_append, filter_append, hl₁, hf₁, hel, hef, append_nil]
    · rw [filter_append, hl₁, hel, append_nil]
      exact h₁

/-- What the first blocks give, and whether a record is pending then. -/
theorem Written.before (hn : n ≤ blks.length) : ∃ a, Assembler.assemble {} (blks.take n).flatten =
        (((es.filter fun e => e.lastBlock < n).map Extent.record).map .message, a) ∧
      (a = {} ∧ (∀ e ∈ es, ¬ (e.firstBlock < n ∧ n ≤ e.lastBlock)) ∨
        (∃ p, p ≠ [] ∧ a = ⟨p, false⟩) ∧ ∃ e ∈ es, e.firstBlock < n ∧ n ≤ e.lastBlock) := by
  rcases h.begun_eq hn with ⟨frs₁, hbegun, h₁, hpieces⟩ |
    ⟨frs₁, e, _, _, hbegun, hlast, h₁, he, hopened, hrest, hpieces⟩
  · refine ⟨{}, by rw [hpieces, assemble_messages (carries_records h₁)], .inl ⟨rfl, fun e he hspan => ?_⟩⟩
    have hmem : e ∈ es.filter fun e => e.lastBlock < n := hbegun ▸ mem_filter.2 ⟨he, by simpa using hspan.1⟩
    have hlt : e.lastBlock < n := by simpa using (mem_filter.1 hmem).2
    exact absurd hspan.2 (Nat.not_le.2 hlt)
  · obtain ⟨p, hp, hassemble⟩ := assemble_begun he rfl hopened hrest
    have hmem : e ∈ es.filter fun e => e.firstBlock < n := hbegun ▸ mem_append_right _ mem_cons_self
    refine ⟨⟨p, false⟩, ?_, .inr ⟨⟨p, hp, rfl⟩, e, (mem_filter.1 hmem).1, ?_, hlast⟩⟩
    · rw [hpieces, assemble_append, assemble_messages (carries_records h₁), hassemble,
        append_nil]
    · simpa using (mem_filter.1 hmem).2

/-- The records before the damaged block and behind it. -/
theorem Written.intact_eq (hn : n < blks.length) :
    intact n blks.length es = es.filter (fun e => e.lastBlock < n) ++ inside (n + 1) blks.length es := by
  have hfirst := fun e (he : e ∈ es) => h.firstBlock_le he
  have hparts : ∀ es' : List Extent, (∀ e ∈ es', e ∈ es) →
      ((∀ e ∈ es', e.lastBlock < n) → intact n blks.length es' = es' ∧ es'.filter (fun e => e.lastBlock < n) = es' ∧
        inside (n + 1) blks.length es' = []) ∧
      ((∀ e ∈ es', n ≤ e.lastBlock) → intact n blks.length es' = inside (n + 1) blks.length es' ∧
        es'.filter (fun e => e.lastBlock < n) = []) := by
    intro es' hes'
    constructor
    · intro hlast
      refine ⟨filter_eq_self.2 fun e he => ?_, filter_eq_self.2 fun e he => ?_,
        filter_eq_nil_iff.2 fun e he => ?_⟩
      · have := hlast e he
        simp
        omega
      · simpa using hlast e he
      · have := hlast e he
        have := hfirst e (hes' e he)
        simp
        omega
    · intro hlast
      refine ⟨filter_congr fun e he => ?_, filter_eq_nil_iff.2 fun e he => ?_⟩
      · have := hlast e he
        simp only [decide_eq_decide]
        omega
      · simpa using hlast e he
  have hcut := h.cutAt hn.le
  have happend : ∀ es₁ es₂ : List Extent, es = es₁ ++ es₂ → (∀ e ∈ es₁, e.lastBlock < n) →
      (∀ e ∈ es₂, n ≤ e.lastBlock) →
      intact n blks.length es = es.filter (fun e => e.lastBlock < n) ++ inside (n + 1) blks.length es := by
    rintro es₁ es₂ rfl hlast hafter
    obtain ⟨h₁, h₂, h₃⟩ := (hparts es₁ fun e he => mem_append_left _ he).1 hlast
    obtain ⟨h₄, h₅⟩ := (hparts es₂ fun e he => mem_append_right _ he).2 hafter
    rw [intact, filter_append, ← intact, ← intact, filter_append, inside, filter_append, ← inside,
      ← inside, h₁, h₂, h₃, h₄, h₅, append_nil, nil_append]
  generalize (blks.take n).flatten = before at hcut
  cases hcut with
  | @between es₁ es₂ frs₁ frs₂ h₁ h₂ hlast hfirst' =>
    exact happend es₁ es₂ rfl hlast fun e he =>
      (hfirst' e he).trans (hfirst e (mem_append_right _ he))
  | @inside es₁ es₂ frs₁ frs₂ e begun rest h₁ h₂ he hlast hfirst' hbegun hrest hcut =>
    refine happend es₁ (e :: es₂) rfl hlast fun e' he' => ?_
    rcases mem_cons.1 he' with rfl | he'
    · exact hcut.2
    · exact (hfirst' e' he').trans (hfirst e' (mem_append_right _ (mem_cons_of_mem _ he')))

/-- Where the block behind the damaged one is out of order, the records that do not touch the damaged block are
delivered when no record was pending, or when none of them lies behind it. -/
theorem Written.damaged_iff (hn : n < blks.length)
    (hbroken : 0 < n → Broken (chainEnd q 0 (blks.take (n + 1))) (chainEnd q 0 (blks.take n))) :
    ((intact n blks.length es).map Extent.record).Sublist (delivered (readAll q {} 0
        (chain q 0 (blks.take n) ++ .damaged b :: chain q (chainEnd q 0 (blks.take (n + 1))) (blks.drop (n + 1)))).1) ↔
      (∀ e ∈ es, ¬ (e.firstBlock < n ∧ n ≤ e.lastBlock)) ∨ ∀ e ∈ es, e.lastBlock < blks.length → e.firstBlock ≤ n := by
  obtain ⟨a, hbefore, hpending⟩ := h.before hn.le
  have hsegment := h.segment (show n + 1 ≤ blks.length from hn) le_rfl
  rw [take_length] at hsegment
  have hstart : ¬ Broken 0 0 := fun hbroken => hbroken.1 rfl
  have hlast : (if blks.take n = [] then 0 else chainEnd q 0 (blks.take n)) = chainEnd q 0 (blks.take n) := by
    split_ifs with hnil
    · rw [hnil]
      rfl
    · rfl
  have hdelivered : delivered (readAll q {} 0
      (chain q 0 (blks.take n) ++ .damaged b :: chain q (chainEnd q 0 (blks.take (n + 1))) (blks.drop (n + 1)))).1 =
      (es.filter fun e => e.lastBlock < n).map Extent.record ++ messages (assemble
        (if Broken (chainEnd q 0 (blks.take (n + 1))) (chainEnd q 0 (blks.take n)) ∧ a.pending ≠ [] then
          { a with skip := true } else a) (blks.drop (n + 1)).flatten).1 := by
    rw [readAll_append, readAll_chain hstart, hbefore, hlast, readAll_cons, readStored, delivered_append,
      delivered_resultsOf, messages_map, singleton_append, delivered_error (by simp), delivered_chain]
  rw [hdelivered, h.intact_eq hn, map_append, append_sublist_append_left]
  have hmem : ∀ {e : Extent}, e ∈ inside (n + 1) blks.length es ↔ e ∈ es ∧ n + 1 ≤ e.firstBlock ∧ e.lastBlock < blks.length := by
    intro e
    simp [inside]
  rcases hpending with ⟨rfl, hclean⟩ | ⟨⟨p, hp, rfl⟩, e, he, hspan⟩
  · rw [if_neg fun h => h.2 rfl, hsegment.delivered]
    exact iff_of_true (Sublist.refl _) (.inl hclean)
  · obtain ⟨k, hlost⟩ := hsegment.delivered_skipped hp
    rw [if_pos ⟨hbroken (by omega), hp⟩, hlost]
    constructor
    · -- One record less cannot have all of them.
      intro hsub
      refine .inr fun e he hlast => Nat.not_lt.1 fun hfirst => ?_
      have hlen := hsub.length_le
      have hpos := length_pos_of_mem (hmem.2 ⟨he, hfirst, hlast⟩)
      rw [length_drop, length_map] at hlen
      omega
    · rintro (hclean | hnone)
      · exact absurd hspan (hclean e he)
      · have hnil : inside (n + 1) blks.length es = [] := by
          rw [eq_nil_iff_forall_not_mem]
          intro e he
          have hin := hmem.1 he
          have := hnone e hin.1 hin.2.2
          omega
        rw [hnil]
        exact nil_sublist _

end

end Damage

/-- One block of what a writer has put out is damaged, and all checksums differ. Every record that has no piece in
that block is delivered when no record goes on from the block before into the damaged one, or when no record begins
behind it and is complete; and only then. -/
theorem damage_contained_iff (p : WriterParams) (hp : p.Admitted) (hplain : p.deflate = none)
    (inflate : Bytes → Bool × Bytes) (calls : List WriterCall) (hcalls : ∀ call ∈ calls, call.Proper) {s : Recording}
    (hs : record p calls = some s) {n : Nat} (hn : n < s.out.length / p.block_size_) {b : Bytes}
    (hb : Damaged (p.reader inflate) b) (hcrc : ((0 : Int32) :: checksums p.block_size_ s.out).Nodup) :
    (∃ records, deliveredFrom (p.reader inflate) (damage p.block_size_ n b s.out) = some records ∧
      ((intact n (s.out.length / p.block_size_) s.extents).map Extent.record).Sublist records) ↔
      (∀ e ∈ s.extents, ¬ (e.firstBlock < n ∧ n ≤ e.lastBlock)) ∨
        ∀ e ∈ s.extents, e.lastBlock < s.out.length / p.block_size_ → e.firstBlock ≤ n := by
  obtain ⟨s', _, blks, _, hrun, hinv, -⟩ := run_written hp hplain inflate hcalls
  obtain rfl : s = s' := Option.some.inj (hs.symm.trans hrun)
  have hpos : 0 < (p.reader inflate).block_size_ := Nat.lt_of_le_of_lt (Nat.zero_le _) hp.room
  have hsize : (p.reader inflate).block_size_ = p.block_size_ := rfl
  have hcount : s.out.length / p.block_size_ = blks.length := by
    rw [hinv.out, length_chainBytes hinv.fits]
    exact Nat.mul_div_cancel _ hpos
  rw [hcount] at hn ⊢
  have hok : ∀ t ∈ chain (p.reader inflate) 0 (blks.take n) ++
      .damaged b :: chain (p.reader inflate) (chainEnd (p.reader inflate) 0 (blks.take (n + 1))) (blks.drop (n + 1)),
      t.Ok (p.reader inflate) := by
    intro t ht
    rcases mem_append.1 ht with ht | ht
    · exact chain_ok (fun fs hfs => hinv.fits fs (mem_of_mem_take hfs)) t ht
    · rcases mem_cons.1 ht with rfl | ht
      · exact hb
      · exact chain_ok (fun fs hfs => hinv.fits fs (mem_of_mem_drop hfs)) t ht
  have hread := deliveredFrom_blocks hok hpos
  rw [← damage_chainBytes hinv.fits hn, ← hinv.out, hsize] at hread
  rw [hread, ← hinv.written.damaged_iff hn (q := p.reader inflate) (b := b)]
  · simp
  · -- The checksums of the block before and of the damaged one.
    intro hpos'
    have hcrcs : ∀ i < blks.length, checksum p.block_size_ s.out i = chainEnd (p.reader inflate) 0 (blks.take (i + 1)) := by
      intro i hi
      rw [hinv.out]
      exact checksum_chainBytes hinv.fits hi
    rw [nodup_cons, checksums, hcount, nodup_map_iff_inj_on nodup_range] at hcrc
    obtain ⟨hzero, hinj⟩ := hcrc
    have hne : ∀ i < blks.length, chainEnd (p.reader inflate) 0 (blks.take (i + 1)) ≠ 0 := fun i hi hnil =>
      hzero (mem_map.2 ⟨i, mem_range.2 hi, (hcrcs i hi).trans hnil⟩)
    have hprev := hne (n - 1) (by omega)
    rw [show n - 1 + 1 = n by omega] at hprev
    refine ⟨hne n hn, hprev, fun heq => ?_⟩
    have hsame := hinj n (mem_range.2 hn) (n - 1) (mem_range.2 (by omega)) (by
      rw [hcrcs n hn, hcrcs (n - 1) (by omega), show n - 1 + 1 = n by omega, heq])
    omega

/-- A record of two blocks, and one in a block of its own. -/
def twoRecords : List WriterCall := [.stream (List.replicate 30 7), .finalize, .stream [1], .finalize]

theorem zeros_damaged : Damaged ((smallBlocks none).reader noInflate) (List.replicate 40 0) where
  length := rfl
  trailer := show 12 ≤ 40 by decide
  differs := by decide +kernel

theorem damage_contained_small : ∃ s, record (smallBlocks none) twoRecords = some s ∧
      ((∃ records, deliveredFrom ((smallBlocks none).reader noInflate) (damage 40 1 (List.replicate 40 0) s.out) =
          some records ∧ ((intact 1 (s.out.length / 40) s.extents).map Extent.record).Sublist records) ↔
        (∀ e ∈ s.extents, ¬ (e.firstBlock < 1 ∧ 1 ≤ e.lastBlock)) ∨
          ∀ e ∈ s.extents, e.lastBlock < s.out.length / 40 → e.firstBlock ≤ 1) := by
  have hrun : (record (smallBlocks none) twoRecords).any
      (fun s => 1 < s.out.length / 40 ∧ ((0 : Int32) :: checksums 40 s.out).Nodup) = true := by decide +kernel
  obtain ⟨s, hs, hrun⟩ := (Option.any_eq_true _ _).1 hrun
  rw [decide_eq_true_iff] at hrun
  exact ⟨s, hs, damage_contained_iff (smallBlocks none) (smallBlocks_admitted none) rfl noInflate twoRecords
    (by decide) hs hrun.1 zeros_damaged hrun.2⟩

/-- The second of three blocks is damaged, in which the first record ends. The record in the third one is lost. -/
theorem damaged_end_of_record_loses_next : ∃ s, record (smallBlocks none) twoRecords = some s ∧ s.out.length = 3 * 40 ∧
      ((0 : Int32) :: checksums 40 s.out).Nodup ∧ (intact 1 3 s.extents).map Extent.record = [[1]] ∧
      deliveredFrom ((smallBlocks none).reader noInflate) (damage 40 1 (List.replicate 40 0) s.out) = some [] := by
  have hrun : (record (smallBlocks none) twoRecords).any
      (fun s => s.out.length = 3 * 40 ∧ ((0 : Int32) :: checksums 40 s.out).Nodup ∧
        (intact 1 3 s.extents).map Extent.record = [[1]] ∧
        deliveredFrom ((smallBlocks none).reader noInflate) (damage 40 1 (replicate 40 0) s.out) = some []) =
      true := by decide +kernel
  obtain ⟨s, hs, hrun⟩ := (Option.any_eq_true _ _).1 hrun
  exact ⟨s, hs, of_decide_eq_true hrun⟩

end Whispercast.Logio
