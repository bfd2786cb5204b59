import Whispercast.Stream.TagSplitter

/-!
# What composition keeps

`GetNextTag` is called up to the end of the stream, and every composed tag is replaced by the tags inside it. The
splitter composes into one composed tag after another; the tags of the one that is open are a segment of the answers, so
the splitter is described by this segment. Nothing is lost as long as the open segment is closed by a tag, by its size
or by `READ_NO_DATA` at the end. `READ_EOF` drops it.
-/

namespace Whispercast.Stream

open ComposedTag List TagSplitter
open Flv (TagReadStatus Attributes)

variable {Body : TagType → Type} (cls : TagMethods Body)

/-! ## The segment of the open composed tag -/

/-- The timestamp of a composed tag is that of its first tag. -/
def start : List (Tag Body × Int) → Int
  | [] => 0
  | first :: _ => first.2

/-- The tags store the timestamps with which they came, or came with that of the first one. -/
def Agree (segment : List (Tag Body × Int)) : Prop :=
  ∀ e ∈ segment, (cls.timestamp_ms e.1).getD (start segment) = e.2

/-- A tag goes with a segment: the type is the same, and the timestamp can be found again. -/
def Joins (segment : List (Tag Body × Int)) (tag : Tag Body) (timestamp_ms : Int) : Prop :=
  (∀ e ∈ segment.head?, e.1.type_ = tag.type_) ∧
    (cls.timestamp_ms tag).getD (start (segment ++ [(tag, timestamp_ms)])) = timestamp_ms

/-- A segment that is full or long enough is not open any more. -/
def stillOpen (max : Int) (segment : List (Tag Body × Int)) : List (Tag Body × Int) :=
  if kMaxSize ≤ segment.length ∨ max < (segment.map fun e => cls.duration_ms e.1).sum then [] else segment

/-- What the answers have to be like behind an open segment; `added` says that the last answer was composed.

* A composable tag joins the open segment.
* `READ_SKIP` behind a tag that was composed clears `*tag`.
* `READ_EOF` does not come while a segment is open. -/
def Composes (last : TagReadStatus) (max : Int) : List (Tag Body × Int) → Bool → List (Answer Body) → Prop
  | opened, _, [] => opened = [] ∨ last = .noData
  | opened, added, .failed f :: rest =>
    (f.status = .skip → added → opened ≠ [] → f.clears = true) ∧ Composes last max opened false rest
  | opened, _, .ok tag ts :: rest =>
    if tag.IsComposable ∧ (opened ≠ [] ∨ 0 < max) then
      Joins cls opened tag ts ∧ Composes last max (stillOpen cls max (opened ++ [(tag, ts)])) true rest
    else Composes last max [] false rest

/-- Nothing depends on the last answer when no segment is open. -/
theorem composes_nil (last : TagReadStatus) (max : Int) (added : Bool) (answers : List (Answer Body)) :
    Composes cls last max [] added answers ↔ Composes cls last max [] false answers := by
  cases answers with
  | nil => simp only [Composes]
  | cons a rest =>
    cases a with
    | ok tag ts => simp only [Composes]
    | failed f => simp [Composes]

/-- The attributes of all tags of a segment are those of the composed tag. -/
def gathered (segment : List (Tag Body × Int)) : ComposedTag Body :=
  segment.foldl (fun c e => c.add_attributes e.1.attributes_) ComposedTag.initial

/-- The composed tag with the tags of a segment. -/
def composed (first : Tag Body × Int) (segment : List (Tag Body × Int)) : ComposedTag Body where
  attributes_ := (gathered segment).attributes_
  sub_tag_type_ := some first.1.type_
  tags_ := segment.map Prod.fst

/-- The splitter with an open segment. -/
def composing (max : Int) : List (Tag Body × Int) → TagSplitter Body
  | [] => ⟨none, max, none⟩
  | first :: others => ⟨none, max, some (composed first (first :: others), first.2)⟩

theorem start_append {segment : List (Tag Body × Int)} (h : segment ≠ []) (more : List (Tag Body × Int)) :
    start (segment ++ more) = start segment := by
  cases segment with
  | nil => exact absurd rfl h
  | cons first others => rfl

variable (first : Tag Body × Int)

/-- Adding a tag of the type of the segment. -/
theorem composed_add_tag (segment : List (Tag Body × Int)) {tag : Tag Body} (ts : Int)
    (h : first.1.type_ = tag.type_) :
    (composed first segment).add_tag tag ts = some (composed first (segment ++ [(tag, ts)])) := by
  have htype : (composed first segment).sub_tag_type_.getD tag.type_ = tag.type_ := h
  rw [add_tag, if_pos htype]
  simp only [composed, gathered, add_attributes, foldl_append, foldl_cons, foldl_nil,
    map_append, map_cons, map_nil, h]

/-- A tag of another type makes the `CHECK` fail. -/
theorem composed_add_tag_of_ne (segment : List (Tag Body × Int)) {tag : Tag Body} (ts : Int)
    (h : first.1.type_ ≠ tag.type_) : (composed first segment).add_tag tag ts = none :=
  if_neg h

/-- The first tag of a composed tag. -/
theorem initial_add_tag (tag : Tag Body) (ts : Int) :
    ComposedTag.initial.add_tag tag ts = some (composed (tag, ts) [(tag, ts)]) := by
  have htype : (initial : ComposedTag Body).sub_tag_type_.getD tag.type_ = tag.type_ := rfl
  rw [add_tag, if_pos htype]
  rfl

/-- The splitter is ready to read while the segment is open. -/
theorem unsent_composing {max : Int} {segment : List (Tag Body × Int)} (h : stillOpen cls max segment = segment) :
    (composing max segment).unsent cls = none := by
  cases segment with
  | nil => rfl
  | cons first others =>
    have hopen : ¬ (kMaxSize ≤ (first :: others).length ∨
        max < ((first :: others).map fun e => cls.duration_ms e.1).sum) := by
      intro hclosed
      rw [stillOpen, if_pos hclosed] at h
      exact cons_ne_nil _ _ h.symm
    have hmap : (first :: others).map (fun e => cls.duration_ms e.1) =
        ((first :: others).map Prod.fst).map cls.duration_ms := by
      rw [map_map]
      rfl
    rw [hmap] at hopen
    simp only [composing, unsent, composed, is_full, duration_ms,
      length_map, decide_eq_true_eq]
    exact if_neg hopen

/-- The composed tag is sent when the segment is not open any more. -/
theorem unsent_closed {max : Int} {first : Tag Body × Int} {others : List (Tag Body × Int)}
    (h : stillOpen cls max (first :: others) = []) :
    (composing max (first :: others)).unsent cls =
      some ((.composed (composed first (first :: others)), first.2), composing max []) := by
  have hclosed : kMaxSize ≤ (first :: others).length ∨
      max < ((first :: others).map fun e => cls.duration_ms e.1).sum := by
    by_contra hopen
    rw [stillOpen, if_neg hopen] at h
    exact cons_ne_nil _ _ h
  have hmap : (first :: others).map (fun e => cls.duration_ms e.1) =
      ((first :: others).map Prod.fst).map cls.duration_ms := by
    rw [map_map]
    rfl
  rw [hmap] at hclosed
  simp only [composing, unsent, composed, is_full, duration_ms,
    length_map, decide_eq_true_eq]
  exact if_pos hclosed

/-- The tags that the composed tag of a segment is replaced by. -/
theorem unpack_composed (others : List (Tag Body × Int)) :
    SentTag.unpack cls (.composed (composed first (first :: others)), first.2) =
      (first :: others).map fun e => (e.1, (cls.timestamp_ms e.1).getD first.2) := by
  simp only [SentTag.unpack, composed, map_map]
  rfl

/-- They are the tags of the segment when the timestamps can be found again. -/
theorem unpack_composed_of_agree {first : Tag Body × Int} {others : List (Tag Body × Int)}
    (h : Agree cls (first :: others)) :
    SentTag.unpack cls (.composed (composed first (first :: others)), first.2) = first :: others := by
  rw [unpack_composed]
  have hid : ∀ e ∈ first :: others, (e.1, (cls.timestamp_ms e.1).getD first.2) = e := by
    intro e he
    exact Prod.ext rfl (h e he)
  rw [map_congr_left hid, map_id']

/-! ## Calls up to the end -/

namespace Behaviour

variable (b : Behaviour Body)

/-- From this call on, the calls deliver these tags. -/
def Delivers (call : Option (Call Body)) (tags : List (Tag Body × Int)) : Prop :=
  ∃ sent, b.Drained cls call sent ∧ sent.flatMap (SentTag.unpack cls) = tags

/-- The tags that the subclass returned are delivered, in their order and with their timestamps. -/
def KeepsTags (max : Int) : Prop :=
  b.Delivers cls (b.next cls (composing max []) b.answers) (b.answers.filterMap Answer.tag)

variable {cls b}

theorem not_delivers_none (tags : List (Tag Body × Int)) : ¬ b.Delivers cls none tags := by
  rintro ⟨_, hsent, -⟩
  cases hsent

variable {sent : List (SentTag Body × Int)}

/-- At `READ_EOF` nothing more is sent. -/
theorem drained_eof {call : Call Body} (h : call.status = .eof) : b.Drained cls (some call) sent ↔ sent = [] := by
  constructor
  · intro hsent
    cases hsent with
    | eof _ => rfl
    | sent hok _ _ => exact absurd (h.symm.trans hok) (by decide)
    | again hagain _ =>
      rcases hagain with hskip | hnoData
      · exact absurd (h.symm.trans hskip) (by decide)
      · exact absurd (h.symm.trans hnoData) (by decide)
  · rintro rfl
    exact .eof h

theorem delivers_eof {call : Call Body} (h : call.status = .eof) (tags : List (Tag Body × Int)) :
    b.Delivers cls (some call) tags ↔ tags = [] := by
  simp only [Delivers, drained_eof h]
  constructor
  · rintro ⟨-, rfl, rfl⟩
    rfl
  · rintro rfl
    exact ⟨[], rfl, rfl⟩

variable {tag : SentTag Body × Int} {s : TagSplitter Body} {left : List (Answer Body)}

/-- A tag is sent. -/
theorem drained_sent : b.Drained cls (some ⟨.ok, some tag, s, left⟩) sent ↔
      ∃ others, sent = tag :: others ∧ b.Drained cls (b.next cls s left) others := by
  constructor
  · intro hsent
    cases hsent with
    | eof h => exact TagReadStatus.noConfusion h
    | sent _ htag rest =>
      cases htag
      exact ⟨_, rfl, rest⟩
    | again h _ =>
      rcases h with hskip | hnoData
      · exact TagReadStatus.noConfusion hskip
      · exact TagReadStatus.noConfusion hnoData
  · rintro ⟨others, rfl, hothers⟩
    exact .sent rfl rfl hothers

theorem delivers_sent {first tags : List (Tag Body × Int)} (h : SentTag.unpack cls tag = first) :
    b.Delivers cls (some ⟨.ok, some tag, s, left⟩) (first ++ tags) ↔ b.Delivers cls (b.next cls s left) tags := by
  constructor
  · rintro ⟨_, hsent, hflat⟩
    obtain ⟨others, rfl, hothers⟩ := drained_sent.1 hsent
    rw [flatMap_cons, h] at hflat
    exact ⟨others, hothers, append_cancel_left hflat⟩
  · rintro ⟨others, hothers, rfl⟩
    refine ⟨tag :: others, drained_sent.2 ⟨others, rfl, hothers⟩, ?_⟩
    rw [flatMap_cons, h]

/-- A tag that is sent when no other is due. -/
theorem delivers_sent_last (s : TagSplitter Body) (left : List (Answer Body))
    {first : List (Tag Body × Int)} (h : SentTag.unpack cls tag = first) :
    b.Delivers cls (some ⟨.ok, some tag, s, left⟩) first ↔ b.Delivers cls (b.next cls s left) [] := by
  rw [← delivers_sent h, append_nil]

/-- The call is made again. -/
theorem drained_again {status : TagReadStatus} (h : status = .skip ∨ status = .noData)
    {tag : Option (SentTag Body × Int)} :
    b.Drained cls (some ⟨status, tag, s, left⟩) sent ↔ b.Drained cls (b.next cls s left) sent := by
  constructor
  · intro hsent
    cases hsent with
    | eof heof =>
      rcases h with rfl | rfl
      · exact TagReadStatus.noConfusion heof
      · exact TagReadStatus.noConfusion heof
    | sent hok _ _ =>
      rcases h with rfl | rfl
      · exact TagReadStatus.noConfusion hok
      · exact TagReadStatus.noConfusion hok
    | again _ rest => exact rest
  · intro hrest
    exact Drained.again h hrest

theorem delivers_again {status : TagReadStatus} (h : status = .skip ∨ status = .noData)
    {tag : Option (SentTag Body × Int)}
    {tags : List (Tag Body × Int)} :
    b.Delivers cls (some ⟨status, tag, s, left⟩) tags ↔ b.Delivers cls (b.next cls s left) tags := by
  simp only [Delivers, drained_again h]

end Behaviour

/-! ## One pass of the loop -/

section Pass

variable (last : Failure) (is_at_eos : Bool) (tag : Option (SentTag Body × Int))

variable {s' : TagSplitter Body}

theorem getNextTag_unsent {s : TagSplitter Body} {sent : SentTag Body × Int} (h : s.unsent cls = some (sent, s'))
    (answers : List (Answer Body)) :
    s.getNextTag cls last is_at_eos tag answers = some ⟨.ok, some sent, s', answers⟩ := by
  rw [getNextTag.eq_def, h]

variable {s : TagSplitter Body} (h : s.unsent cls = none)

include h

theorem getNextTag_nil : s.getNextTag cls last is_at_eos tag [] = s.failed tag last is_at_eos [] := by
  rw [getNextTag.eq_def, h]

theorem getNextTag_failed (f : Failure) (rest : List (Answer Body)) :
    s.getNextTag cls last is_at_eos tag (.failed f :: rest) = s.failed tag f is_at_eos rest := by
  rw [getNextTag.eq_def, h]

theorem getNextTag_again {read : Tag Body} {ts : Int}
    (htake : s.takeTag read ts = some (.again s')) (rest : List (Answer Body)) :
    s.getNextTag cls last is_at_eos tag (.ok read ts :: rest) =
      s'.getNextTag cls last is_at_eos (some (.tag read, ts)) rest := by
  rw [getNextTag.eq_def, h]
  simp only [htake]

theorem getNextTag_send {read : Tag Body} {ts : Int} {sent : SentTag Body × Int}
    (htake : s.takeTag read ts = some (.send sent s')) (rest : List (Answer Body)) :
    s.getNextTag cls last is_at_eos tag (.ok read ts :: rest) = some ⟨.ok, some sent, s', rest⟩ := by
  rw [getNextTag.eq_def, h]
  simp only [htake]

theorem getNextTag_none {read : Tag Body} {ts : Int} (htake : s.takeTag read ts = none) (rest : List (Answer Body)) :
    s.getNextTag cls last is_at_eos tag (.ok read ts :: rest) = none := by
  rw [getNextTag.eq_def, h]
  simp only [htake]

end Pass

section Take

variable {max : Int} {segment : List (Tag Body × Int)} {read : Tag Body} (ts : Int)

variable (max) in
/-- A composable tag of the type of the segment is composed. -/
theorem takeTag_joins (hread : read.IsComposable = true) (hopen : segment ≠ [] ∨ 0 < max)
    (htype : ∀ e ∈ segment.head?, e.1.type_ = read.type_) :
    (composing max segment).takeTag read ts = some (.again (composing max (segment ++ [(read, ts)]))) := by
  cases segment with
  | nil =>
    have hpos : 0 < max := hopen.resolve_left fun hne => hne rfl
    simp only [composing, takeTag, if_pos (And.intro hpos hread), initial_add_tag]
    rfl
  | cons first others =>
    have hfirst : first.1.type_ = read.type_ := htype first rfl
    simp only [composing, takeTag, if_pos hread, composed_add_tag first _ ts hfirst]
    rfl

/-- A composable tag of another type is not. -/
theorem takeTag_of_ne (hread : read.IsComposable = true) (htype : ¬ ∀ e ∈ segment.head?, e.1.type_ = read.type_) :
    (composing max segment).takeTag read ts = none := by
  cases segment with
  | nil => exact absurd (fun e he => nomatch he) htype
  | cons first others =>
    have hfirst : first.1.type_ ≠ read.type_ := by
      intro heq
      refine htype fun e he => ?_
      cases he
      exact heq
    simp only [composing, takeTag, if_pos hread, composed_add_tag_of_ne first _ ts hfirst]
    rfl

/-- A tag that is not composable closes the segment and waits. -/
theorem takeTag_breaks (first : Tag Body × Int) (others : List (Tag Body × Int)) (hread : ¬ read.IsComposable = true) :
    (composing max (first :: others)).takeTag read ts =
      some (.send (.composed (composed first (first :: others)), first.2) ⟨some (read, ts), max, none⟩) := by
  simp only [composing, takeTag, if_neg hread]

/-- Without a segment, a tag that is not composed is sent. -/
theorem takeTag_alone (hread : ¬ (0 < max ∧ read.IsComposable = true)) :
    (composing max []).takeTag read ts = some (.send (.tag read, ts) (composing max [])) := by
  simp only [composing, takeTag]
  exact if_neg hread

end Take

section Failed

variable (max : Int) (segment : List (Tag Body × Int)) (tag : Option (SentTag Body × Int)) {f : Failure}
  (left : List (Answer Body))

/-- Without data, and more to come, the segment stays open. -/
theorem failed_more (h : f.status = .noData) :
    ∃ tag', (composing max segment).failed tag f false left = some ⟨.noData, tag', composing max segment, left⟩ := by
  cases segment with
  | nil => exact ⟨_, if_pos h⟩
  | cons first others => exact ⟨_, if_pos h⟩

/-- Without data at the end, the composed tag is sent. -/
theorem failed_over (h : f.status = .noData) (first : Tag Body × Int) (others : List (Tag Body × Int)) :
    (composing max (first :: others)).failed tag f true left =
      some ⟨.ok, some (.composed (composed first (first :: others)), first.2), composing max [], left⟩ :=
  if_pos h

variable (Body) in
/-- Without data at the end, and no composed tag, this is the end. -/
theorem failed_end (h : f.status = .noData) :
    ∃ tag', (composing max []).failed tag f true left = some ⟨.eof, tag', (composing max [] : TagSplitter Body), left⟩ :=
  ⟨_, if_pos h⟩

/-- Another status is returned when `*tag` is empty. -/
theorem failed_status (h : f.status ≠ .noData) (is_at_eos : Bool) (htag : f.clears = true ∨ tag = none) :
    (composing max segment).failed tag f is_at_eos left = some ⟨f.status, none, composing max segment, left⟩ := by
  have hnone : (if f.clears = true then none else tag) = none := by
    rcases htag with hclears | rfl
    · exact if_pos hclears
    · exact ite_self none
  unfold failed
  rw [hnone, if_neg h]
  rfl

/-- The `CHECK` fails when `*tag` still holds a tag. -/
theorem failed_stale (h : f.status ≠ .noData) (is_at_eos : Bool) (hclears : f.clears = false) (htag : tag ≠ none) :
    (composing max segment).failed tag f is_at_eos left = none := by
  have hsome : (if f.clears = true then none else tag) = tag := by rw [hclears, if_neg Bool.false_ne_true]
  unfold failed
  rw [hsome, if_neg h]
  refine if_neg ?_
  rw [Option.isNone_iff_eq_none]
  exact htag

end Failed

/-- A segment is open or it is not. -/
theorem stillOpen_cases (max : Int) (segment : List (Tag Body × Int)) :
    stillOpen cls max segment = segment ∨ stillOpen cls max segment = [] := by
  rw [stillOpen]
  split_ifs with h
  · exact .inr rfl
  · exact .inl rfl

namespace Behaviour

variable {cls} {b : Behaviour Body}

/-- What waits is sent in a call of its own. -/
theorem delivers_waiting (max : Int) (read : Tag Body) (ts : Int) (left : List (Answer Body))
    (tags : List (Tag Body × Int)) :
    b.Delivers cls (b.next cls ⟨some (read, ts), max, none⟩ left) ((read, ts) :: tags) ↔
      b.Delivers cls (b.next cls (composing max []) left) tags := by
  have hcall : b.next cls ⟨some (read, ts), max, none⟩ left =
      some ⟨.ok, some (.tag read, ts), composing max [], left⟩ :=
    getNextTag_unsent cls b.last _ none rfl left
  rw [hcall]
  exact delivers_sent (show SentTag.unpack cls _ = [(read, ts)] from rfl)

/-- What the caller passes fits the answers to come. -/
structure Fits (b : Behaviour Body) (is_at_eos : Bool) (left : List (Answer Body)) : Prop where
  more : (∃ a ∈ left, a.IsNoData) → is_at_eos = false
  exhausted : (∀ a ∈ left, ¬ a.IsNoData) → b.last.status = .noData → is_at_eos = true

theorem fits {left : List (Answer Body)} (h : left <:+ b.answers) : b.Fits (b.is_at_eos left) left :=
  ⟨b.more left h, b.exhausted left h⟩

variable {is_at_eos : Bool}

/-- It still fits when a tag is read. -/
theorem Fits.read {read : Tag Body} {ts : Int} {rest : List (Answer Body)}
    (h : b.Fits is_at_eos (.ok read ts :: rest)) : b.Fits is_at_eos rest := by
  refine ⟨fun ⟨a, ha, hno⟩ => h.more ⟨a, mem_cons_of_mem _ ha, hno⟩, fun hnone => h.exhausted ?_⟩
  intro a ha
  rcases mem_cons.1 ha with rfl | hrest
  · exact not_false
  · exact hnone a hrest

theorem Fits.noData {f : Failure} {rest : List (Answer Body)}
    (h : b.Fits is_at_eos (.failed f :: rest)) (hf : f.status = .noData) : is_at_eos = false :=
  h.more ⟨_, mem_cons_self, hf⟩

variable {answers : List (Answer Body)}

/-- A composed tag that is closed is what is sent first. -/
theorem sent_closed {max : Int} {first : Tag Body × Int} {others : List (Tag Body × Int)}
    (hclosed : stillOpen cls max (first :: others) = []) {tag : Option (SentTag Body × Int)} {sent : List (SentTag Body × Int)}
    (h : b.Drained cls
      ((composing max (first :: others)).getNextTag cls b.last is_at_eos tag answers) sent) :
    ∃ rest, sent = (.composed (composed first (first :: others)), first.2) :: rest := by
  rw [getNextTag_unsent cls b.last is_at_eos tag (unsent_closed cls hclosed)] at h
  obtain ⟨rest, rfl, -⟩ := drained_sent.1 h
  exact ⟨rest, rfl⟩

/-- The composed tag that is open keeps its tags until it is sent, or nothing is sent any more. -/
theorem sent_first (max : Int) (is_at_eos : Bool) (first : Tag Body × Int) (others : List (Tag Body × Int))
    (tag : Option (SentTag Body × Int)) (hanswers : answers <:+ b.answers)
    (hfits : b.Fits is_at_eos answers) {sent : List (SentTag Body × Int)}
    (h : b.Drained cls
      ((composing max (first :: others)).getNextTag cls b.last is_at_eos tag answers) sent) :
    sent = [] ∨ ∃ more rest,
      sent = (.composed (composed first (first :: others ++ more)), first.2) :: rest := by
  induction answers generalizing others tag is_at_eos sent with
  | nil =>
    rcases stillOpen_cases cls max (first :: others) with hopen | hclosed
    · rw [getNextTag_nil cls b.last is_at_eos tag (unsent_composing cls hopen)] at h
      rcases b.ended with heof | hnoData
      · have hne : b.last.status ≠ .noData := by simp [heof]
        by_cases htag : b.last.clears = true ∨ tag = none
        · rw [failed_status max _ tag [] hne is_at_eos htag] at h
          exact .inl ((drained_eof heof).1 h)
        · rw [not_or, Bool.not_eq_true] at htag
          rw [failed_stale max _ tag [] hne is_at_eos htag.1 htag.2] at h
          cases h
      · rw [hfits.exhausted (fun a ha => absurd ha not_mem_nil) hnoData, failed_over max tag [] hnoData] at h
        obtain ⟨rest, rfl, -⟩ := drained_sent.1 h
        exact .inr ⟨[], rest, by rw [append_nil]⟩
    · obtain ⟨rest, rfl⟩ := sent_closed hclosed h
      exact .inr ⟨[], rest, by rw [append_nil]⟩
  | cons a answers ih =>
    have hsuffix : answers <:+ b.answers := (suffix_cons a answers).trans hanswers
    rcases stillOpen_cases cls max (first :: others) with hopen | hclosed
    · have hunsent := unsent_composing cls hopen
      cases a with
      | failed f =>
        rw [getNextTag_failed cls b.last is_at_eos tag hunsent] at h
        rcases b.interleaved f (hanswers.subset mem_cons_self) with hskip | hnoData
        · have hne : f.status ≠ .noData := by simp [hskip]
          by_cases htag : f.clears = true ∨ tag = none
          · rw [failed_status max _ tag answers hne is_at_eos htag] at h
            exact ih _ others none hsuffix (fits hsuffix) ((drained_again (.inl hskip)).1 h)
          · rw [not_or, Bool.not_eq_true] at htag
            rw [failed_stale max _ tag answers hne is_at_eos htag.1 htag.2] at h
            cases h
        · obtain ⟨_, hfailed⟩ := failed_more max (first :: others) tag answers hnoData
          rw [hfits.noData hnoData, hfailed] at h
          exact ih _ others none hsuffix (fits hsuffix) ((drained_again (.inr rfl)).1 h)
      | ok read ts =>
        by_cases hread : read.IsComposable = true
        · by_cases htype : ∀ e ∈ (first :: others).head?, e.1.type_ = read.type_
          · have htake := takeTag_joins max ts hread (.inl (cons_ne_nil first others)) htype
            rw [getNextTag_again cls b.last is_at_eos tag hunsent htake] at h
            rcases ih is_at_eos (others ++ [(read, ts)]) _ hsuffix hfits.read h with hnil | ⟨more, rest, hsent⟩
            · exact .inl hnil
            · refine .inr ⟨(read, ts) :: more, rest, ?_⟩
              rw [hsent, ← cons_append, append_assoc, singleton_append]
          · rw [getNextTag_none cls b.last is_at_eos tag hunsent (takeTag_of_ne ts hread htype)] at h
            cases h
        · rw [getNextTag_send cls b.last is_at_eos tag hunsent (takeTag_breaks ts first others hread)] at h
          obtain ⟨rest, rfl, -⟩ := drained_sent.1 h
          exact .inr ⟨[], rest, by rw [append_nil]⟩
    · obtain ⟨rest, rfl⟩ := sent_closed hclosed h
      exact .inr ⟨[], rest, by rw [append_nil]⟩

/-- Where the tags of the open segment are delivered, their timestamps can be found again. -/
theorem agree_of_delivers {max : Int} {segment : List (Tag Body × Int)}
    {tag : Option (SentTag Body × Int)} (hanswers : answers <:+ b.answers)
    (hfits : b.Fits is_at_eos answers) {tags : List (Tag Body × Int)}
    (h : b.Delivers cls ((composing max segment).getNextTag cls b.last is_at_eos tag answers) (segment ++ tags)) :
    Agree cls segment := by
  cases segment with
  | nil => exact fun e he => absurd he not_mem_nil
  | cons first others =>
    obtain ⟨_, hsent, hflat⟩ := h
    rcases sent_first max is_at_eos first others tag hanswers hfits hsent with rfl | ⟨_, _, rfl⟩
    · exact absurd hflat.symm (cons_ne_nil _ _)
    · rw [flatMap_cons, cons_append, unpack_composed, ← cons_append, map_append,
        append_assoc] at hflat
      have hmap := (append_inj hflat (length_map _)).1
      intro e he
      exact congrArg Prod.snd (map_eq_map_iff.1 (hmap.trans (map_id' _).symm) e he)

@[simp] theorem stillOpen_nil (max : Int) : stillOpen cls max ([] : List (Tag Body × Int)) = [] := ite_self []

theorem filterMap_failed (f : Failure) (answers : List (Answer Body)) :
    (Answer.failed f :: answers).filterMap Answer.tag = answers.filterMap Answer.tag := rfl

theorem filterMap_ok (read : Tag Body) (ts : Int) (answers : List (Answer Body)) :
    (Answer.ok read ts :: answers).filterMap Answer.tag = (read, ts) :: answers.filterMap Answer.tag := rfl

/-- A tag of the segment's type that is composed: its timestamp has to be the one that is found again. -/
theorem agree_append {segment : List (Tag Body × Int)} {read : Tag Body} {ts : Int} (h : Agree cls segment)
    (hread : (cls.timestamp_ms read).getD (start (segment ++ [(read, ts)])) = ts) :
    Agree cls (segment ++ [(read, ts)]) := by
  intro e he
  rcases mem_append.1 he with hmem | hlast
  · rw [start_append (ne_nil_of_mem hmem)]
    exact h e hmem
  · rw [mem_singleton.1 hlast]
    exact hread

/-- After `READ_NO_DATA` at the end, and nothing composed, the end is reached. -/
theorem delivers_over (max : Int) (h : b.last.status = .noData) :
    b.Delivers cls (b.next cls (composing max []) []) [] := by
  have hfits : b.Fits (b.is_at_eos []) [] := fits (nil_suffix)
  have hover : b.is_at_eos [] = true := hfits.exhausted (fun a ha => absurd ha not_mem_nil) h
  have hunsent : (composing max []).unsent cls = none := unsent_composing cls (stillOpen_nil max)
  obtain ⟨_, hend⟩ := failed_end Body max none [] h
  rw [next, getNextTag_nil cls b.last _ none hunsent, hover, hend]
  exact (delivers_eof rfl []).2 rfl

/-! ## All answers -/

section Settled

variable (cls) (b) (max : Int)

/-- From a pass of the loop on, with this segment composed, the calls deliver the segment and the tags to come exactly
when the answers to come are as they have to be. -/
def Settles (is_at_eos : Bool) (segment : List (Tag Body × Int)) (tag : Option (SentTag Body × Int))
    (answers : List (Answer Body)) : Prop :=
  b.Delivers cls ((composing max segment).getNextTag cls b.last is_at_eos tag answers)
      (segment ++ answers.filterMap Answer.tag) ↔
    Composes cls b.last.status max (stillOpen cls max segment) tag.isSome answers

/-- They do so wherever the loop can be. -/
def Settled (answers : List (Answer Body)) : Prop :=
  ∀ is_at_eos segment tag, b.Fits is_at_eos answers → Agree cls segment → (segment = [] → tag = none) →
    b.Settles cls max is_at_eos segment tag answers

variable {cls} {b} {max} {is_at_eos : Bool} {segment : List (Tag Body × Int)} {tag : Option (SentTag Body × Int)}
  {answers : List (Answer Body)}

/-- From the next call on. -/
theorem Settled.next (h : b.Settled cls max answers) (hanswers : answers <:+ b.answers) (hagree : Agree cls segment) :
    b.Delivers cls (b.next cls (composing max segment) answers) (segment ++ answers.filterMap Answer.tag) ↔
      Composes cls b.last.status max (stillOpen cls max segment) false answers :=
  h _ segment none (fits hanswers) hagree fun _ => rfl

/-- From the next call on, without a segment. -/
theorem Settled.next_nil (h : b.Settled cls max answers) (hanswers : answers <:+ b.answers) :
    b.Delivers cls (b.next cls (composing max []) answers) (answers.filterMap Answer.tag) ↔
      Composes cls b.last.status max [] false answers := by
  have hagree : Agree cls [] := fun e he => absurd he not_mem_nil
  have hnext := h.next hanswers hagree
  rwa [stillOpen_nil] at hnext

/-- It is enough to look at open segments: one that is closed is sent, and the next call starts without one. -/
theorem settled_of_open (hanswers : answers <:+ b.answers)
    (h : ∀ is_at_eos segment tag, b.Fits is_at_eos answers → Agree cls segment → (segment = [] → tag = none) →
      stillOpen cls max segment = segment → b.Settles cls max is_at_eos segment tag answers) :
    b.Settled cls max answers := by
  intro is_at_eos segment tag hfits hagree htag
  rcases stillOpen_cases cls max segment with hopen | hclosed
  · exact h is_at_eos segment tag hfits hagree htag hopen
  · cases segment with
    | nil => exact h is_at_eos [] tag hfits hagree htag hclosed
    | cons first others =>
      have hnil := h (b.is_at_eos answers) [] none (fits hanswers) (fun e he => absurd he not_mem_nil)
        (fun _ => rfl) (stillOpen_nil max)
      rw [Settles, stillOpen_nil] at hnil
      rw [Settles, getNextTag_unsent cls b.last is_at_eos tag (unsent_closed cls hclosed), hclosed,
        delivers_sent (unpack_composed_of_agree cls hagree), composes_nil]
      exact hnil

/-- At the end of the answers. -/
theorem settles_nil (hfits : b.Fits is_at_eos []) (hagree : Agree cls segment) (htag : segment = [] → tag = none)
    (hopen : stillOpen cls max segment = segment) : b.Settles cls max is_at_eos segment tag [] := by
  rw [Settles, getNextTag_nil cls b.last is_at_eos tag (unsent_composing cls hopen), hopen, Composes,
    filterMap_nil, append_nil]
  rcases b.ended with heof | hnoData
  · have hne : b.last.status ≠ .noData := by simp [heof]
    rw [or_iff_left hne]
    by_cases hclear : b.last.clears = true ∨ tag = none
    · rw [failed_status max segment tag [] hne is_at_eos hclear]
      exact delivers_eof heof segment
    · rw [not_or, Bool.not_eq_true] at hclear
      rw [failed_stale max segment tag [] hne is_at_eos hclear.1 hclear.2]
      exact iff_of_false (not_delivers_none segment) fun hnil => hclear.2 (htag hnil)
  · refine iff_of_true ?_ (.inr hnoData)
    rw [hfits.exhausted (fun a ha => absurd ha not_mem_nil) hnoData]
    cases segment with
    | nil =>
      obtain ⟨_, hend⟩ := failed_end Body max tag [] hnoData
      rw [hend]
      exact (delivers_eof rfl []).2 rfl
    | cons first others =>
      have hsent := delivers_sent_last (b := b) (composing max []) [] (unpack_composed_of_agree cls hagree)
      rw [failed_over max tag [] hnoData, hsent]
      exact delivers_over max hnoData

/-- Without a tag. -/
theorem settles_failed {f : Failure} (hanswers : .failed f :: answers <:+ b.answers) (ih : b.Settled cls max answers)
    (hfits : b.Fits is_at_eos (.failed f :: answers)) (hagree : Agree cls segment) (htag : segment = [] → tag = none)
    (hopen : stillOpen cls max segment = segment) :
    b.Settles cls max is_at_eos segment tag (.failed f :: answers) := by
  have hsuffix : answers <:+ b.answers := (suffix_cons _ answers).trans hanswers
  have hnext := ih.next hsuffix hagree
  rw [hopen] at hnext
  rw [Settles, getNextTag_failed cls b.last is_at_eos tag (unsent_composing cls hopen), hopen, Composes,
    filterMap_failed]
  rcases b.interleaved f (hanswers.subset mem_cons_self) with hskip | hnoData
  · have hne : f.status ≠ .noData := by simp [hskip]
    by_cases hclear : f.clears = true ∨ tag = none
    · rw [failed_status max segment tag answers hne is_at_eos hclear, delivers_again (.inl hskip), hnext]
      refine (and_iff_right ?_).symm
      intro _ hsome _
      refine hclear.resolve_right ?_
      rintro rfl
      exact Bool.false_ne_true hsome
    · rw [not_or, Bool.not_eq_true] at hclear
      rw [failed_stale max segment tag answers hne is_at_eos hclear.1 hclear.2]
      refine iff_of_false (not_delivers_none _) ?_
      rintro ⟨hclears, -⟩
      have htrue := hclears hskip (Option.isSome_iff_ne_none.2 hclear.2) fun hnil => hclear.2 (htag hnil)
      rw [hclear.1] at htrue
      exact Bool.false_ne_true htrue
  · obtain ⟨_, hfailed⟩ := failed_more max segment tag answers hnoData
    rw [hfits.noData hnoData, hfailed, delivers_again (.inr rfl), hnext]
    refine (and_iff_right ?_).symm
    intro hskip
    rw [hnoData] at hskip
    exact TagReadStatus.noConfusion hskip

/-- A tag that is composed. -/
theorem settles_composed {read : Tag Body} {ts : Int} (hanswers : .ok read ts :: answers <:+ b.answers)
    (ih : b.Settled cls max answers) (hfits : b.Fits is_at_eos (.ok read ts :: answers)) (hagree : Agree cls segment)
    (hopen : stillOpen cls max segment = segment) (hread : read.IsComposable = true)
    (hpos : segment ≠ [] ∨ 0 < max) : b.Settles cls max is_at_eos segment tag (.ok read ts :: answers) := by
  have hsuffix : answers <:+ b.answers := (suffix_cons _ answers).trans hanswers
  have hunsent := unsent_composing cls hopen
  rw [Settles, hopen, Composes, if_pos ⟨hread, hpos⟩, filterMap_ok, Joins, and_assoc]
  by_cases htype : ∀ e ∈ segment.head?, e.1.type_ = read.type_
  · have htarget : segment ++ (read, ts) :: answers.filterMap Answer.tag =
        segment ++ [(read, ts)] ++ answers.filterMap Answer.tag := by
      rw [append_assoc, singleton_append]
    rw [getNextTag_again cls b.last is_at_eos tag hunsent (takeTag_joins max ts hread hpos htype), htarget,
      and_iff_right htype]
    by_cases hown : (cls.timestamp_ms read).getD (start (segment ++ [(read, ts)])) = ts
    · rw [and_iff_right hown]
      exact ih is_at_eos _ (some (.tag read, ts)) hfits.read (agree_append hagree hown) (by simp)
    · refine iff_of_false ?_ fun h => hown h.1
      intro hdelivers
      exact hown (agree_of_delivers hsuffix hfits.read hdelivers (read, ts) (mem_append_right _ (mem_singleton_self _)))
  · rw [getNextTag_none cls b.last is_at_eos tag hunsent (takeTag_of_ne ts hread htype)]
    exact iff_of_false (not_delivers_none _) fun h => htype h.1

/-- A tag that is not composed. -/
theorem settles_single {read : Tag Body} {ts : Int} (hanswers : .ok read ts :: answers <:+ b.answers)
    (ih : b.Settled cls max answers) (hagree : Agree cls segment) (hopen : stillOpen cls max segment = segment)
    (hsingle : ¬ (read.IsComposable = true ∧ (segment ≠ [] ∨ 0 < max))) :
    b.Settles cls max is_at_eos segment tag (.ok read ts :: answers) := by
  have hsuffix : answers <:+ b.answers := (suffix_cons _ answers).trans hanswers
  have hunsent := unsent_composing cls hopen
  rw [Settles, hopen, Composes, if_neg hsingle, filterMap_ok, ← ih.next_nil hsuffix]
  cases segment with
  | nil =>
    have halone : ¬ (0 < max ∧ read.IsComposable = true) := fun h => hsingle ⟨h.2, .inr h.1⟩
    rw [getNextTag_send cls b.last is_at_eos tag hunsent (takeTag_alone ts halone)]
    exact delivers_sent (show SentTag.unpack cls _ = [(read, ts)] from rfl)
  | cons first others =>
    have hread : ¬ read.IsComposable = true := fun h => hsingle ⟨h, .inl (cons_ne_nil _ _)⟩
    rw [getNextTag_send cls b.last is_at_eos tag hunsent (takeTag_breaks ts first others hread),
      delivers_sent (unpack_composed_of_agree cls hagree), delivers_waiting]

/-- What the calls deliver, by induction on the answers. -/
theorem settled (hanswers : answers <:+ b.answers) : b.Settled cls max answers := by
  induction answers with
  | nil =>
    refine settled_of_open hanswers ?_
    intro is_at_eos segment tag hfits hagree htag hopen
    exact settles_nil hfits hagree htag hopen
  | cons a answers ih =>
    have ih := ih ((suffix_cons a answers).trans hanswers)
    refine settled_of_open hanswers ?_
    intro is_at_eos segment tag hfits hagree htag hopen
    cases a with
    | failed f => exact settles_failed hanswers ih hfits hagree htag hopen
    | ok read ts =>
      by_cases hcomposed : read.IsComposable = true ∧ (segment ≠ [] ∨ 0 < max)
      · exact settles_composed hanswers ih hfits hagree hopen hcomposed.1 hcomposed.2
      · exact settles_single hanswers ih hagree hopen hcomposed

end Settled

/-- Composition keeps the tags exactly when the answers of the subclass are as `Composes` says: in particular,
`READ_EOF` does not come while a composed tag is open. -/
theorem keepsTags_iff (cls : TagMethods Body) (b : Behaviour Body) (max : Int) :
    b.KeepsTags cls max ↔ Composes cls b.last.status max [] false b.answers :=
  (settled (suffix_refl b.answers)).next_nil (suffix_refl b.answers)

/-- Tags with a duration of 20 ms that store no timestamp. -/
def plainMethods : TagMethods fun _ => Unit := ⟨fun _ => 20, fun _ => none⟩

/-- An audio tag and then the end of the file. -/
def audioThenEof : Behaviour fun _ => Unit where
  answers := [.ok ⟨.flv, { Attributes.none with audio := true }, ()⟩ 0]
  last := ⟨.eof, by decide, true⟩
  is_at_eos := fun _ => true
  interleaved := by simp
  ended := .inl rfl
  more := by
    rintro left hleft ⟨a, ha, hno⟩
    rw [List.mem_singleton.1 (hleft.subset ha)] at hno
    exact hno.elim
  exhausted := fun _ _ _ _ => rfl

/-- The audio tag is still in the open composed tag when `READ_EOF` comes. -/
theorem audioThenEof_lost : ¬ audioThenEof.KeepsTags plainMethods 1000 := by
  have hcall : audioThenEof.next plainMethods (composing 1000 []) audioThenEof.answers =
      some ⟨.eof, none, composing 1000 [(⟨.flv, { Attributes.none with audio := true }, ()⟩, 0)], []⟩ := rfl
  rw [KeepsTags, hcall, delivers_eof rfl]
  exact cons_ne_nil _ _

end Behaviour

/-! ## The end of an FLV stream -/

section FlvEnd

open Flv (FlvTag FlvTagSplitter MediaUtil)

variable {Info Cue : Type} (util : MediaUtil Info Cue)

end FlvEnd

end Whispercast.Stream
