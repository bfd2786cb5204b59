import Whispercast.Io.AsciiToken
import Whispercast.Io.MemoryStream
import Whispercast.Io.Pointer

/-!
# Tokens across blocks

Model of `DataBlockPointer::ReadNextAsciiToken` (`common/io/buffer/data_block.cc`) and of the function of
`MemoryStream` that calls it. The scan looks at one byte after another and goes on in the next block that holds data;
the token is read again from the pointer to its first byte. `ScanOk` relates what the scan remembers to the bytes that
it has passed.
-/

namespace Whispercast.Io

open Library List

def attrIsError (c : UInt8) : Bool := charAttr c = .error

def attrIsQuote (c : UInt8) : Bool := charAttr c = .quote

def attrIsSep (c : UInt8) : Bool := charAttr c = .sep || charAttr c = .quote

def attrIsChar (c : UInt8) : Bool := charAttr c = .char

def attrIsSpace (c : UInt8) : Bool := charAttr c = .space

/-- The variables of the scan; the quote character zero says that it is not in quotes. -/
structure TokenScan where
  len : Nat := 0
  skipped : Nat := 0
  quote_char : UInt8 := 0
  last_was_escape : Bool := false
  begin : DataBlockPointer

/-- How the scan ends: the length is that of the whole token, from `begin` on. -/
inductive TokenEnd where
  | errorChar
  | noData
  | word (begin : DataBlockPointer) (len skipped : Nat)
  | quoted (begin : DataBlockPointer) (len skipped : Nat)
  | sep (here : DataBlockPointer) (c : UInt8) (skipped : Nat)

/-- One byte, at the pointer `here`: the scan ends, or it goes on. -/
def tokenChar (here : DataBlockPointer) (t : TokenScan) (c : UInt8) : TokenEnd ⊕ TokenScan :=
  if t.quote_char = 0 then
    if attrIsError c then .inl .errorChar
    else if t.len ≠ 0 then
      if attrIsChar c then .inr { t with len := t.len + 1 }
      else .inl (.word t.begin t.len t.skipped)
    else if attrIsQuote c then .inr { t with begin := here, quote_char := c, len := t.len + 1 }
    else if attrIsSep c then .inl (.sep here c t.skipped)
    else if attrIsSpace c then .inr { t with skipped := t.skipped + 1 }
    else .inr { t with begin := here, len := t.len + 1 }
  else if t.quote_char = c ∧ t.last_was_escape = false then .inl (.quoted t.begin (t.len + 1) t.skipped)
  else .inr { t with last_was_escape := !t.last_was_escape && c = 92, len := t.len + 1 }

/-- The inner loop, over the rest of the block `id` from offset `pos` on. -/
def scanBlock (id : Nat) : Nat → TokenScan → Bytes → TokenEnd ⊕ TokenScan
  | _, t, [] => .inr t
  | pos, t, c :: cs =>
    match tokenChar ⟨some id, pos⟩ t c with
    | .inl e => .inl e
    | .inr t => scanBlock id (pos + 1) t cs

namespace DataBlockPointer

/-- The outer loop, over the blocks. -/
def scanLoop (h : Heap) (it : List BlockRef) (id pos : Nat) (t : TokenScan) : Option TokenEnd :=
  match it with
  | [] => none
  | r :: rest =>
    match h.get r with
    | none => none
    | some b =>
      match scanBlock id pos t (b.data.drop pos) with
      | .inl e => some e
      | .inr t =>
        match _hadv : advanceToNextBlock h rest (id + 1) with
        | none => none
        | some none => some .noData
        | some (some (it', id')) => scanLoop h it' id' 0 t
termination_by it.length
decreasing_by
  have := length_advanceToNextBlock _hadv
  simp only [List.length_cons]
  omega

/-- `ReadNextAsciiToken`, with `*len_covered`. Without a token the pointer stays where it was. -/
def readNextAsciiToken (h : Heap) (owner : BlockDqueue) (p : DataBlockPointer) :
    Option (Except TokenFault Token × DataBlockPointer × Nat) := do
  let id ← p.blockId
  let it ← owner.bufferIt id
  match ← scanLoop h it id p.pos { begin := p } with
  | .errorChar => some (.error .errorChar, p, 0)
  | .noData => some (.error .noData, p, 0)
  | .word begin len skipped => do
      let (s, p') ← begin.readData h owner len
      some (.ok (.word s), p', len + skipped)
  | .quoted begin len skipped => do
      let (s, p') ← begin.readData h owner len
      some (.ok (.quoted s), p', len + skipped)
  | .sep here c skipped => do
      let (_, p') ← here.advance h owner 1
      some (.ok (.sep c), p', 1 + skipped)

end DataBlockPointer

def MemoryStream.readNextAsciiToken (h : Heap) (s : MemoryStream) :
    Option (Except TokenFault Token × Heap × MemoryStream) :=
  match s.maybeInitReadPointer with
  | (false, s) => some (.error .noData, h, s)
  | (true, s) => do
      let (token, r, len) ← s.readPointer_.readNextAsciiToken h s.blocks_
      some (token, h, { s with readPointer_ := r, size_ := s.size_ - len })

/-! ## What the scan remembers -/

section Scan

variable (P : DataBlockPointer → Bytes → Prop) (all : Bytes)

/-- What the scan has passed, when the bytes `rest` of `all` are left; `P p rest` says that `rest` is in front of `p`. -/
inductive ScanOk : TokenScan → Bytes → Prop where
  | blanks {blanks rest : Bytes} {begin : DataBlockPointer} (hall : all = blanks ++ rest)
      (hblanks : StateReader.Blanks IsBlank blanks) : ScanOk ⟨0, blanks.length, 0, false, begin⟩ rest
  | word {blanks text rest : Bytes} {begin : DataBlockPointer} (hall : all = blanks ++ (text ++ rest))
      (hblanks : StateReader.Blanks IsBlank blanks) (hne : text ≠ []) (hbegin : P begin (text ++ rest))
      (hspec : Io.readNextAsciiToken all = wordToken text rest) :
      ScanOk ⟨text.length, blanks.length, 0, false, begin⟩ rest
  | quoted {blanks text rest : Bytes} {begin : DataBlockPointer} {quote : UInt8} {esc : Bool}
      (hall : all = blanks ++ (text ++ rest)) (hblanks : StateReader.Blanks IsBlank blanks) (hquote : quote ≠ 0)
      (hbegin : P begin (text ++ rest)) (hspec : Io.readNextAsciiToken all = quotedToken quote text esc rest) :
      ScanOk ⟨text.length, blanks.length, quote, esc, begin⟩ rest

/-- The end of the scan is that of the token. -/
inductive EndOk : TokenEnd → Prop where
  | errorChar (hspec : Io.readNextAsciiToken all = .error .errorChar) : EndOk .errorChar
  | noData (hspec : Io.readNextAsciiToken all = .error .noData) : EndOk .noData
  | word {blanks text rest : Bytes} {begin : DataBlockPointer} (hall : all = blanks ++ (text ++ rest))
      (hbegin : P begin (text ++ rest)) (hspec : Io.readNextAsciiToken all = .ok (.word text, rest)) :
      EndOk (.word begin text.length blanks.length)
  | quoted {blanks text rest : Bytes} {begin : DataBlockPointer} (hall : all = blanks ++ (text ++ rest))
      (hbegin : P begin (text ++ rest)) (hspec : Io.readNextAsciiToken all = .ok (.quoted text, rest)) :
      EndOk (.quoted begin text.length blanks.length)
  | sep {blanks rest : Bytes} {here : DataBlockPointer} {c : UInt8} (hall : all = blanks ++ ([c] ++ rest))
      (hhere : P here ([c] ++ rest)) (hspec : Io.readNextAsciiToken all = .ok (.sep c, rest)) :
      EndOk (.sep here c blanks.length)

variable {P all}

/-- What one byte, or the bytes of one block, leave. -/
def ScanStep (P : DataBlockPointer → Bytes → Prop) (all rest : Bytes) : TokenEnd ⊕ TokenScan → Prop
  | .inl e => EndOk P all e
  | .inr t => ScanOk P all t rest

variable {here begin : DataBlockPointer} {cs : Bytes}

/-- A byte behind blanks. -/
theorem tokenChar_blanks {blanks : Bytes} {c : UInt8} (hall : all = blanks ++ c :: cs)
    (hblanks : StateReader.Blanks IsBlank blanks) (hhere : P here (c :: cs)) :
    ScanStep P all cs (tokenChar here ⟨0, blanks.length, 0, false, begin⟩ c) := by
  have hspec : Io.readNextAsciiToken all = Io.readNextAsciiToken (c :: cs) := by
    rw [hall, readNextAsciiToken_blanks hblanks]
  rw [Io.readNextAsciiToken] at hspec
  rw [tokenChar, if_pos rfl]
  cases hc : charAttr c with
  | error =>
    rw [hc] at hspec
    rw [if_pos (by simp [attrIsError, hc])]
    exact EndOk.errorChar hspec
  | quote =>
    rw [hc] at hspec
    rw [if_neg (by simp [attrIsError, hc]), if_neg (not_not.2 rfl), if_pos (by simp [attrIsQuote, hc])]
    have hne : c ≠ 0 := by
      rintro rfl
      exact absurd hc (by decide)
    have hok : ScanOk P all ⟨[c].length, blanks.length, c, false, here⟩ cs :=
      ScanOk.quoted hall hblanks hne hhere hspec
    exact hok
  | sep =>
    rw [hc] at hspec
    rw [if_neg (by simp [attrIsError, hc]), if_neg (not_not.2 rfl), if_neg (by simp [attrIsQuote, hc]),
      if_pos (by simp [attrIsSep, hc])]
    exact EndOk.sep hall hhere hspec
  | char =>
    rw [hc] at hspec
    rw [if_neg (by simp [attrIsError, hc]), if_neg (not_not.2 rfl), if_neg (by simp [attrIsQuote, hc]),
      if_neg (by simp [attrIsSep, hc]), if_neg (by simp [attrIsSpace, hc])]
    have hok : ScanOk P all ⟨[c].length, blanks.length, 0, false, here⟩ cs :=
      ScanOk.word hall hblanks (cons_ne_nil _ _) hhere hspec
    exact hok
  | space =>
    rw [if_neg (by simp [attrIsError, hc]), if_neg (not_not.2 rfl), if_neg (by simp [attrIsQuote, hc]),
      if_neg (by simp [attrIsSep, hc]), if_pos (by simp [attrIsSpace, hc])]
    have hblanks' : StateReader.Blanks IsBlank (blanks ++ [c]) := by
      intro d hd
      rcases mem_append.1 hd with hmem | hlast
      · exact hblanks d hmem
      · rw [mem_singleton.1 hlast]
        exact hc
    have hok : ScanOk P all ⟨0, (blanks ++ [c]).length, 0, false, begin⟩ cs :=
      ScanOk.blanks (hall.trans (append_cons _ _ _)) hblanks'
    rw [length_append] at hok
    exact hok

/-- A byte behind a run of characters. -/
theorem tokenChar_word {blanks text : Bytes} {c : UInt8}
    (hall : all = blanks ++ (text ++ c :: cs)) (hblanks : StateReader.Blanks IsBlank blanks) (hne : text ≠ [])
    (hbegin : P begin (text ++ c :: cs)) (hspec : Io.readNextAsciiToken all = wordToken text (c :: cs)) :
    ScanStep P all cs (tokenChar here ⟨text.length, blanks.length, 0, false, begin⟩ c) := by
  have hlen : text.length ≠ 0 := fun hzero => hne (eq_nil_of_length_eq_zero hzero)
  rw [wordToken] at hspec
  rw [tokenChar, if_pos rfl]
  cases hc : charAttr c with
  | error =>
    rw [hc] at hspec
    rw [if_pos (by simp [attrIsError, hc])]
    exact EndOk.errorChar hspec
  | char =>
    rw [hc] at hspec
    rw [if_neg (by simp [attrIsError, hc]), if_pos hlen, if_pos (by simp [attrIsChar, hc])]
    rw [append_cons] at hall hbegin
    have hok := ScanOk.word hall hblanks (append_ne_nil_of_right_ne_nil _ (cons_ne_nil _ _)) hbegin hspec
    rw [length_append] at hok
    exact hok
  | quote | sep | space =>
    rw [hc] at hspec
    rw [if_neg (by simp [attrIsError, hc]), if_pos hlen, if_neg (by simp [attrIsChar, hc])]
    exact EndOk.word hall hbegin hspec

/-- A byte in quotes. -/
theorem tokenChar_quoted {blanks text : Bytes} {c quote : UInt8} {esc : Bool}
    (hall : all = blanks ++ (text ++ c :: cs)) (hblanks : StateReader.Blanks IsBlank blanks) (hquote : quote ≠ 0)
    (hbegin : P begin (text ++ c :: cs)) (hspec : Io.readNextAsciiToken all = quotedToken quote text esc (c :: cs)) :
    ScanStep P all cs (tokenChar here ⟨text.length, blanks.length, quote, esc, begin⟩ c) := by
  rw [append_cons] at hall hbegin
  rw [quotedToken] at hspec
  rw [tokenChar, if_neg hquote]
  by_cases hclose : c = quote ∧ esc = false
  · rw [if_pos hclose] at hspec
    rw [if_pos ⟨hclose.1.symm, hclose.2⟩]
    have hok := EndOk.quoted hall hbegin hspec
    rw [length_append] at hok
    exact hok
  · rw [if_neg hclose] at hspec
    rw [if_neg fun h => hclose ⟨h.1.symm, h.2⟩]
    have hok := ScanOk.quoted hall hblanks hquote hbegin hspec
    rw [length_append] at hok
    exact hok

variable {t : TokenScan}

/-- One byte. -/
theorem tokenChar_spec {c : UInt8}
    (h : ScanOk P all t (c :: cs)) (hhere : P here (c :: cs)) : ScanStep P all cs (tokenChar here t c) := by
  cases h with
  | blanks hall hblanks => exact tokenChar_blanks hall hblanks hhere
  | word hall hblanks hne hbegin hspec => exact tokenChar_word hall hblanks hne hbegin hspec
  | quoted hall hblanks hquote hbegin hspec => exact tokenChar_quoted hall hblanks hquote hbegin hspec

/-- The bytes of one block, with `tail` behind them. -/
theorem scanBlock_spec {id pos : Nat} {tail : Bytes} (h : ScanOk P all t (cs ++ tail))
    (hP : ∀ i, i ≤ cs.length → P ⟨some id, pos + i⟩ (cs.drop i ++ tail)) :
    ScanStep P all tail (scanBlock id pos t cs) := by
  induction cs generalizing t pos with
  | nil => exact h
  | cons c cs ih =>
    have hstep := tokenChar_spec h (hP 0 (Nat.zero_le _))
    rw [scanBlock]
    cases hchar : tokenChar ⟨some id, pos⟩ t c with
    | inl e =>
      rw [Nat.add_zero, hchar] at hstep
      exact hstep
    | inr t' =>
      rw [Nat.add_zero, hchar] at hstep
      refine ih hstep fun i hi => ?_
      have hnext := hP (i + 1) (Nat.succ_le_succ hi)
      rw [drop_succ_cons, Nat.add_comm i 1, ← Nat.add_assoc] at hnext
      exact hnext

/-- Without more bytes there is no token yet. -/
theorem ScanOk.noData (h : ScanOk P all t []) : EndOk P all .noData := by
  cases h with
  | blanks hall hblanks =>
    refine EndOk.noData ?_
    rw [hall, readNextAsciiToken_blanks hblanks]
    rfl
  | word _ _ _ _ hspec => exact EndOk.noData hspec
  | quoted _ _ _ _ hspec => exact EndOk.noData hspec

/-- The rest of the first block. -/
theorem scanBlock_of_points {id pos : Nat} {d : Bytes} {ds : List Bytes} {rest : Bytes}
    (hp : Points (d :: ds) 0 pos rest) (hscan : ScanOk P all t rest) (hP : ∀ p rest, At id (d :: ds) p rest → P p rest) :
    ScanStep P all ds.flatten (scanBlock id pos t (d.drop pos)) := by
  obtain ⟨_, rfl⟩ := points_zero_cons.1 hp
  refine scanBlock_spec hscan fun i hi => ?_
  rw [length_drop] at hi
  refine hP _ _ (at_zero (points_zero_cons.2 ⟨by omega, ?_⟩))
  rw [drop_drop]

/-- The blocks at an iterator, from offset `pos` of the first one on. -/
theorem scanLoop_yields {h : Heap} {it : List BlockRef} {id pos : Nat} {D : List Bytes} {rest : Bytes}
    (hs : Stored h it D) (hp : Points D 0 pos rest) (hscan : ScanOk P all t rest)
    (hP : ∀ p rest, At id D p rest → P p rest) :
    Yields (DataBlockPointer.scanLoop h it id pos t) (EndOk P all) := by
  fun_induction DataBlockPointer.scanLoop h it id pos t generalizing D rest with
  | case1 =>
    cases hs
    exact absurd hp.lt_length (by simp)
  | case2 id pos t r it hr =>
    exact absurd hr hs.get
  | case3 id pos t r it b hr e he =>
    obtain ⟨d, ds, rfl, hds, -, -, rfl, -⟩ := hs.head hr
    have hblock := scanBlock_of_points hp hscan hP
    rw [he] at hblock
    exact Yields.some hblock
  | case4 id pos t r it b hr t' ht' hadv =>
    obtain ⟨d, ds, rfl, hds, -⟩ := hs.head hr
    exact absurd hadv (advanceToNextBlock_yields (id + 1) hds).ne_none
  | case5 id pos t r it b hr t' ht' hadv =>
    obtain ⟨d, ds, rfl, hds, -, -, rfl, -⟩ := hs.head hr
    have hblock := scanBlock_of_points hp hscan hP
    have hnil : ds.flatten = [] := (advanceToNextBlock_yields (id + 1) hds).of_eq hadv
    rw [ht', hnil] at hblock
    exact Yields.some hblock.noData
  | case6 id pos t r it b hr t' ht' it' id' hadv ih =>
    obtain ⟨d, ds, rfl, hds, -, -, rfl, -⟩ := hs.head hr
    have hblock := scanBlock_of_points hp hscan hP
    obtain ⟨k, rfl, rfl, hpts, -⟩ := (advanceToNextBlock_yields (id + 1) hds).of_eq hadv
    rw [ht'] at hblock
    refine ih (hds.drop k) (points_drop.2 hpts) hblock ?_
    intro p rest hat
    refine hP p rest (at_of_drop (j := k + 1) ?_)
    rw [show id + (k + 1) = id + 1 + k by omega]
    exact hat

end Scan

/-! ## Tokens of a queue -/

section Queue

variable {h : Heap} {owner : BlockDqueue} {D : List Bytes} {p : DataBlockPointer} {rest : Bytes}

/-- What `ReadNextAsciiToken` reports, and where the pointer is then. -/
def TokenRead (begin : Nat) (D : List Bytes) (p : DataBlockPointer) (rest : Bytes) :
    Except TokenFault Token × DataBlockPointer × Nat → Prop
  | (.ok token, p', len) => ∃ tail, readNextAsciiToken rest = .ok (token, tail) ∧ rest.length = len + tail.length ∧
      At begin D p' (rest.drop len) ∧ NotAfter p p'
  | (.error fault, p', len) => readNextAsciiToken rest = .error fault ∧ p' = p ∧ len = 0

/-- What is behind a token. -/
theorem drop_token {all blanks text tail : Bytes} (hall : all = blanks ++ (text ++ tail)) :
    all.length = text.length + blanks.length + tail.length ∧ all.drop (text.length + blanks.length) = tail := by
  rw [hall, ← append_assoc]
  refine ⟨by rw [length_append, length_append, Nat.add_comm blanks.length], ?_⟩
  exact drop_left' (by rw [length_append, Nat.add_comm])

/-- A token does not depend on how its bytes are stored. -/
theorem readNextAsciiToken_yields (hs : Stored h owner.live D) (hp : At owner.beginId D p rest) :
    Yields (p.readNextAsciiToken h owner) (TokenRead owner.beginId D p rest) := by
  obtain ⟨k, hid, hk⟩ := hp
  simp only [DataBlockPointer.readNextAsciiToken, hid, Option.bind_eq_bind, Option.bind_some,
    BlockDqueue.bufferIt_add]
  have hscan : ScanOk (fun p' rest' => At owner.beginId D p' rest' ∧ NotAfter p p') rest ⟨0, 0, 0, false, p⟩ rest :=
    ScanOk.blanks rfl fun _ hc => absurd hc not_mem_nil
  apply (scanLoop_yields (hs.drop k) (points_drop.2 hk) hscan fun p' rest' hat => hat.lift hid).bind
  intro e he
  cases he with
  | errorChar hspec => exact Yields.some ⟨hspec, rfl, rfl⟩
  | noData hspec => exact Yields.some ⟨hspec, rfl, rfl⟩
  | @word blanks text tail begin hall hbegin hspec | @quoted blanks text tail begin hall hbegin hspec =>
    apply (readData_yields hs hbegin.1 text.length).bind
    rintro ⟨out, p'⟩ ⟨hout, hat, hle⟩
    rw [take_left] at hout
    rw [drop_left] at hat
    obtain ⟨hlength, hdrop⟩ := drop_token hall
    rw [hout]
    exact Yields.some ⟨tail, hspec, hlength, hdrop ▸ hat, hbegin.2.trans hle⟩
  | @sep blanks tail here c hall hhere hspec =>
    apply (advance_yields hs hhere.1 1).bind
    rintro ⟨-, p'⟩ ⟨-, hat, hle⟩
    obtain ⟨hlength, hdrop⟩ := drop_token hall
    exact Yields.some ⟨tail, hspec, hlength, hdrop ▸ hat, hhere.2.trans hle⟩

end Queue

end Whispercast.Io
