import Whispercast.Http.HeaderRead
import Whispercast.Io.Tokenising
import Whispercast.Rtsp.Message

/-!
# GET_PARAMETER

Model of `ServerProcessor::HandleGetParameter` (`rtsp_server_processor.cc`) for a request that is on a connection. The
loop takes a line of the body in each pass; `ReadLine` takes nothing where no line ends, and then the loop does not end
either. What the connection has been sent is a list of messages.
-/

namespace Whispercast.Rtsp

open Io Library FieldMap
open Http (ascii)
open FieldType List

/-- `tget_field<CSeqHeaderField>()->value()`; the field with this name has this type. -/
def FieldMap.cSeq (m : FieldMap) : Option Int :=
  match m.getField (FieldType.numeric .cSeq).enc with
  | some (.numeric _ value_) => some value_
  | _ => none

/-- A `Request` with the stream of its body. -/
structure StreamedRequest where
  header_ : RequestHeader
  data_ : MemoryStream

namespace ServerProcessor

/-- The `Response` of `SimpleReply`. -/
def simpleResponse (status : StatusCode) (cseq : Option Int) : Option Message := do
  let fields ← match cseq with
    | none => some FieldMap.empty
    | some value => FieldMap.empty.addField (.numeric .cSeq value)
  some (.response ⟨status, fields⟩ [])

/-- The `Response` to a request without parameters. -/
def pingResponse (serverName : Bytes) (cseq : Int) : Option Message := do
  let fields ← FieldMap.empty.addField (.numeric .cSeq cseq)
  let fields ← fields.addField (.string .server serverName)
  let fields ← fields.addField (.string .cacheControl (ascii "no-cache"))
  some (.response ⟨.ok, fields⟩ [])

/-- The loop of `HandleGetParameter`, in so many passes at most. -/
def readParams : Nat → Heap → MemoryStream → List Bytes → Option (List Bytes × Heap × MemoryStream)
  | 0, _, _, _ => none
  | fuel + 1, h, tmp, params =>
    if tmp.isEmpty then some (params, h, tmp)
    else do
      let (read, h, tmp) ← tmp.readLine h
      -- a line that cannot be read is empty, too
      let line := read.getD []
      readParams fuel h tmp (if line = [] then params else params ++ [line])

/-- `HandleGetParameter`; at its end the stream `tmp` is destroyed. -/
def handleGetParameter (serverName : Bytes) (blockSize : ℕ+) (fuel : Nat) (h : Heap) (req : StreamedRequest)
    (sent : List Message) : Option (Heap × List Message) :=
  match req.header_.fields_.cSeq with
  | none => do
      let response ← simpleResponse .badRequest none
      some (h, sent ++ [response])
  | some cseq => do
      let (h, tmp) ← (MemoryStream.new blockSize).appendStreamNonDestructive h req.data_ 0 (-1)
      let (params, h, tmp) ← readParams fuel h tmp []
      let response ←
        if params = [] then pingResponse serverName cseq else simpleResponse .notImplemented (some cseq)
      let (h, _) ← tmp.clear h
      some (h, sent ++ [response])

/-! ## What is promised -/

/-- The lines of a body; the last one need not be closed. -/
def bodyLines (body : Bytes) : List Bytes :=
  ((Lines.split 10 body).1 ++ [(Lines.split 10 body).2]).map MemoryStream.strTrimCRLF

/-- The status of the reply. -/
def parameterStatus (header : RequestHeader) (body : Bytes) : StatusCode :=
  if header.fields_.cSeq = none then .badRequest
  else if ∀ line ∈ bodyLines body, line = [] then .ok
  else .notImplemented

/-- `HandleGetParameter` ends, and sends one reply, with the status for the body. -/
def Answered (serverName : Bytes) (blockSize : ℕ+) (h : Heap) (req : StreamedRequest) (body : Bytes)
    (sent : List Message) : Prop :=
  ∃ (fuel : Nat) (h' : Heap) (fields : FieldMap),
    handleGetParameter serverName blockSize fuel h req sent =
      some (h', sent ++ [.response ⟨parameterStatus req.header_ body, fields⟩ []])

/-- The last line of a body is closed. -/
def Closed (body : Bytes) : Prop := body = [] ∨ body.getLast? = some 10

/-! ## The replies -/

theorem addField_eq_some (m : FieldMap) (field : HeaderField) (h : ∀ f ∈ m.fields, f.name ≠ field.name) :
    ∃ m', m.addField field = some m' ∧ m'.fields = FieldMap.insertField field m.fields := by
  have hnone : m.getField field.name = none := by
    rw [getField, find?_eq_none]
    intro f hf
    simpa using h f hf
  exact ⟨_, dif_pos hnone, rfl⟩

theorem simpleResponse_eq_some (status : StatusCode) (cseq : Option Int) :
    ∃ fields, simpleResponse status cseq = some (.response ⟨status, fields⟩ []) := by
  cases cseq with
  | none => exact ⟨empty, rfl⟩
  | some value =>
    obtain ⟨fields, hfields, -⟩ :=
      addField_eq_some empty (.numeric .cSeq value) (by simp [empty])
    exact ⟨fields, by simp [simpleResponse, hfields]⟩

theorem pingResponse_eq_some (serverName : Bytes) (cseq : Int) :
    ∃ fields, pingResponse serverName cseq = some (.response ⟨.ok, fields⟩ []) := by
  -- the three names are different
  have hserver : (numeric .cSeq).enc ≠ (string .server).enc := by decide
  have hcache : (numeric .cSeq).enc ≠ (string .cacheControl).enc := by decide
  have hcache' : (string .server).enc ≠ (string .cacheControl).enc := by decide
  obtain ⟨m₁, h₁, hm₁⟩ :=
    addField_eq_some empty (.numeric .cSeq cseq) (by simp [empty])
  obtain ⟨m₂, h₂, hm₂⟩ := addField_eq_some m₁ (.string .server serverName) (by
    intro f hf
    rw [hm₁, mem_insertField] at hf
    rcases hf with rfl | hf
    · exact hserver
    · cases hf)
  obtain ⟨m₃, h₃, -⟩ := addField_eq_some m₂ (.string .cacheControl (ascii "no-cache")) (by
    intro f hf
    rw [hm₂, mem_insertField, hm₁, mem_insertField] at hf
    rcases hf with rfl | rfl | hf
    · exact hcache'
    · exact hcache
    · cases hf)
  exact ⟨m₃, by simp [pingResponse, h₁, h₂, h₃]⟩

/-! ## The loop -/

theorem bodyLines_of_not_mem {body : Bytes} (h : 10 ∉ body) : bodyLines body = [MemoryStream.strTrimCRLF body] := by
  rw [bodyLines, Lines.split_of_not_mem h]
  rfl

theorem bodyLines_line {l : Bytes} (h : 10 ∉ l) (body : Bytes) :
    bodyLines (l ++ 10 :: body) = MemoryStream.strTrimCRLF l :: bodyLines body := by
  rw [bodyLines, Lines.split_line h]
  rfl

/-- Behind a line a body is closed as it was before. -/
theorem closed_line (l body : Bytes) : Closed (l ++ 10 :: body) ↔ Closed body := by
  cases body with
  | nil => simp [Closed]
  | cons c body => simp [Closed, getLast?_append, getLast?_cons_cons]

theorem not_closed_of_not_mem {body : Bytes} (hne : body ≠ []) (h : 10 ∉ body) : ¬ Closed body := by
  rintro (rfl | hlast)
  · exact hne rfl
  · exact h (mem_of_getLast? hlast)

section Loop

variable {h : Heap} {held : Nat → Nat} {s : MemoryStream} {q : MarkedQueue UInt8}

theorem isEmpty_eq (hi : Inv h held s q) : s.isEmpty = decide (q.readable = []) := by
  rcases hi with ⟨D, -, hv⟩
  rw [MemoryStream.isEmpty, hv.size, decide_eq_decide, ← length_eq_zero_iff, MarkedQueue.length_readable]
  omega

/-- A pass over a line. -/
theorem readParams_line (hi : Inv h held s q) {l body : Bytes} (hmem : 10 ∉ l) (hbody : q.readable = l ++ 10 :: body)
    (params : List Bytes) (fuel : Nat) :
    ∃ h' s' q', Inv h' held s' q' ∧ q'.readable = body ∧ q'.marks = q.marks ∧
      readParams (fuel + 1) h s params = readParams fuel h' s'
        (if MemoryStream.strTrimCRLF l = [] then params else params ++ [MemoryStream.strTrimCRLF l]) := by
  have hne : q.readable ≠ [] := by simp [hbody]
  obtain ⟨⟨read, h', s'⟩, hread, hline, hi', -⟩ := readLine_yields hi
  rw [hbody, Http.lineOf_line hmem] at hline hi'
  refine ⟨h', s', _, hi', ?_, rfl, ?_⟩
  · have hsplit : l ++ 10 :: body = (l ++ [10]) ++ body := by simp
    rw [MarkedQueue.pop_readable, hbody, hsplit]
    exact drop_left
  · have hget : read.getD [] = MemoryStream.strTrimCRLF l := by
      rw [hline, Option.map_some, Option.getD_some, Http.strTrimCRLF_lf]
    simp [readParams, isEmpty_eq hi, hne, hread, hget]

/-- A pass where no line ends takes nothing. -/
theorem readParams_of_not_mem (hi : Inv h held s q) (hne : q.readable ≠ []) (hmem : 10 ∉ q.readable)
    (params : List Bytes) (fuel : Nat) :
    ∃ h' s', Inv h' held s' q ∧ readParams (fuel + 1) h s params = readParams fuel h' s' params := by
  obtain ⟨⟨read, h', s'⟩, hread, hline, hi', -⟩ := readLine_yields hi
  rw [Http.lineOf_of_not_mem hmem] at hline hi'
  refine ⟨h', s', ?_, ?_⟩
  · rwa [Option.getD_none, length_nil, MarkedQueue.pop_zero] at hi'
  · have hget : read.getD [] = [] := by
      rw [hline]
      rfl
    simp [readParams, isEmpty_eq hi, hne, hread, hget]

/-- A closed body is read to its end. -/
theorem readParams_yields (body : Bytes) (hclosed : Closed body) (hi : Inv h held s q) (hbody : q.readable = body)
    (hmarks : q.marks = []) (params : List Bytes) {fuel : Nat} (hfuel : body.length < fuel) :
    Yields (readParams fuel h s params) fun (params', h', s') =>
      params' = params ++ (bodyLines body).filter (· ≠ []) ∧ ∃ q', Inv h' held s' q' ∧ q'.marks = [] := by
  -- one pass for each line, on whatever heap and stream are left
  induction body using Http.stream_induction generalizing h s q params fuel with
  | tail body hmem =>
    have hnil : body = [] := by
      by_contra hne
      exact not_closed_of_not_mem hne hmem hclosed
    subst hnil
    obtain ⟨n, rfl⟩ := Nat.exists_eq_succ_of_ne_zero (by omega : fuel ≠ 0)
    rw [readParams, isEmpty_eq hi, hbody, if_pos (by simp)]
    exact Yields.some ⟨by simp [bodyLines_of_not_mem, MemoryStream.strTrimCRLF], q, hi, hmarks⟩
  | line l body hmem ih =>
    obtain ⟨n, rfl⟩ := Nat.exists_eq_succ_of_ne_zero (by omega : fuel ≠ 0)
    obtain ⟨h', s', q', hi', hbody', hmarks', hpass⟩ := readParams_line hi hmem hbody params n
    rw [length_append, length_cons] at hfuel
    rw [hpass]
    apply (ih ((closed_line l body).1 hclosed) hi' hbody' (hmarks'.trans hmarks) _ (by omega)).mono
    rintro ⟨params', _, _⟩ ⟨rfl, hrest⟩
    refine ⟨?_, hrest⟩
    rw [bodyLines_line hmem]
    by_cases hline : MemoryStream.strTrimCRLF l = []
    · simp [hline]
    · simp [hline]

/-- A body that is not closed keeps the loop running. -/
theorem readParams_eq_none (fuel : Nat) (hi : Inv h held s q) (hopen : ¬ Closed q.readable) (params : List Bytes) :
    readParams fuel h s params = none := by
  induction fuel generalizing h s q params with
  | zero => rfl
  | succ fuel ih =>
    by_cases hmem : 10 ∈ q.readable
    · obtain ⟨l, _, hl, hbody⟩ := Lines.exists_line hmem
      obtain ⟨h', s', _, hi', hbody', -, hpass⟩ := readParams_line hi hl hbody params fuel
      rw [hpass]
      apply ih hi'
      rwa [hbody', ← closed_line l, ← hbody]
    · have hne : q.readable ≠ [] := fun hnil => hopen (Or.inl hnil)
      obtain ⟨h', s', hi', hpass⟩ := readParams_of_not_mem hi hne hmem params fuel
      rw [hpass]
      exact ih hi' hopen _

end Loop

/-! ## The reply -/

section Reply

variable {h : Heap} {held : Nat → Nat} {req : StreamedRequest} {q : MarkedQueue UInt8}

/-- The copy of the body, as the loop finds it. -/
theorem copy_yields (blockSize : ℕ+) (hi : Inv h held req.data_ q) :
    Yields ((MemoryStream.new blockSize).appendStreamNonDestructive h req.data_ 0 (-1)) fun (h', tmp) =>
      ∃ q', Inv h' (refs req.data_.blocks_ held) tmp q' ∧ q'.readable = q.readable ∧ q'.marks = [] := by
  obtain ⟨D, hs, -⟩ := id hi
  have hheld : ∀ r ∈ req.data_.blocks_.live, 0 < refs req.data_.blocks_ held r := by
    intro r hr
    have hcount := count_pos_iff.2 hr
    rw [refs]
    omega
  apply (appendStreamNonDestructive_yields (new_inv blockSize hs.heapOk) hi hheld 0 (-1)).mono
  rintro ⟨h', tmp⟩ ⟨hi', -⟩
  refine ⟨_, hi', ?_, rfl⟩
  rw [MarkedQueue.push_readable]
  simp [slice]

/-- Where no parameter is left, every line is empty. -/
theorem filter_bodyLines_eq_nil (body : Bytes) :
    (bodyLines body).filter (· ≠ []) = [] ↔ ∀ line ∈ bodyLines body, line = [] := by
  simp [filter_eq_nil_iff]

theorem handleGetParameter_closed (serverName : Bytes) (blockSize : ℕ+) (hi : Inv h held req.data_ q)
    (sent : List Message) (hclosed : Closed q.readable) : Answered serverName blockSize h req q.readable sent := by
  cases hcseq : req.header_.fields_.cSeq with
  | none => exact ⟨0, h, empty, by simp [handleGetParameter, hcseq, simpleResponse, parameterStatus]⟩
  | some cseq =>
    obtain ⟨⟨_, _⟩, hcopy, _, hi₁, hbody, hmarks⟩ := copy_yields blockSize hi
    have hfuel : q.readable.length < q.size + 1 := by
      rw [MarkedQueue.length_readable]
      omega
    obtain ⟨⟨params, _, _⟩, hread, hparams, _, hi₂, hmarks₂⟩ :=
      readParams_yields q.readable hclosed hi₁ hbody hmarks [] hfuel
    obtain ⟨⟨h₃, _⟩, hclear, -, -⟩ := clear_yields hi₂ hmarks₂
    rw [nil_append] at hparams
    by_cases hempty : params = []
    · obtain ⟨fields, hping⟩ := pingResponse_eq_some serverName cseq
      have hstatus : parameterStatus req.header_ q.readable = .ok := by
        rw [parameterStatus, hcseq, if_neg nofun, if_pos]
        rwa [← filter_bodyLines_eq_nil, ← hparams]
      exact ⟨q.size + 1, h₃, fields, by simp [handleGetParameter, hcseq, hcopy, hread, hempty, hping, hclear, hstatus]⟩
    · obtain ⟨fields, hreply⟩ := simpleResponse_eq_some .notImplemented (some cseq)
      have hstatus : parameterStatus req.header_ q.readable = .notImplemented := by
        rw [parameterStatus, hcseq, if_neg nofun, if_neg]
        rwa [← filter_bodyLines_eq_nil, ← hparams]
      exact ⟨q.size + 1, h₃, fields, by simp [handleGetParameter, hcseq, hcopy, hread, hempty, hreply, hclear, hstatus]⟩

/-- Once the loop is reached, a body that is not closed is never answered. -/
theorem handleGetParameter_open (serverName : Bytes) (blockSize : ℕ+) (hi : Inv h held req.data_ q)
    (sent : List Message) (hcseq : req.header_.fields_.cSeq ≠ none) (hopen : ¬ Closed q.readable) (fuel : Nat) :
    handleGetParameter serverName blockSize fuel h req sent = none := by
  obtain ⟨_, hcseq⟩ := Option.ne_none_iff_exists'.1 hcseq
  obtain ⟨⟨_, _⟩, hcopy, _, hi₁, hbody, -⟩ := copy_yields blockSize hi
  have hnone := readParams_eq_none fuel hi₁ (by rwa [hbody]) []
  simp [handleGetParameter, hcseq, hcopy, hnone]

/-- A request is answered, once and with the status for its body, exactly where it has no `CSeq` or the last line of its
body is closed. -/
theorem getParameter_answered_iff (serverName : Bytes) (blockSize : ℕ+) (hi : Inv h held req.data_ q)
    (sent : List Message) :
    Answered serverName blockSize h req q.readable sent ↔
      req.header_.fields_.cSeq = none ∨ Closed q.readable := by
  constructor
  · rintro ⟨fuel, _, _, hanswer⟩
    by_contra hneither
    obtain ⟨hcseq, hopen⟩ := not_or.1 hneither
    rw [handleGetParameter_open serverName blockSize hi sent hcseq hopen fuel] at hanswer
    cases hanswer
  · rintro (hcseq | hclosed)
    · exact ⟨0, h, empty, by simp [handleGetParameter, hcseq, simpleResponse, parameterStatus]⟩
    · exact handleGetParameter_closed serverName blockSize hi sent hclosed

end Reply

/-- The header of a request with a `CSeq`. -/
def pingHeader : RequestHeader := ⟨.getParameter, none, ⟨[.numeric .cSeq 1], List.pairwise_singleton _ _⟩⟩

/-- A body of two empty lines in two blocks is answered. -/
theorem getParameter_answered_ping : ∃ (h : Heap) (data_ : MemoryStream) (q : MarkedQueue UInt8),
    q.readable = [13, 10, 10] ∧ parameterStatus pingHeader q.readable = .ok ∧
      Answered [] 4 h ⟨pingHeader, data_⟩ q.readable [] := by
  obtain ⟨⟨h, s⟩, -, hi⟩ := appendPieces_yields (new_inv 4 heapOk_empty) [⟨[13], [0]⟩, ⟨[10, 10], []⟩]
  refine ⟨h, s, MarkedQueue.empty.push [13, 10, 10], rfl, by decide +kernel, ?_⟩
  have hi' : Inv h _ (StreamedRequest.mk pingHeader s).data_ _ := hi
  exact (getParameter_answered_iff [] 4 hi' []).2 (Or.inr (Or.inr rfl))

/-- A parameter whose line is not closed is never answered. -/
theorem getParameter_unanswered : ¬ ∀ (blockSize : ℕ+) (h : Heap) (held : Nat → Nat) (req : StreamedRequest)
    (q : MarkedQueue UInt8), Inv h held req.data_ q → req.header_.fields_.cSeq ≠ none →
      Answered [] blockSize h req q.readable [] := by
  intro hclaim
  obtain ⟨⟨h, s⟩, -, hi⟩ := appendPieces_yields (new_inv 4 heapOk_empty) [⟨[97], []⟩]
  have hcseq : pingHeader.fields_.cSeq ≠ none := by decide
  have hopen : ¬ Closed (MarkedQueue.empty.push [97]).readable := by
    rintro (hnil | hlast)
    · cases hnil
    · exact absurd hlast (by decide)
  obtain ⟨fuel, _, _, hanswer⟩ := hclaim 4 h _ ⟨pingHeader, s⟩ _ hi hcseq
  have hi' : Inv h _ (StreamedRequest.mk pingHeader s).data_ _ := hi
  rw [handleGetParameter_open [] 4 hi' [] hcseq hopen fuel] at hanswer
  cases hanswer

end ServerProcessor

end Whispercast.Rtsp
