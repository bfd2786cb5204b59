import Whispercast.Library.Resumable
import Whispercast.Rtsp.FieldRoundTrip
import Whispercast.Rtsp.Resuming

/-!
# RTSP messages survive the wire

What the encoder writes for a message is decoded to the same message, whatever follows it, and a decoder that has
seen a part of it goes on when the rest comes (`resumable`). The exception are interleaved frames: a frame must not be
cut behind its four bytes of header.
-/

namespace Whispercast.Rtsp

open Io Library Decoder Encoder FieldMap List Message Option
open Http (ascii crlf cStr intToString readLine)

/-! ## Messages that can be written -/

/-- A name that can be told from what is around it in its line. -/
structure NameOk (name : Bytes) : Prop where
  ne : name ≠ []
  no_blank : 32 ∉ name
  no_colon : 58 ∉ name
  no_nul : 0 ∉ name
  no_lf : 10 ∉ name

/-- A value that can be told from what is around it in its line. -/
structure ValueOk (value : Bytes) : Prop where
  ne : value ≠ []
  no_cr : 13 ∉ value
  no_lf : 10 ∉ value
  head : value.head? ≠ some 32
  last : value.getLast? ≠ some 32

/-- A field that can be sent. -/
structure FieldOk (pf : Platform) (field : HeaderField) : Prop where
  encodable : field.Encodable pf
  value : ValueOk field.strEncode
  custom : ∀ name value, field = .custom name value → NameOk name

/-- A header with a `CSeq` whose fields can be sent. -/
structure FieldsOk (pf : Platform) (fields : FieldMap) : Prop where
  each : ∀ field ∈ fields.fields, FieldOk pf field
  cSeq : (fields.getField (FieldType.numeric .cSeq).enc).isSome = true

/-- A URL of this scheme, without blanks, that is parsed to itself. -/
structure UrlOk (pf : Platform) (url : Bytes) : Prop where
  parses : pf.rtspUrl url = some url
  scheme : ascii "rtsp:" <+: url
  authority : ascii "://" <:+: url
  no_blank : 32 ∉ url
  no_nul : 0 ∉ url
  no_lf : 10 ∉ url

namespace Message

/-- A message that can be sent. -/
def Sendable (pf : Platform) : Message → Prop
  | .request header_ data_ => FieldsOk pf header_.fields_ ∧ checkContent header_.fields_ data_ = true ∧
      ∀ url ∈ header_.url_, UrlOk pf url
  | .response header_ data_ => FieldsOk pf header_.fields_ ∧ checkContent header_.fields_ data_ = true
  | .interleavedFrame _ data_ => data_.length < 65535

/-- A message that the decoder can be interrupted in, after `p`. -/
def CutOk : Message → Bytes → Prop
  | .interleavedFrame _ _, p => p.length < 4
  | _, _ => True

/-- What is written for a message. -/
def wire (message : Message) : Bytes := (Encoder.encode message).getD []

end Message

/-! ## Header lines -/

section Lines

variable {pf : Platform}

theorem nameOk_standard {t : FieldType} (h : t ≠ .custom) : NameOk t.enc := by
  have hall : ∀ t ∈ FieldType.standard, t.enc ≠ [] ∧ 32 ∉ t.enc ∧ 58 ∉ t.enc ∧ 0 ∉ t.enc ∧ 10 ∉ t.enc :=
    forall_iff_forall_mem.1 (by decide +kernel)
  obtain ⟨hne, hblank, hcolon, hnul, hlf⟩ := hall t (FieldType.mem_standard h)
  exact ⟨hne, hblank, hcolon, hnul, hlf⟩

theorem FieldOk.name {field : HeaderField} (h : FieldOk pf field) : NameOk field.name := by
  cases field with
  | numeric type value_ => exact nameOk_standard (t := .numeric type) (nomatch ·)
  | date type time_ => exact nameOk_standard (t := .date type) (nomatch ·)
  | string type value_ => exact nameOk_standard (t := .string type) (nomatch ·)
  | session field => exact nameOk_standard (t := .session) (nomatch ·)
  | transport field => exact nameOk_standard (t := .transport) (nomatch ·)
  | custom name_ value_ => exact h.custom name_ value_ rfl

theorem rdropWhile_blank {s : Bytes} (h : s.getLast? ≠ some 32) : s.rdropWhile (· = 32) = s := by
  rw [rdropWhile_eq_self_iff]
  intro hne hlast
  rw [getLast?_eq_some_getLast hne] at h
  exact h (congrArg some (of_decide_eq_true hlast))

theorem dropWhile_blank {s : Bytes} (h : s.head? ≠ some 32) : s.dropWhile (· = 32) = s := by
  cases s with
  | nil => rfl
  | cons c s =>
    rw [dropWhile_cons_of_neg]
    rw [decide_eq_true_iff]
    rintro rfl
    exact h rfl

/-- Name and value of a line are found. -/
theorem splitLine_fieldLine {name value : Bytes} (hname : NameOk name) (hvalue : ValueOk value) :
    splitLine (name ++ (ascii ": " ++ value)) = some (name, value) := by
  have hfirst : (name ++ (ascii ": " ++ value)).dropWhile (· = 32) = name ++ (ascii ": " ++ value) := by
    apply dropWhile_blank
    obtain ⟨c, s, rfl⟩ := exists_cons_of_ne_nil hname.ne
    rw [cons_append, head?_cons]
    intro hc
    cases hc
    exact hname.no_blank mem_cons_self
  have hkey : (name ++ (ascii ": " ++ value)).takeWhile (fun c => c ≠ 58 && c ≠ 0) = name := by
    rw [takeWhile_append_of_pos]
    · exact append_nil name
    · intro c hc
      rw [Bool.and_eq_true, decide_eq_true_iff, decide_eq_true_iff]
      constructor
      · rintro rfl
        exact hname.no_colon hc
      · rintro rfl
        exact hname.no_nul hc
  have hlast : name.getLast? ≠ some 32 := fun h => hname.no_blank (mem_of_getLast? h)
  have hbehind : (name ++ (ascii ": " ++ value)).drop (name.length + 1) = 32 :: value := by
    rw [← drop_drop, drop_left]
    rfl
  have hskip : (32 :: value).dropWhile (· = 32) = value := by
    rw [dropWhile_cons_of_pos (by decide), dropWhile_blank hvalue.head]
  rw [splitLine, hfirst]
  dsimp only
  rw [hkey, drop_left, hbehind, hskip, rdropWhile_blank hlast, rdropWhile_blank hvalue.last, if_neg hvalue.ne,
    if_neg]
  simp [ascii, hname.ne]

/-- A line as `ReadLine` shows it. -/
theorem strTrimCRLF_text {s : Bytes} (hcr : s.getLast? ≠ some 13) (hlf : s.getLast? ≠ some 10) :
    MemoryStream.strTrimCRLF (s ++ [13]) = s := by
  rw [MemoryStream.strTrimCRLF, rdropWhile_concat_pos _ _ _ rfl, rdropWhile_eq_self_iff]
  intro hne' hlast
  rw [getLast?_eq_some_getLast hne'] at hcr hlf
  rw [Bool.or_eq_true, beq_iff_eq, beq_iff_eq] at hlast
  rcases hlast with h | h
  · exact hlf (congrArg some h)
  · exact hcr (congrArg some h)

/-- The line of a field without its line feed. -/
def fieldText (field : HeaderField) : Bytes := field.name ++ (ascii ": " ++ field.strEncode)

theorem fieldLine_eq (field : HeaderField) (rest : Bytes) :
    Encoder.fieldLine field ++ rest = (fieldText field ++ [13]) ++ 10 :: rest := by
  simp [fieldLine, fieldText, crlf]

theorem decodeField_fieldText {field : HeaderField} (h : FieldOk pf field) {m m' : FieldMap}
    (hm : m'.fields = m.fields ++ [field]) : Decoder.decodeField pf m (fieldText field) = some m' := by
  have hlt : ∀ g ∈ m.fields, g.name < field.name := by
    have hsorted := m'.sorted
    rw [hm, pairwise_append] at hsorted
    exact fun g hg => hsorted.2.2 g hg field (List.mem_singleton_self _)
  have hnew : m.getField field.name = none := by
    rw [FieldMap.getField, List.find?_eq_none]
    intro g hg heq
    have hlt' := hlt g hg
    rw [of_decide_eq_true heq] at hlt'
    exact List.lt_irrefl _ hlt'
  have hadd : m.addField field = some m' := by
    rw [FieldMap.addField, dif_pos hnew]
    refine congrArg some (ext ?_)
    rw [hm]
    exact FieldMap.insertField_of_lt hlt
  simp only [Decoder.decodeField, fieldText, splitLine_fieldLine h.name h.value, HeaderField.decode_strEncode h.encodable,
    hnew, hadd, Option.bind_eq_bind, Option.bind_some, Option.isSome_none, Bool.false_eq_true, if_false]

/-- The lines of the fields are read one after the other. -/
theorem decodeHeader_fields {todo : List HeaderField} {m m' : FieldMap} (hm : m'.fields = m.fields ++ todo)
    (h : ∀ field ∈ todo, FieldOk pf field) (y : Bytes) :
    Decoder.decodeHeader pf m (todo.flatMap Encoder.fieldLine ++ (crlf ++ y)) = (.success, m', y) := by
  induction todo generalizing m with
  | nil =>
    have heq : m = m' := ext (by rw [hm, append_nil])
    have htext : ([] : List HeaderField).flatMap fieldLine ++ (crlf ++ y) = [13] ++ 10 :: y := rfl
    rw [htext, decodeHeader_line (by decide), if_pos (by decide), heq]
  | cons field todo ih =>
    have hfield := h field mem_cons_self
    have hsorted := m'.sorted
    rw [hm, ← singleton_append, ← append_assoc, pairwise_append] at hsorted
    have hlf : 10 ∉ fieldText field ++ [13] := by
      simp [fieldText, ascii, hfield.name.no_lf, hfield.value.no_lf]
    have hlast : ∀ c, (fieldText field).getLast? = some c → c ∈ field.strEncode := by
      intro c hc
      rw [fieldText, getLast?_append_of_ne_nil _ (append_ne_nil_of_right_ne_nil _ hfield.value.ne),
        getLast?_append_of_ne_nil _ hfield.value.ne] at hc
      exact mem_of_getLast? hc
    have hne : fieldText field ≠ [] := append_ne_nil_of_left_ne_nil hfield.name.ne _
    have htrim : MemoryStream.strTrimCRLF (fieldText field ++ [13]) = fieldText field :=
      strTrimCRLF_text (fun hc => hfield.value.no_cr (hlast _ hc)) fun hc => hfield.value.no_lf (hlast _ hc)
    have hdecode := @decodeField_fieldText pf field hfield m ⟨m.fields ++ [field], hsorted.1⟩ rfl
    rw [flatMap_cons, append_assoc, fieldLine_eq, decodeHeader_line hlf, htrim, if_neg hne, hdecode]
    refine ih ?_ fun g hg => h g (mem_cons_of_mem _ hg)
    rw [hm, append_assoc, singleton_append]

end Lines

/-! ## Header and body -/

section Body

variable {pf : Platform} {fields : FieldMap} {data : Bytes}

/-- The length in a header that can be sent is not negative, and is that of the body. -/
theorem FieldsOk.announces (h : FieldsOk pf fields) : Decoder.Announces fields := by
  intro value hvalue
  rw [contentLength] at hvalue
  rcases hfield : fields.getField (FieldType.numeric .contentLength).enc with _ | field
  · rw [hfield] at hvalue
    cases hvalue
  · rw [hfield] at hvalue
    have hok := h.each field (mem_of_getField hfield).1
    cases field with
    | numeric type value_ =>
      cases hvalue
      exact hok.encodable
    | date type time_ => cases hvalue
    | string type value_ => cases hvalue
    | session field => cases hvalue
    | transport field => cases hvalue
    | custom name_ value_ => cases hvalue

theorem length_of_checkContent (hcheck : checkContent fields data = true) :
    (fields.contentLength.map fun value => (value % 2 ^ 32).toNat).getD 0 = data.length := by
  rw [checkContent] at hcheck
  rcases hvalue : fields.contentLength with _ | value
  · rw [hvalue] at hcheck
    rw [isEmpty_iff.1 hcheck]
    rfl
  · rw [hvalue] at hcheck
    have heq : value % 2 ^ 32 = data.length := of_decide_eq_true hcheck
    rw [map_some, getD_some, heq, Int.toNat_natCast]

/-- Header and body are read, whatever follows. -/
theorem decodeHeaderAndBody_whole (h : FieldsOk pf fields) (hcheck : checkContent fields data = true) (y : Bytes) :
    Decoder.decodeHeaderAndBody pf ⟨.empty, [], 0, .header⟩ (Encoder.encodeBaseHeader fields ++ (data ++ y)) =
      (.success, ⟨fields, data, data.length, .idle⟩, y) := by
  have hheader := @decodeHeader_fields pf fields.fields .empty fields (nil_append _).symm h.each (data ++ y)
  have hlength := length_of_checkContent hcheck
  have hlt : data.length < 2 ^ 31 := by
    rw [← hlength]
    rcases hvalue : fields.contentLength with _ | value
    · decide
    · have hbounds := h.announces value hvalue
      rw [map_some, getD_some]
      omega
  have hcseq : ¬ (fields.getField (FieldType.numeric .cSeq).enc).isNone = true := by
    rw [isNone_iff_eq_none]
    exact isSome_iff_ne_none.1 h.cSeq
  simp only [decodeHeaderAndBody]
  rw [encodeBaseHeader, append_assoc, hheader]
  dsimp only
  rw [headerEnd]
  dsimp only
  rw [if_neg hcseq, hlength]
  split_ifs with hzero
  · rw [length_eq_zero_iff.1 hzero]
    rfl
  · rw [bodyPhase_full (r := ⟨fields, [], data.length, .body⟩) hlt (Nat.pos_of_ne_zero hzero) (Nat.zero_add _)]
    rfl

/-- No part of the header leads to a body that cannot be read. -/
theorem headBounded_part (h : FieldsOk pf fields) (hcheck : checkContent fields data = true) {line p q : Bytes}
    (hline : 10 ∉ line) (heq : p ++ q = line ++ 10 :: (Encoder.encodeBaseHeader fields ++ data)) :
    Decoder.HeadBounded pf .empty [] p := by
  intro l rest hl hp
  rw [hp, append_assoc, cons_append] at heq
  obtain ⟨-, hrest⟩ := Lines.line_inj hl hline heq
  refine ⟨rfl, ?_⟩
  intro fields' rest' hdecode
  -- The header that is complete is that of the message.
  have hheader := @decodeHeader_fields pf fields.fields .empty fields (nil_append _).symm h.each data
  have hcontinues := @decodeHeader_continues pf .empty rest q
  rw [hrest, hdecode, encodeBaseHeader, append_assoc, hheader] at hcontinues
  have hpair : ((Ending.success, fields, data) : Ending × FieldMap × Bytes) =
      (.success, fields', rest' ++ q) := hcontinues
  obtain ⟨-, rfl, -⟩ := Prod.mk.injEq _ _ _ _ ▸ hpair
  exact h.announces

end Body

/-! ## First lines -/

section FirstLine

variable {pf : Platform}

/-- The first line of a request, without its end. -/
def requestText (method : RequestMethod) (url : Option Bytes) : Bytes :=
  method.enc ++ 32 :: (url.getD (ascii "*") ++ ascii " RTSP/1.0")

theorem methodText (method : RequestMethod) :
    32 ∉ method.enc ∧ 0 ∉ method.enc ∧ 10 ∉ method.enc ∧ method.enc.length ≤ 13 := by
  cases method <;> decide +kernel

variable {url : Option Bytes}

theorem urlText (h : ∀ u ∈ url, UrlOk pf u) :
    32 ∉ url.getD (ascii "*") ∧ 0 ∉ url.getD (ascii "*") ∧ 10 ∉ url.getD (ascii "*") := by
  cases url with
  | none => decide
  | some u => exact ⟨(h u rfl).no_blank, (h u rfl).no_nul, (h u rfl).no_lf⟩

variable {method : RequestMethod}

theorem not_mem_requestText (h : ∀ u ∈ url, UrlOk pf u) :
    0 ∉ requestText method url ∧ 10 ∉ requestText method url := by
  have hm := methodText method
  have hu := urlText h
  have hversion : 0 ∉ ascii " RTSP/1.0" ∧ 10 ∉ ascii " RTSP/1.0" := by decide
  constructor
  · simp [requestText, hm.2.1, hu.2.1, hversion.1]
  · simp [requestText, hm.2.2.1, hu.2.2, hversion.2]

theorem strEncodeRequestLine_eq (h : ∀ u ∈ url, UrlOk pf u) :
    Encoder.strEncodeRequestLine method url = some (requestText method url ++ crlf) := by
  have hm := methodText method
  have hcstr := cStr_of_not_mem (urlText h).2.1
  have hlen : (method.enc ++ 32 :: (url.getD (ascii "*") ++ (ascii " RTSP/1.0" ++ crlf))).length <
      32 + (url.getD []).length := by
    cases url with
    | none => simp [ascii, crlf]; omega
    | some u => simp [ascii, crlf]; omega
  rw [strEncodeRequestLine, hcstr, if_pos hlen, requestText]
  simp

theorem parseString_part {sep : UInt8} {s : Bytes} (h : sep ∉ s) (rest : Bytes) :
    parseString sep (s ++ sep :: rest) = some (s, rest) := by
  rw [parseString, if_pos (mem_append_right _ mem_cons_self), takeWhile_sep h, dropWhile_sep h, drop_one,
    tail_cons]

theorem parseUrl_text (h : ∀ u ∈ url, UrlOk pf u) : parseUrl pf (url.getD (ascii "*")) = some url := by
  cases url with
  | none => rfl
  | some u =>
    obtain ⟨_, hrest⟩ := (h u rfl).scheme
    have hhead : u.head? ≠ some 42 := by
      rw [← hrest]
      exact (nomatch ·)
    rw [getD_some, parseUrl, if_neg hhead, if_pos (h u rfl).authority, (h u rfl).parses, map_some]

theorem parseRequestLine_text (h : ∀ u ∈ url, UrlOk pf u) :
    parseRequestLine pf (requestText method url) = some (method, url) := by
  have hversion : parseVersion (ascii "RTSP/1.0") = some [] := by decide +kernel
  have hurl : parseString 32 (url.getD (ascii "*") ++ ascii " RTSP/1.0") =
      some (url.getD (ascii "*"), ascii "RTSP/1.0") := parseString_part (urlText h).1 (ascii "RTSP/1.0")
  rw [parseRequestLine, cStr_of_not_mem (not_mem_requestText h).1, requestText,
    parseString_part (methodText method).1]
  simp only [Option.bind_eq_bind, Option.bind_some, hurl, hversion, ne_eq, not_true_eq_false, if_false,
    RequestMethod.dec_enc, parseUrl_text h, Option.pure_def]

/-- The first line of a response, without its end. -/
def responseText (status : StatusCode) : Bytes :=
  ascii "RTSP/1.0 " ++ (intToString status.toNat ++ 32 :: status.description)

theorem responseText_spec (status : StatusCode) :
    parseResponseLine (responseText status) = some status ∧ 10 ∉ responseText status ∧
      (responseText status).length < 126 ∧ ∃ c ∈ (responseText status).getLast?, c ≠ 13 ∧ c ≠ 10 := by
  cases status <;> decide +kernel

theorem strEncodeResponseLine_eq (status : StatusCode) :
    Encoder.strEncodeResponseLine status = some (responseText status ++ crlf) := by
  have hlen := (responseText_spec status).2.2.1
  have htext : ascii "RTSP/1.0 " ++ (intToString status.toNat ++ 32 :: (status.description ++ crlf)) =
      responseText status ++ crlf := by simp [responseText]
  rw [strEncodeResponseLine, htext, if_pos]
  rw [length_append]
  exact Nat.add_lt_of_lt_sub hlen

end FirstLine

/-! ## Messages -/

section Headed

variable {pf : Platform} {κ : Type} {parseLine : Bytes → Option κ} {message : κ → FieldMap → Bytes → Message}

open Decoder

/-- The new message depends on the first four bytes. -/
theorem newMessage_take (io : Bytes) : newMessage (io.take 4) = newMessage io := by
  have hhead : (io.take 4).head? = io.head? := by
    cases io <;> rfl
  rw [newMessage, newMessage, hhead, take_take, Nat.min_self]

theorem newMessage_front {p : Bytes} (h : 4 ≤ p.length) (y : Bytes) : newMessage (p ++ y) = newMessage p := by
  rw [← newMessage_take, take_append_of_le_length h, newMessage_take]

/-- A call between two messages. -/
theorem decode_begin {d : Decoder} (hd : d.msg_ = none) {io : Bytes} (h : 4 ≤ io.length) :
    decode pf d io = decodeMessage pf ⟨none, 0, .idle⟩ (newMessage io) io := by
  rw [decode, hd]
  exact if_neg (Nat.not_lt.2 h)

theorem decode_wait {d : Decoder} (hd : d.msg_ = none) {io : Bytes} (h : io.length < 4) :
    decode pf d io = .more d io := by
  rw [decode, hd]
  exact if_pos h

/-- What the requests and the responses have in common: the first line is read as `key`, the header and the body of
the message follow. -/
structure Headed (pf : Platform) (parseLine : Bytes → Option κ) (message : κ → FieldMap → Bytes → Message) (key : κ)
    (fields : FieldMap) (data line : Bytes) : Prop where
  switch : ∀ d key fields data io, decodeMessage pf d (message key fields data) io =
    decodeHeaded pf parseLine message d key fields data io
  begins : ∃ key₀, newMessage line = message key₀ .empty []
  long : 4 ≤ line.length
  no_lf : 10 ∉ line
  parses : parseLine (MemoryStream.strTrimCRLF line) = some key
  fieldsOk : FieldsOk pf fields
  check : checkContent fields data = true

variable {key : κ} {fields : FieldMap} {data line : Bytes}

/-- The message is read, whatever follows. -/
theorem Headed.whole (h : Headed pf parseLine message key fields data line) {d : Decoder} (hd : d.msg_ = none)
    (y : Bytes) : ∃ d', d'.msg_ = none ∧
      decode pf d (line ++ 10 :: (Encoder.encodeBaseHeader fields ++ data) ++ y) = .out (message key fields data) d' y := by
  obtain ⟨_, hbegins⟩ := h.begins
  refine ⟨⟨none, data.length, .idle⟩, rfl, ?_⟩
  have hlong := h.long
  rw [decode_begin hd (by simp only [length_append]; omega), append_assoc, newMessage_front hlong, hbegins,
    h.switch, cons_append, decodeHeaded_line rfl h.no_lf, h.parses]
  rw [append_assoc, decodeHeaderAndBody_whole h.fieldsOk h.check]
  rfl

/-- Where the message is cut, the decoder goes on. -/
theorem Headed.part (h : Headed pf parseLine message key fields data line) {d : Decoder} (hd : d.msg_ = none)
    {p q : Bytes} (heq : p ++ q = line ++ 10 :: (Encoder.encodeBaseHeader fields ++ data)) (hq : q ≠ []) :
    ∃ d' r, decode pf d p = .more d' r ∧ ∀ y, decode pf d' (r ++ y) = decode pf d (p ++ y) := by
  by_cases hshort : p.length < 4
  · exact ⟨d, p, decode_wait hd hshort, fun _ => rfl⟩
  · have hlong : 4 ≤ p.length := Nat.not_lt.1 hshort
    obtain ⟨key₀, hbegins⟩ := h.begins
    have hnew : newMessage p = message key₀ .empty [] := by
      rw [← newMessage_front hlong q, heq, newMessage_front h.long, hbegins]
    have hcall : ∀ y, decode pf d (p ++ y) =
        decodeHeaded pf parseLine message ⟨none, 0, .idle⟩ key₀ .empty [] (p ++ y) := by
      intro y
      rw [decode_begin hd (by rw [length_append]; omega), newMessage_front hlong, hnew, h.switch]
    have hfirst := hcall []
    rw [append_nil] at hfirst
    have hcontinues := @decodeHeaded_continues pf κ parseLine message ⟨none, 0, .idle⟩ key₀ .empty [] p rfl rfl
      (headBounded_part h.fieldsOk h.check h.no_lf heq)
    obtain ⟨_, -, hwhole⟩ := h.whole hd []
    rw [append_nil, ← heq, hcall] at hwhole
    rcases hresult : decodeHeaded pf parseLine message ⟨none, 0, .idle⟩ key₀ .empty [] p with
      ⟨a, d', r⟩ | ⟨d', r⟩ | ⟨e, d', r⟩
    · -- A part is not the message.
      have hout := hcontinues q
      rw [hresult] at hout
      rw [hout] at hwhole
      injection hwhole with _ _ hrest
      exact absurd (append_eq_nil_iff.1 hrest).2 hq
    · refine ⟨d', r, hfirst.trans hresult, ?_⟩
      intro y
      have hmore := hcontinues y
      rw [hresult] at hmore
      obtain ⟨key', fields', data', hmsg, hgo⟩ := hmore
      rw [hcall, ← hgo, decode, hmsg]
      exact h.switch d' key' fields' data' (r ++ y)
    · have hfail := hcontinues q
      rw [hresult] at hfail
      rw [hfail] at hwhole
      cases hwhole

end Headed

section Messages

variable {pf : Platform}

open Decoder

theorem strTrimCRLF_head {s : Bytes} {c : UInt8} (h : s.getLast? = some c) (hcr : c ≠ 13) (hlf : c ≠ 10) :
    MemoryStream.strTrimCRLF (s ++ [13]) = s := by
  refine strTrimCRLF_text ?_ ?_
  · rw [h]
    exact fun heq => hcr (Option.some.inj heq)
  · rw [h]
    exact fun heq => hlf (Option.some.inj heq)

variable {data_ : Bytes}

/-- A request that can be sent. -/
theorem headed_request {header_ : RequestHeader} (h : (Message.request header_ data_).Sendable pf) :
    Headed pf (parseRequestLine pf) (fun key fields data => .request ⟨key.1, key.2, fields⟩ data)
      (header_.method_, header_.url_) header_.fields_ data_ (requestText header_.method_ header_.url_ ++ [13]) := by
  obtain ⟨hfields, hcheck, hurl⟩ := h
  have hmethod : ∀ s, newMessage (header_.method_.enc ++ s) = .request ⟨.describe, none, .empty⟩ [] := by
    intro s
    have hlong : 4 ≤ header_.method_.enc.length := by
      cases header_.method_ <;> decide +kernel
    rw [newMessage_front hlong]
    cases header_.method_ <;> rfl
  have hlast : (requestText header_.method_ header_.url_).getLast? = some 48 := by
    rw [requestText, getLast?_append_of_ne_nil _ (cons_ne_nil _ _), ← cons_append,
      getLast?_append_of_ne_nil _ (by decide)]
    rfl
  exact {
    switch := fun _ _ _ _ _ => rfl
    begins := ⟨(.describe, none), by rw [requestText, append_assoc]; exact hmethod _⟩
    long := by
      simp only [requestText, length_append, length_cons, ascii]
      simp
      omega
    no_lf := by
      rw [mem_append, not_or]
      exact ⟨(not_mem_requestText hurl).2, by decide⟩
    parses := by
      rw [strTrimCRLF_head hlast (by decide) (by decide)]
      exact parseRequestLine_text hurl
    fieldsOk := hfields
    check := hcheck }

/-- A response that can be sent. -/
theorem headed_response {header_ : ResponseHeader} (h : (Message.response header_ data_).Sendable pf) :
    Headed pf parseResponseLine (fun key fields data => .response ⟨key, fields⟩ data)
      header_.status_ header_.fields_ data_ (responseText header_.status_ ++ [13]) := by
  obtain ⟨hfields, hcheck⟩ := h
  have hspec := responseText_spec header_.status_
  obtain ⟨c, hlast, hcr, hlf⟩ := hspec.2.2.2
  exact {
    switch := fun _ _ _ _ _ => rfl
    begins := ⟨.ok, by
      rw [responseText, append_assoc]
      exact newMessage_front (p := ascii "RTSP/1.0 ") (by decide) _⟩
    long := by
      simp only [responseText, length_append, ascii]
      simp
      omega
    no_lf := by
      rw [mem_append, not_or]
      exact ⟨hspec.2.1, by decide⟩
    parses := by
      rw [strTrimCRLF_head hlast hcr hlf]
      exact hspec.1
    fieldsOk := hfields
    check := hcheck }

/-- The wire form of the messages that can be sent; no `CHECK` of the encoder fails. -/
theorem encode_request {header_ : RequestHeader} (h : (Message.request header_ data_).Sendable pf) :
    Encoder.encode (.request header_ data_) = some ((requestText header_.method_ header_.url_ ++ [13]) ++
      10 :: (Encoder.encodeBaseHeader header_.fields_ ++ data_)) := by
  obtain ⟨-, hcheck, hurl⟩ := h
  rw [encode, if_pos hcheck, strEncodeRequestLine_eq hurl]
  simp [crlf]

theorem encode_response {header_ : ResponseHeader} (h : (Message.response header_ data_).Sendable pf) :
    Encoder.encode (.response header_ data_) = some ((responseText header_.status_ ++ [13]) ++
      10 :: (Encoder.encodeBaseHeader header_.fields_ ++ data_)) := by
  obtain ⟨-, hcheck⟩ := h
  rw [encode, if_pos hcheck, strEncodeResponseLine_eq]
  simp [crlf]

theorem wire_frame (channel_ : UInt8) (h : data_.length < 65535) : (Message.interleavedFrame channel_ data_).wire =
      36 :: channel_ :: (NumStreamer.writeNumber 2 .bigEndian data_.length ++ data_) :=
  if_neg (Nat.not_le.2 h)

/-- A frame is read, whatever follows. -/
theorem decode_frame {channel_ : UInt8} (h : data_.length < 65535) {d : Decoder} (hd : d.msg_ = none)
    (y : Bytes) : decode pf d ((Message.interleavedFrame channel_ data_).wire ++ y) =
      .out (.interleavedFrame channel_ data_) ⟨none, 0, .idle⟩ y := by
  have hnumber : NumStreamer.numberOf .bigEndian (NumStreamer.writeNumber 2 .bigEndian data_.length) = data_.length :=
    NumStreamer.numberOf_writeNumber .bigEndian (by omega)
  have htwo := NumStreamer.writeNumber_length 2 .bigEndian data_.length
  obtain ⟨hi, lo, hbytes⟩ := length_eq_two.1 htwo
  rw [hbytes] at hnumber
  rw [wire_frame channel_ h, hbytes, decode_begin hd (by simp)]
  show decodeInterleavedFrame ⟨none, 0, .idle⟩ 0 [] (36 :: channel_ :: hi :: lo :: (data_ ++ y)) = _
  rw [decodeInterleavedFrame]
  rw [hnumber, if_neg (by rw [length_append]; omega), take_left, drop_left, nil_append]

/-- The decoder reads the messages that can be sent. -/
theorem resumable (pf : Platform) : Session.Resumable (decode pf) (fun d => d.msg_ = none) Message.wire id
    (Message.Sendable pf) Message.CutOk where
  idle d hd := decode_wait hd (by decide)
  pos message h := by
    cases message with
    | request header_ data_ =>
      rw [wire, encode_request h, getD_some]
      simp
    | response header_ data_ =>
      rw [wire, encode_response h, getD_some]
      simp
    | interleavedFrame channel_ data_ =>
      rw [wire_frame channel_ h]
      simp
  whole message h d hd y := by
    cases message with
    | request header_ data_ =>
      rw [wire, encode_request h, getD_some]
      exact (headed_request h).whole hd y
    | response header_ data_ =>
      rw [wire, encode_response h, getD_some]
      exact (headed_response h).whole hd y
    | interleavedFrame channel_ data_ => exact ⟨⟨none, 0, .idle⟩, rfl, decode_frame h hd y⟩
  part message h d hd p q heq _ hq hcut := by
    cases message with
    | request header_ data_ =>
      rw [wire, encode_request h, getD_some] at heq
      exact (headed_request h).part hd heq hq
    | response header_ data_ =>
      rw [wire, encode_response h, getD_some] at heq
      exact (headed_response h).part hd heq hq
    | interleavedFrame channel_ data_ => exact ⟨d, p, decode_wait hd hcut, fun _ => rfl⟩

/-- The encoder writes every message that can be sent. -/
theorem encode_sendable {message : Message} (h : message.Sendable pf) :
    Encoder.encode message = some message.wire := by
  cases message with
  | request header_ data_ => rw [wire, encode_request h, getD_some]
  | response header_ data_ => rw [wire, encode_response h, getD_some]
  | interleavedFrame channel_ data_ => rfl

theorem encodeAll_sendable {messages : List Message} (h : ∀ message ∈ messages, message.Sendable pf) :
    Encoder.encodeAll messages = some (messages.flatMap Message.wire) := by
  induction messages with
  | nil => rfl
  | cons message messages ih =>
    have hhead := encode_sendable (h message mem_cons_self)
    have htail := ih fun m hm => h m (mem_cons_of_mem _ hm)
    rw [encodeAll, hhead, htail, flatMap_cons]
    rfl

/-- No piece ends behind the header of an interleaved frame and before its end. -/
def CutsOk (messages : List Message) (pieces : List Bytes) : Prop :=
  Session.Cuts Message.wire Message.CutOk [] pieces messages

/-- Messages that can be sent are received as they were sent, in order, wherever the stream is cut, and nothing is
left over. -/
theorem messages_survive (pf : Platform) (messages : List Message)
    (hmessages : ∀ message ∈ messages, message.Sendable pf) :
    ∃ bytes, Encoder.encodeAll messages = some bytes ∧
      ∀ pieces : List Bytes, pieces.flatten = bytes → CutsOk messages pieces →
        ∃ d, d.msg_ = none ∧ Session.session (decode pf) Decoder.new [] pieces = ⟨messages, d, [], none⟩ := by
  refine ⟨messages.flatMap wire, encodeAll_sendable hmessages, ?_⟩
  intro pieces hpieces hcuts
  obtain ⟨d, hd, hsession⟩ := (resumable pf).session_eq (s := new) rfl hmessages hpieces hcuts
  rw [List.map_id] at hsession
  exact ⟨d, hd, hsession⟩

end Messages

/-! ## Messages that are sent and come back -/

section Samples

open Decoder

/-- A machine in UTC whose URLs are parsed to themselves. -/
def utc : Platform := ⟨some, 0, id, fun _ => 0⟩

/-- `CSeq: 7` and a transport. -/
def sampleFields : FieldMap where
  fields := [.numeric .cSeq 7, .transport
    { transport_ := ascii "RTP", profile_ := ascii "AVP", mode_ := some (ascii "PLAY"),
      client_port_ := some (4588, 4589) }]
  sorted := by decide +kernel

/-- A `SETUP` request with this header, behind a frame. -/
def sampleMessages : List Message :=
  [.interleavedFrame 1 [5, 6], .request ⟨.setup, some (ascii "rtsp://h/a.f4v"), sampleFields⟩ []]

theorem sampleFields_ok : FieldsOk utc sampleFields where
  each field hfield := by
    rcases mem_cons.1 hfield with rfl | hfield
    · exact ⟨⟨by decide, by decide⟩, ⟨by decide +kernel, by decide +kernel, by decide +kernel, by decide +kernel,
        by decide +kernel⟩, fun _ _ h => nomatch h⟩
    · obtain rfl := mem_singleton.1 hfield
      refine ⟨⟨?_, ?_, nofun, nofun, nofun, nofun, ?_, nofun, nofun, nofun, ?_, nofun, nofun⟩, ⟨by decide +kernel,
        by decide +kernel, by decide +kernel, by decide +kernel, by decide +kernel⟩, fun _ _ h => nomatch h⟩
      · exact ⟨by decide, by decide, by decide⟩
      · exact ⟨by decide, by decide, by decide⟩
      · rintro _ ⟨⟩
        decide
      · rintro _ ⟨⟩
        exact ⟨⟨by decide, by decide⟩, ⟨by decide, by decide⟩⟩
  cSeq := by decide +kernel

theorem sampleMessages_sendable : ∀ message ∈ sampleMessages, message.Sendable utc := by
  intro message hmessage
  rcases mem_cons.1 hmessage with rfl | hmessage
  · exact (by decide : (2 : Nat) < 65535)
  · obtain rfl := mem_singleton.1 hmessage
    refine ⟨sampleFields_ok, by decide +kernel, ?_⟩
    rintro _ ⟨⟩
    exact ⟨rfl, ⟨ascii "//h/a.f4v", rfl⟩, ⟨ascii "rtsp", ascii "h/a.f4v", rfl⟩, by decide, by decide, by decide⟩

/-- The stream cut after two bytes, inside the header of the frame. -/
def samplePieces : List Bytes :=
  [(sampleMessages.flatMap Message.wire).take 2, (sampleMessages.flatMap Message.wire).drop 2]

theorem samplePieces_ok : CutsOk sampleMessages samplePieces := by
  intro qs rs hqs here message there p q hsplit hfront heq hp hq
  cases here with
  | nil =>
    obtain ⟨rfl, -⟩ := List.cons.inj hsplit
    have hlen := congrArg length heq
    have hfrontLen := congrArg length hfront
    have hwire : (interleavedFrame 1 [5, 6]).wire.length = 6 := by decide +kernel
    have htotal : 6 < (sampleMessages.flatMap wire).length := by decide +kernel
    rw [length_append, hwire] at hlen
    simp only [nil_append, flatMap_nil] at hfrontLen
    show p.length < 4
    -- Either piece may be the last one before the cut.
    rcases qs with _ | ⟨a, _ | ⟨b, qs⟩⟩
    · simp at hfrontLen
      omega
    · obtain ⟨rfl, -⟩ := List.cons.inj hqs
      simp at hfrontLen
      omega
    · obtain ⟨rfl, hrest⟩ := List.cons.inj hqs
      obtain ⟨rfl, -⟩ := List.cons.inj hrest
      rw [flatten_cons, flatten_cons, ← append_assoc, take_append_drop, length_append]
        at hfrontLen
      omega
  | cons first here =>
    obtain ⟨-, hrest⟩ := List.cons.inj hsplit
    cases here with
    | nil =>
      obtain ⟨rfl, -⟩ := List.cons.inj hrest
      trivial
    | cons second here => cases here <;> cases (List.cons.inj hrest).2

theorem messages_survive_sample : Encoder.encodeAll sampleMessages = some samplePieces.flatten ∧ ∃ d, d.msg_ = none ∧
      Session.session (decode utc) Decoder.new [] samplePieces = ⟨sampleMessages, d, [], none⟩ := by
  obtain ⟨bytes, hbytes, hsurvive⟩ := messages_survive utc sampleMessages sampleMessages_sendable
  have hpieces : samplePieces.flatten = bytes := by
    rw [encodeAll_sendable sampleMessages_sendable] at hbytes
    rw [← Option.some.inj hbytes]
    simp [samplePieces]
  exact ⟨hpieces ▸ hbytes, hsurvive samplePieces hpieces samplePieces_ok⟩

/-! ## What does not come back -/

/-- A header with a `CSeq` and a date. -/
def datedFields (time : Int) : FieldMap where
  fields := [.numeric .cSeq 7, .date .date time]
  sorted := by
    have hlt : (HeaderField.numeric .cSeq 7).name < (HeaderField.date .date time).name := by
      show FieldType.enc (.numeric .cSeq) < FieldType.enc (.date .date)
      decide +kernel
    simp [hlt]

/-- A request with a date. -/
def datedRequest (time : Int) : Message := .request ⟨.options, none, datedFields time⟩ []

theorem datedRequest_sendable : (datedRequest 0).Sendable utc := by
  refine ⟨⟨?_, by decide +kernel⟩, by decide +kernel, nofun⟩
  intro field hfield
  rcases mem_cons.1 hfield with rfl | hfield
  · exact ⟨⟨by decide, by decide⟩, ⟨by decide +kernel, by decide +kernel, by decide +kernel, by decide +kernel,
      by decide +kernel⟩, fun _ _ h => nomatch h⟩
  · obtain rfl := mem_singleton.1 hfield
    exact ⟨⟨by decide, by decide, by decide, by decide, by decide⟩, ⟨by decide +kernel, by decide +kernel,
      by decide +kernel, by decide +kernel, by decide +kernel⟩, fun _ _ h => nomatch h⟩

/-- The text of a date has no fraction of a second: half a second after the epoch comes back as the epoch. -/
theorem fraction_does_not_survive : checkContent (datedFields 500) [] = true ∧
      ((datedFields 500).getField (FieldType.numeric .cSeq).enc).isSome = true ∧
      (∀ field ∈ (datedFields 500).fields, ValueOk field.strEncode ∧ ∀ name value, field ≠ .custom name value) ∧
      ∃ bytes, Encoder.encodeAll [datedRequest 500] = some bytes ∧ ∃ d,
        Session.session (decode utc) Decoder.new [] [bytes] = ⟨[datedRequest 0], d, [], none⟩ ∧
          datedRequest 0 ≠ datedRequest 500 := by
  have hwire : encodeAll [datedRequest 500] = encodeAll [datedRequest 0] := rfl
  have hall : ∀ message ∈ [datedRequest 0], message.Sendable utc := by
    intro message hmessage
    rw [mem_singleton.1 hmessage]
    exact datedRequest_sendable
  have hcuts : CutsOk [datedRequest 0] [[datedRequest 0].flatMap wire] := by
    intro qs rs hqs here message there p q hsplit hfront heq hp hq
    cases here with
    | nil =>
      obtain ⟨rfl, -⟩ := List.cons.inj hsplit
      trivial
    | cons first here => cases here <;> cases (List.cons.inj hsplit).2
  obtain ⟨d, -, hsession⟩ := (resumable utc).session_eq (s := new) rfl hall
    (flatten_singleton) hcuts
  refine ⟨by decide +kernel, by decide +kernel, ?_, _, hwire.trans (encodeAll_sendable hall), d, hsession, ?_⟩
  · intro field hfield
    have hvalue := (datedRequest_sendable).1.each
    rcases mem_cons.1 hfield with rfl | hfield
    · exact ⟨(hvalue _ mem_cons_self).value, nofun⟩
    · obtain rfl := mem_singleton.1 hfield
      exact ⟨(hvalue (.date .date 0) (mem_cons_of_mem _ mem_cons_self)).value, nofun⟩
  · intro heq
    injection heq with hheader
    injection hheader with _ _ hfields
    have hlist := congrArg fields hfields
    cases hlist

end Samples

end Whispercast.Rtsp
