import Whispercast.Rpc.RawObject

/-!
# The codecs round-trip

Both codecs satisfy the laws, so values and messages come back from their encoding, and from less than the encoding
comes nothing yet. A JSON message brings its parameters or its result back with other blanks. A number that does not
fit into the type of `strtoll`, a string whose size does not fit into an `int32` and a container whose count does
not fit into a `uint32` do not come back.
-/

namespace Whispercast.Rpc

open Io Library StateReader BinaryDecoder CodecId JsonDecoder List ValueType
open Http (ascii)
open Encoder Message

/-! ## What a codec carries -/

/-- The blanks of the encoding. -/
def CodecId.Blank : CodecId → UInt8 → Prop
  | .binary => BinaryDecoder.NoBlank
  | .json => IsBlank

/-- What has to stand behind a value for the end of it to be seen. -/
def CodecId.behind : CodecId → Bytes
  | .binary => []
  | .json => [32]

/-- The strings that the codec carries. -/
def CodecId.Text : CodecId → Bytes → Prop
  | .binary => BinaryDecoder.Sized
  | .json => fun s => ∀ c ∈ s, Plain c

/-- The 64-bit numbers without sign that the codec carries. -/
def CodecId.Number : CodecId → UInt64 → Prop
  | .binary => fun _ => True
  | .json => JsonDecoder.Signed

/-- The raw objects whose size the codec can write. -/
def CodecId.Object : CodecId → Bytes → Prop
  | .binary => fun obj => obj.length < 2 ^ 32
  | .json => fun _ => True

/-- What becomes of a raw object on its way. -/
def CodecId.Carries : CodecId → Bytes → Bytes → Prop
  | .binary => fun obj obj' => obj' = obj
  | .json => JsonDecoder.SameTokens

/-- A fresh decoder finds what was encoded as this text, and takes nothing behind it. From a part of the text that
something else than blanks is missing from, it finds that there is not enough data. -/
structure CodecId.RoundTrips {α : Type} (c : CodecId) (r : Decoding α) (text : Bytes) (Back : α → Prop) : Prop where
  success : ∀ x, ∃ a s t, Back a ∧ Blanks c.Blank t ∧ r {} (text ++ (c.behind ++ x)) = (.ok a, s, t ++ x)
  missing : ∀ p q, text = p ++ q → ¬ Blanks c.Blank q → (r {} p).1 = .error .notEnoughData

/-- The parameters of a call or the result of a reply. -/
def Message.object (m : Message) : Bytes :=
  match m.header.msgType with
  | .call => m.cbody.params
  | .reply => m.rbody.result

/-- The strings of the message. -/
def Message.Strings (str : Bytes → Prop) (m : Message) : Prop :=
  match m.header.msgType with
  | .call => str m.cbody.service ∧ str m.cbody.method
  | .reply => True

/-- `operator==` of messages, with the raw objects as they are carried. -/
def Message.Same (carries : Bytes → Bytes → Prop) (m m' : Message) : Prop :=
  m'.header = m.header ∧
    match m.header.msgType with
    | .call => m'.cbody.service = m.cbody.service ∧ m'.cbody.method = m.cbody.method ∧
        carries m.cbody.params m'.cbody.params
    | .reply => m'.rbody.replyStatus = m.rbody.replyStatus ∧ carries m.rbody.result m'.rbody.result

/-! ## The laws of the two codecs -/

theorem binary_messageLaws : MessageLaws binaryEncoder binaryDecoder BinaryDecoder.NoBlank Anything BinaryDecoder.At
    (fun _ => True) BinaryDecoder.Sized (fun _ => True) (fun _ => True) where
  structs := structLaws
  scalars := scalarLaws
  regular := messageRegular
  next_middle _ := trivial
  names := by
    intro name hname
    have hall : ∀ name ∈ [ascii "xid", ascii "msgType", ascii "service", ascii "method", ascii "params",
        ascii "replyStatus", ascii "result", ascii "header", ascii "cbody", ascii "rbody"], name.length < 16 := by
      decide
    exact Nat.lt_trans (hall name hname) (by decide)
  status s := by cases s <;> rfl

theorem json_messageLaws : MessageLaws jsonEncoder jsonDecoder IsBlank Delimited JsonDecoder.At JsonDecoder.Opens
    (fun s => ∀ c ∈ s, Plain c) JsonDecoder.Signed (JsonDecoder.At false []) where
  structs := structLaws
  scalars := scalarLaws
  regular := messageRegular false
  next_middle rest := delimited_cons (by decide) _
  names := by
    intro name hname
    have hall : ∀ name ∈ [ascii "xid", ascii "msgType", ascii "service", ascii "method", ascii "params",
        ascii "replyStatus", ascii "result", ascii "header", ascii "cbody", ascii "rbody"],
        name.all (fun c => decide (Plain c)) = true := by
      decide
    exact all_iff_forall_prop.1 (hall name hname)
  status s := by cases s <;> rfl

/-! ## Values and messages -/

namespace CodecId.RoundTrips

variable {c : CodecId} {α : Type} {r : Decoding α} {text : Bytes} {a : α}

variable {Back : α → Prop}

/-- From a triple, and from the fact that what is decided stays decided. -/
theorem of_gets {next : Bytes → Prop} {P Q : DecoderState → Prop} (h : Gets c.Blank next P r text a Q) (hP : P {})
    (hbehind : Blanks c.Blank c.behind) (hnext : ∀ x, next (c.behind ++ x)) (hr : Extends .notEnoughData r) (ha : Back a) : c.RoundTrips r text Back := by
  have hfull : ∀ x, ∃ s t, Blanks c.Blank t ∧ r {} (text ++ (c.behind ++ x)) = (.ok a, s, t ++ (c.behind ++ x)) := by
    intro x
    obtain ⟨s, t, -, ht, heq⟩ := h {} [] (c.behind ++ x) hP (blanks_nil _) (hnext x)
    exact ⟨s, t, ht, heq⟩
  have hblanks : ∀ t, Blanks c.Blank t → Blanks c.Blank (t ++ c.behind) := by
    intro t ht b hb
    rcases mem_append.1 hb with hb | hb
    · exact ht b hb
    · exact hbehind b hb
  constructor
  · intro x
    obtain ⟨s, t, ht, heq⟩ := hfull x
    refine ⟨a, s, t ++ c.behind, ha, hblanks t ht, ?_⟩
    rw [heq, append_assoc]
  · rintro p q rfl hq
    obtain ⟨s, t, ht, heq⟩ := hfull []
    rw [append_nil, append_assoc] at heq
    refine hr.short_of_missing heq (hblanks t ht) fun hmissing => hq ?_
    exact fun b hb => hmissing b (mem_append_left _ hb)

/-- What comes back is the same for two specifications. -/
theorem both {Back' : α → Prop} (h : c.RoundTrips r text Back) (h' : c.RoundTrips r text Back') :
    ∃ a, Back a ∧ Back' a := by
  obtain ⟨a, s, t, ha, -, heq⟩ := h.success []
  obtain ⟨a', _, _, ha', -, heq'⟩ := h'.success []
  have hsame : a' = a := by
    rw [heq, Prod.mk.injEq, Except.ok.injEq] at heq'
    exact heq'.1.symm
  exact ⟨a, ha, hsame ▸ ha'⟩

/-- It is the same too when the text only begins with the other one, and nothing has to stand behind. -/
theorem both_of_append {Back' : α → Prop} {y : Bytes} (hbehind : c.behind = [])
    (h : c.RoundTrips r (text ++ y) Back) (h' : c.RoundTrips r text Back') : ∃ a, Back a ∧ Back' a := by
  obtain ⟨a, s, t, ha, -, heq⟩ := h.success []
  obtain ⟨a', _, _, ha', -, heq'⟩ := h'.success y
  have hsame : a' = a := by
    rw [hbehind, nil_append, append_nil] at heq
    rw [hbehind, nil_append, heq, Prod.mk.injEq, Except.ok.injEq] at heq'
    exact heq'.1.symm
  exact ⟨a, ha, hsame ▸ ha'⟩

theorem not_of_error {f : DecodeFault} (h : (r {} (text ++ (c.behind ++ []))).1 = .error f) :
    ¬ c.RoundTrips r text Back := by
  intro hback
  obtain ⟨a, s, t, -, -, heq⟩ := hback.success []
  rw [heq] at h
  cases h

end CodecId.RoundTrips

theorem CodecId.blanks_behind (c : CodecId) : Blanks c.Blank c.behind := by
  cases c with
  | binary => exact blanks_nil _
  | json => exact blanks_one

theorem delimited_behind (x : Bytes) : Delimited (CodecId.json.behind ++ x) := by
  rw [behind, singleton_append, Delimited]
  decide

/-- A value comes back equal. -/
theorem value_round_trips (c : CodecId) (t : ValueType) {v : t.Val} (hv : t.Good c.Text c.Number v) :
    c.RoundTrips (t.decode c.decoder) (t.encode c.encoder v) (· = v) := by
  cases c with
  | binary =>
    have h := (gets_value BinaryDecoder.arrayLaws BinaryDecoder.mapLaws scalarLaws
      BinaryDecoder.valueRegular t hv).1 []
    exact .of_gets (c := .binary) h ⟨fun _ h => (not_mem_nil h).elim, [], rfl⟩ (blanks_behind _)
      (fun _ => trivial) (regular_value BinaryDecoder.valueRegular t).decides rfl
  | json =>
    have h := (gets_value JsonDecoder.arrayLaws JsonDecoder.mapLaws scalarLaws
      JsonDecoder.valueRegular t hv).1 []
    exact .of_gets (c := .json) h rfl (blanks_behind _) delimited_behind
      (regular_value JsonDecoder.valueRegular t).decides rfl

section Messages

variable {e : Encoder} {d : Decoder} {blank : UInt8 → Prop} {next : Bytes → Prop}
  {At : Bool → List Nat → DecoderState → Prop} {Opens : Bytes → Prop} {str : Bytes → Prop} {u64 : UInt64 → Prop}
  {I : DecoderState → Prop} (laws : MessageLaws e d blank next At Opens str u64 I) {C : Bytes → Bytes → Prop}

include laws

/-- A message comes back if its strings do and the codec carries its raw object. -/
theorem gets_message {m : Message} (hstr : m.Strings str) {obj : Bytes} (hcarries : C m.object obj)
    (hobj : ∀ ns, Gets blank next (At false ns) d.readRawObject (e.writeRawObject m.object) obj (At false ns))
    (ns : List Nat) :
    ∃ m', m.Same C m' ∧
      Gets blank Anything (At false ns) (Message.serializeLoad d) (m.serializeSave e) m' (At false ns) := by
  unfold Strings at hstr
  unfold object at hcarries hobj
  unfold Same
  rcases htype : m.header.msgType with - | -
  · rw [htype] at hstr hcarries hobj
    exact ⟨{ header := m.header, cbody := { m.cbody with params := obj } }, ⟨rfl, rfl, rfl, hcarries⟩,
      gets_call laws htype hstr.1 hstr.2 hobj ns⟩
  · rw [htype] at hcarries hobj
    exact ⟨{ header := m.header, rbody := { m.rbody with result := obj } }, ⟨rfl, rfl, hcarries⟩,
      gets_reply laws htype hobj ns⟩

end Messages

theorem binary_message_round_trips {m : Message} (hstr : m.Strings BinaryDecoder.Sized)
    (hobj : m.object.length < 2 ^ 32) :
    CodecId.binary.RoundTrips (Message.serializeLoad binaryDecoder) (m.serializeSave binaryEncoder)
      (m.Same CodecId.binary.Carries) := by
  obtain ⟨_, hsame, h⟩ := gets_message (C := binary.Carries) binary_messageLaws hstr rfl
    (fun _ => gets_rawObject hobj) []
  exact .of_gets (c := .binary) h ⟨fun _ h => (not_mem_nil h).elim, [], rfl⟩ (blanks_behind _)
    (fun _ => trivial) (regular_message messageRegular).decides hsame

theorem json_message_round_trips {m : Message} (hstr : m.Strings fun s => ∀ c ∈ s, Plain c) {obj : Bytes}
    (hobj : JsonDecoder.SameTokens m.object obj) :
    CodecId.json.RoundTrips (Message.serializeLoad jsonDecoder) (m.serializeSave jsonEncoder)
      (m.Same CodecId.json.Carries) := by
  obtain ⟨_, hsame, h⟩ := gets_message (C := json.Carries) json_messageLaws hstr hobj
    (fun _ => gets_rawObject hobj) []
  exact .of_gets (c := .json) h rfl (blanks_behind _) (fun _ => trivial)
    (regular_message (messageRegular false)).decides hsame

/-- A message comes back with its raw object as the codec carries it. -/
theorem message_round_trips (c : CodecId) {m : Message} (hstr : m.Strings c.Text) (hobj : c.Object m.object)
    {t : ValueType} {v : t.Val} (hv : t.Good c.Text (fun _ => True) v) (hm : m.object = t.encode c.encoder v) :
    c.RoundTrips (Message.serializeLoad c.decoder) (m.serializeSave c.encoder) (m.Same c.Carries) := by
  cases c with
  | binary => exact binary_message_round_trips hstr hobj
  | json =>
    obtain ⟨_, -, htokens⟩ := raw_value t hv
    rw [← show m.object = t.encode jsonEncoder v from hm] at htokens
    exact json_message_round_trips hstr htokens

/-- The codecs round-trip: values come back equal, and messages with the raw objects as the codec carries them. -/
theorem codecs_round_trip (c : CodecId) :
    (∀ (t : ValueType) (v : t.Val), t.Good c.Text c.Number v →
        c.RoundTrips (t.decode c.decoder) (t.encode c.encoder v) (· = v)) ∧
      ∀ (m : Message) (t : ValueType) (v : t.Val), m.Strings c.Text → t.Good c.Text (fun _ => True) v →
        m.object = t.encode c.encoder v → c.Object m.object →
          c.RoundTrips (Message.serializeLoad c.decoder) (m.serializeSave c.encoder) (m.Same c.Carries) :=
  ⟨fun t _ hv => value_round_trips c t hv, fun _ _ _ hstr hv hm hobj => message_round_trips c hstr hobj hv hm⟩

/-- A call of nothing with `null` as its parameters. -/
def nullCall : Message where
  cbody := { params := JsonEncoder.nullText }

/-- A map with a vector in it, and a call with `null`. -/
theorem codecs_round_trip_json : CodecId.json.RoundTrips ((ValueType.map .string (.vector .uint64)).decode jsonDecoder)
        ((ValueType.map .string (.vector .uint64)).encode jsonEncoder [(ascii "a", [1, 2]), (ascii "b", [])])
        (· = [(ascii "a", [1, 2]), (ascii "b", [])]) ∧
      CodecId.json.RoundTrips (Message.serializeLoad jsonDecoder) (nullCall.serializeSave jsonEncoder)
        (nullCall.Same JsonDecoder.SameTokens) := by
  refine ⟨(codecs_round_trip .json).1 (.map .string (.vector .uint64)) [(ascii "a", [1, 2]), (ascii "b", [])] ?_,
    (codecs_round_trip .json).2 nullCall .void () ⟨?_, ?_⟩ trivial rfl trivial⟩
  · refine ⟨?_, ?_, ?_⟩
    · exact show 2 < 2 ^ 32 by decide
    · refine pairwise_pair.2 ?_
      exact show ascii "a" < ascii "b" by decide
    · intro entry hentry
      have hlarge : ∀ v ∈ ([1, 2] : List UInt64), v.toNat < 2 ^ 63 := all_iff_forall_prop.1 (by decide)
      rcases mem_cons.1 hentry with rfl | hentry
      · exact ⟨all_iff_forall_prop.1 (by decide), show 2 < 2 ^ 32 by decide, hlarge⟩
      · rw [mem_singleton.1 hentry]
        exact ⟨all_iff_forall_prop.1 (by decide), show 0 < 2 ^ 32 by decide, fun _ h => (not_mem_nil h).elim⟩
  · exact fun _ h => (not_mem_nil h).elim
  · exact fun _ h => (not_mem_nil h).elim

/-! ## What does not come back -/

section Limits

/-- A number above the range of `strtoll` is an error for the JSON decoder. -/
theorem json_uint64_large {v : UInt64} (hv : ¬ JsonDecoder.Signed v) :
    ¬ CodecId.json.RoundTrips (ValueType.uint64.decode jsonDecoder) (ValueType.uint64.encode jsonEncoder v) (· = v) := by
  have hlarge : Numeral.longMax < (v.toNat : Int) := by
    have hle : 2 ^ 63 ≤ v.toNat := Nat.not_lt.1 hv
    change (2 : Int) ^ 63 - 1 < (v.toNat : Int)
    omega
  have htoken : nextToken {} (JsonEncoder.printBody false v.toNat ++ ([32] ++ [])) =
      (.ok (.word (printNumber v.toNat)), {}, [32] ++ ([32] ++ [])) := by
    have hdelim : Delimited ([32] ++ ([32] ++ [])) := delimited_behind _
    rw [nextToken, JsonEncoder.printBody, if_neg Bool.false_ne_true, append_assoc,
      readNextAsciiToken_word (charAttr_printNumber _) (printNumber_ne_nil _) hdelim]
  have hnumber : readNumber {} (JsonEncoder.printBody false v.toNat ++ ([32] ++ [])) =
      (.error .error, {}, [32] ++ ([32] ++ [])) := by
    have hquotes : hasQuotes {} ([32] ++ ([32] ++ [])) = (.ok false, {}, [32] ++ ([32] ++ [])) := rfl
    rw [readNumber, bind_ok htoken, bind_ok hquotes, numberText, if_neg Bool.false_ne_true,
      Option.bind_some, strtoll_printNumber_large hlarge]
    rfl
  apply RoundTrips.not_of_error (f := .error)
  exact congrArg Prod.fst (bind_error hnumber fun n => pure (UInt64.ofInt n))

/-- A string whose size is negative as an `int32` is an error for the binary decoder. -/
theorem binary_string_large {str : Bytes} (hmin : 2 ^ 31 ≤ str.length) (hmax : str.length < 2 ^ 32) :
    ¬ CodecId.binary.RoundTrips (ValueType.string.decode binaryDecoder) (ValueType.string.encode binaryEncoder str)
      (· = str) := by
  apply RoundTrips.not_of_error (f := .error)
  change (BinaryDecoder.decodeString {} (BinaryEncoder.encodeString str ++ _)).1 = _
  rw [BinaryEncoder.encodeString, append_assoc, BinaryDecoder.decodeString,
    bind_ok (BinaryDecoder.decodeNumeric_ok hmax {} _), if_pos hmin]
  rfl

theorem ofNat_length {α : Type} {v : List α} (hv : v.length = 2 ^ 32) : UInt32.ofNat v.length = 0 := by
  rw [hv]
  rfl

/-- A vector with as many items as there are counts is written like an empty one. -/
theorem binary_vector_large {t : ValueType} {v : (ValueType.vector t).Val} (hv : v.length = 2 ^ 32) :
    ¬ CodecId.binary.RoundTrips ((ValueType.vector t).decode binaryDecoder)
      ((ValueType.vector t).encode binaryEncoder v) (· = v) := by
  have htext : (vector t).encode binaryEncoder v = (vector t).encode binaryEncoder [] := by
    rw [encode, encodeVector, ofNat_length hv]
    rfl
  intro h
  rw [htext] at h
  obtain ⟨w, rfl, hw⟩ := h.both (value_round_trips .binary (.vector t) (v := []) ⟨Nat.zero_lt_succ _, by simp⟩)
  rw [hw] at hv
  exact absurd hv (show (0 : Nat) ≠ 2 ^ 32 by decide)

/-- Such a map has the count of an empty one in front of its entries. -/
theorem binary_map_large {k : KeyType} {t : ValueType} {v : (ValueType.map k t).Val} (hv : v.length = 2 ^ 32) :
    ¬ CodecId.binary.RoundTrips ((ValueType.map k t).decode binaryDecoder)
      ((ValueType.map k t).encode binaryEncoder v) (· = v) := by
  have htext : ∃ x, (map k t).encode binaryEncoder v = (map k t).encode binaryEncoder [] ++ x := by
    refine ⟨countedPairs [] 0 0 (v.map fun x => binaryEncoder.encodePair (k.encode binaryEncoder x.1)
      (t.encode binaryEncoder x.2)), ?_⟩
    rw [encode, encodeMap, ofNat_length hv]
    change _ ++ (countedPairs _ _ _ _ ++ []) = _
    rw [append_nil]
    rfl
  intro h
  obtain ⟨x, hx⟩ := htext
  rw [hx] at h
  obtain ⟨w, rfl, hw⟩ := h.both_of_append rfl
    (value_round_trips .binary (.map k t) (v := []) ⟨Nat.zero_lt_succ _, Pairwise.nil, by simp⟩)
  rw [hw] at hv
  exact absurd hv (show (0 : Nat) ≠ 2 ^ 32 by decide)

section

variable {m : Message} (hcall : m.header.msgType = .call)

include hcall

/-- The parameters behind a size that is zero. -/
theorem serializeSave_params_large (hlen : m.cbody.params.length = 2 ^ 32) : m.serializeSave binaryEncoder =
      { m with cbody := { m.cbody with params := [] } }.serializeSave binaryEncoder ++ m.cbody.params := by
  have hsize : leBytes 4 m.cbody.params.length = leBytes 4 0 := by
    rw [hlen]
    rfl
  have hraw : binaryEncoder.writeRawObject m.cbody.params = binaryEncoder.writeRawObject [] ++ m.cbody.params := by
    change leBytes 4 _ ++ _ = leBytes 4 0 ++ [] ++ _
    rw [hsize, append_nil]
  have hend : binaryEncoder.encodeStructEnd = [] := rfl
  have hattribEnd : binaryEncoder.encodeStructAttribEnd = [] := rfl
  -- Nothing is written behind the parameters, at no level.
  have hbody : m.cbody.serializeSave binaryEncoder =
      { m.cbody with params := [] }.serializeSave binaryEncoder ++ m.cbody.params := by
    simp only [CallBody.serializeSave, encodeStruct, encodeStructAttrib, separated, map_cons,
      map_nil, flatMap_cons, flatMap_nil, hraw, hend, hattribEnd, append_assoc, append_nil,
      length_cons, length_nil]
  simp only [serializeSave, hcall, encodeStruct, encodeStructAttrib, separated, map_cons,
    map_nil, flatMap_cons, flatMap_nil, hbody, hend, hattribEnd, append_assoc, append_nil,
    length_cons, length_nil]

theorem binary_params_large (hstr : m.Strings BinaryDecoder.Sized) (hlen : m.cbody.params.length = 2 ^ 32) :
    ¬ CodecId.binary.RoundTrips (Message.serializeLoad binaryDecoder) (m.serializeSave binaryEncoder)
      (m.Same fun obj obj' => obj' = obj) := by
  intro h
  rw [serializeSave_params_large hcall hlen] at h
  have hobj : { m with cbody := { m.cbody with params := [] } }.object = [] := by
    unfold object
    rw [hcall]
  have hempty := binary_message_round_trips (m := { m with cbody := { m.cbody with params := [] } })
    (by unfold Strings at hstr ⊢; exact hstr) (by rw [hobj]; exact Nat.zero_lt_succ _)
  obtain ⟨_, ⟨-, hbody⟩, ⟨-, hbody'⟩⟩ := h.both_of_append rfl hempty
  simp only [hcall] at hbody hbody'
  have hparams : m.cbody.params = [] := hbody.2.2.symm.trans hbody'.2.2
  rw [hparams] at hlen
  exact absurd hlen (show (0 : Nat) ≠ 2 ^ 32 by decide)

/-- A JSON message whose parameters do not end with a blank. -/
theorem json_params_blank
    (hstr : m.Strings fun s => ∀ c ∈ s, Plain c) {obj : Bytes} (hobj : JsonDecoder.SameTokens m.cbody.params obj)
    (hlast : m.cbody.params.getLast? ≠ some 32) :
    ¬ CodecId.json.RoundTrips (Message.serializeLoad jsonDecoder) (m.serializeSave jsonEncoder)
      (m.Same fun obj obj' => obj' = obj) := by
  intro h
  have hobject : m.object = m.cbody.params := by
    unfold object
    rw [hcall]
  rw [← hobject] at hobj
  obtain ⟨_, ⟨-, hbody⟩, ⟨-, hbody'⟩⟩ := h.both (json_message_round_trips hstr hobj)
  simp only [hcall] at hbody hbody'
  obtain ⟨-, -, _, -, -, -, hparams⟩ := hbody'
  rw [hbody.2.2] at hparams
  apply hlast
  rw [hparams]
  exact getLast?_concat

end

/-- A call whose parameters are 4 GiB. -/
def largeCall : Message where
  cbody := { params := (ValueType.vector .void).encode binaryEncoder (List.replicate (2 ^ 32 - 4) ()) }

theorem length_voids {n : Nat} (hn : n < 2 ^ 32) :
    ((ValueType.vector .void).encode binaryEncoder (List.replicate n ())).length = 4 + n := by
  have hcount : (UInt32.ofNat n).toNat = n := UInt32.toNat_ofNat_of_lt' hn
  have hitem : ∀ n : Nat, ((replicate n ()).map ((void).encode binaryEncoder)) =
      replicate n [0xff] := fun n => map_replicate
  have hseparated : ∀ n : Nat, (separated [] (replicate n ([0xff] : Bytes))).length = n := by
    intro n
    cases n with
    | zero => rfl
    | succ n => simp [separated, replicate_succ]
  rw [encode, encodeVector, length_replicate, hcount, take_of_length_le (by simp),
    hitem]
  change (leBytes 4 _ ++ (separated [] _ ++ [])).length = _
  rw [append_nil, length_append, hseparated, leBytes_length]

/-- Not every value and not every message comes back equal. -/
theorem codecs_do_not_round_trip : ¬ CodecId.json.RoundTrips (ValueType.uint64.decode jsonDecoder)
        (ValueType.uint64.encode jsonEncoder (0x8000000000000000 : UInt64)) (· = (0x8000000000000000 : UInt64)) ∧
      ¬ CodecId.json.RoundTrips (Message.serializeLoad jsonDecoder) (nullCall.serializeSave jsonEncoder)
        (nullCall.Same fun obj obj' => obj' = obj) ∧
      ¬ CodecId.binary.RoundTrips (ValueType.string.decode binaryDecoder)
        (ValueType.string.encode binaryEncoder (List.replicate (2 ^ 31) 0 : Bytes))
        (· = (List.replicate (2 ^ 31) 0 : Bytes)) ∧
      ¬ CodecId.binary.RoundTrips ((ValueType.vector .void).decode binaryDecoder)
        ((ValueType.vector .void).encode binaryEncoder (List.replicate (2 ^ 32) ()))
        (· = List.replicate (2 ^ 32) ()) ∧
      ¬ CodecId.binary.RoundTrips ((ValueType.map .uint64 .void).decode binaryDecoder)
        ((ValueType.map .uint64 .void).encode binaryEncoder ((List.range (2 ^ 32)).map fun i => (UInt64.ofNat i, ())))
        (· = (List.range (2 ^ 32)).map fun i => (UInt64.ofNat i, ())) ∧
      ¬ CodecId.binary.RoundTrips (Message.serializeLoad binaryDecoder) (largeCall.serializeSave binaryEncoder)
        (largeCall.Same fun obj obj' => obj' = obj) := by
  refine ⟨json_uint64_large ?_, ?_, binary_string_large ?_ ?_, binary_vector_large length_replicate,
    binary_map_large ?_, binary_params_large rfl ?_ (length_voids ?_)⟩
  · change ¬ (0x8000000000000000 : UInt64).toNat < 2 ^ 63
    decide
  · obtain ⟨_, -, htokens⟩ := raw_value .void (v := ()) trivial
    refine json_params_blank rfl ⟨?_, ?_⟩ htokens (by decide)
    · exact fun _ h => (not_mem_nil h).elim
    · exact fun _ h => (not_mem_nil h).elim
  · exact Nat.le_of_eq length_replicate.symm
  · rw [length_replicate]
    decide
  · rw [length_map, length_range]
  · exact ⟨Nat.zero_lt_succ _, Nat.zero_lt_succ _⟩
  · decide

end Limits

end Whispercast.Rpc
