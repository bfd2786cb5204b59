import Whispercast.Rpc.Message

/-!
# Messages come back

What `SerializeSave` writes, `SerializeLoad` reads, for every codec that satisfies the laws: the attributes are
read one after the other, and the counts of the decoder fit at every level.
-/

namespace Whispercast.Rpc

open Io Library StateReader MessageFound
open Http (ascii)
open List

/-- What is used of a codec for messages. `names` is about the attributes, and `status` about the enumeration that is
written as an `int32` and read as a `uint32`. -/
structure MessageLaws (e : Encoder) (d : Decoder) (blank : UInt8 → Prop) (next : Bytes → Prop)
    (At : Bool → List Nat → DecoderState → Prop) (Opens : Bytes → Prop) (str : Bytes → Prop) (u64 : UInt64 → Prop)
    (I : DecoderState → Prop) : Prop where
  structs : StructLaws e d blank next At
  scalars : ScalarLaws e d blank next At Opens str u64
  regular : MessageRegular d I
  next_middle : ∀ rest, next (e.encodeStructAttribMiddle ++ rest)
  names : ∀ name ∈ [ascii "xid", ascii "msgType", ascii "service", ascii "method", ascii "params",
    ascii "replyStatus", ascii "result", ascii "header", ascii "cbody", ascii "rbody"], str name
  status : ∀ s : ReplyStatus, e.encodeInt32 false s.code = e.encodeUInt32 false s.code.toUInt32

section Struct

variable {e : Encoder} {d : Decoder} {blank : UInt8 → Prop} {next : Bytes → Prop}
  {At : Bool → List Nat → DecoderState → Prop} {Fresh : List Nat → DecoderState → Prop} {Opens : Bytes → Prop}
  {str : Bytes → Prop} {u64 : UInt64 → Prop} {I : DecoderState → Prop}
  (laws : MessageLaws e d blank next At Opens str u64 I)

section Attribs

variable {φ : Type} {attrib : Bytes → φ → Decoding φ}

/-- The encoded attributes lead from what has been found to what is found at the end. -/
def Loads (blank : UInt8 → Prop) (next : Bytes → Prop) (At : Bool → List Nat → DecoderState → Prop)
    (str : Bytes → Prop) (attrib : Bytes → φ → Decoding φ) : φ → List (Bytes × Bytes) → φ → Prop
  | x, [], y => x = y
  | x, (name, text) :: attribs, y =>
    ∃ x', (str name ∧ ∀ ns, Gets blank next (At false ns) (attrib name x) text x' (At false ns)) ∧
      Loads blank next At str attrib x' attribs y

include laws

/-- One attribute, up to where it is decided whether there are more. -/
theorem gets_attrib {x x' : φ} {name text tail : Bytes} {more : Bool} {n : Nat} {ns ns' : List Nat} (hname : str name)
    (hvalue : Gets blank next (At false (n :: ns)) (attrib name x) text x' (At false (n :: ns)))
    (hmore : Gets blank Anything (At false (n :: ns)) d.decodeStructContinue tail more (At false ns'))
    (hnext : ∀ rest, next (tail ++ rest)) :
    Gets blank Anything (At false ((n + 1) :: ns)) (d.decodeAttrib attrib x)
      (e.encodeStructAttrib (name, text) ++ tail) (if more then .inl x' else .inr x') (At false ns') := by
  rw [Encoder.encodeStructAttrib, laws.structs.attribEnd]
  simp only [append_assoc, append_nil]
  refine laws.structs.attribStart.bind (N := Anything) ?_ fun _ _ => trivial
  refine (laws.scalars.string.gets (k := false) hname).bind (N := Anything) ?_ fun rest _ => ?_
  · refine laws.structs.attribMiddle.bind (N := Anything) ?_ fun _ _ => trivial
    refine hvalue.bind (N := Anything) ?_ fun rest _ => hnext rest
    exact hmore.bind_pure fun more => if more then Sum.inl x' else Sum.inr x'
  · rw [append_assoc]
    exact laws.next_middle _

variable (hattrib : ∀ name x, Regular .notEnoughData I 0 (attrib name x))

include hattrib

/-- The loop over the attributes. -/
theorem gets_attribs {x y : φ} {f : Bytes × Bytes} {attribs : List (Bytes × Bytes)} {ns : List Nat}
    (h : Loads blank next At str attrib x (f :: attribs) y) :
    Gets blank Anything (At false ((attribs.length + 1) :: ns)) (iterate (d.decodeAttrib attrib) .error x)
      (separated e.encodeStructContinue ((f :: attribs).map e.encodeStructAttrib) ++ e.encodeStructEnd) y
      (At false ns) := by
  have hprogress := decodeAttrib_progress laws.regular hattrib
  induction attribs generalizing x f with
  | nil =>
    obtain ⟨x', ⟨hname, hvalue⟩, rfl⟩ := h
    have hturn := gets_attrib laws hname (hvalue (0 :: ns)) laws.structs.done laws.structs.next_done
    rw [map_cons, map_nil, separated, flatMap_nil, append_nil]
    exact Gets.iterate_last hprogress hturn
  | cons g attribs ih =>
    obtain ⟨x', ⟨hname, hvalue⟩, hrest⟩ := h
    have hturn := gets_attrib laws hname (hvalue ((attribs.length + 1) :: ns)) laws.structs.more
      laws.structs.next_more
    have htext : separated e.encodeStructContinue ((f :: g :: attribs).map e.encodeStructAttrib) ++ e.encodeStructEnd =
        (e.encodeStructAttrib f ++ e.encodeStructContinue) ++
          (separated e.encodeStructContinue ((g :: attribs).map e.encodeStructAttrib) ++ e.encodeStructEnd) := by
      simp only [map_cons, separated, flatMap_cons, append_assoc]
    rw [htext]
    exact Gets.iterate_turn hprogress hturn (ih hrest) fun _ _ => trivial

/-- A struct is read from its own encoding, whatever follows. -/
theorem gets_struct {x y : φ} {attribs : List (Bytes × Bytes)} (ns : List Nat) (hne : attribs ≠ [])
    (hlen : attribs.length < 2 ^ 32) (h : Loads blank next At str attrib x attribs y) :
    Gets blank Anything (At false ns) (d.decodeStruct attrib x) (e.encodeStruct attribs) y (At false ns) := by
  obtain ⟨f, attribs, rfl⟩ := exists_cons_of_ne_nil hne
  exact (laws.structs.start hlen).bind (gets_attribs laws hattrib h) fun _ _ => trivial

end Attribs

/-! ## Headers, bodies and messages -/

section Messages

theorem gets_once {φ α : Type} {value : Decoding α} {set : α → φ} {text : Bytes} {v : α} {ns : List Nat}
    (h : Gets blank next (At false ns) value text v (At false ns)) :
    Gets blank next (At false ns) (once none value set) text (set v) (At false ns) := by
  have hnone : ¬ (none : Option α).isSome = true := Bool.false_ne_true
  rw [once, if_neg hnone]
  exact h.bind_pure set

include laws

theorem gets_code {α : Type} {of : UInt32 → Option α} {code : UInt32} {a : α} {ns : List Nat} (ha : of code = some a) :
    Gets blank next (At false ns) (decodeCode d of) (e.encodeUInt32 false code) a (At false ns) := by
  refine (laws.scalars.uint32.gets (k := false) (v := code) trivial).bind_nil ?_
  rw [ha]
  exact Gets.pure a

theorem gets_header (h : Header) (ns : List Nat) :
    Gets blank Anything (At false ns) (Header.serializeLoad d) (h.serializeSave e) h (At false ns) := by
  have hattrib := regular_headerAttrib laws.regular
  have hloads : Loads blank next At str (HeaderFound.attrib d) {}
      [(ascii "xid", e.encodeInt32 false h.xid), (ascii "msgType", e.encodeUInt32 false h.msgType.code)]
      ⟨some h.xid, some h.msgType⟩ := by
    refine ⟨⟨some h.xid, none⟩, ⟨laws.names _ (by simp), fun ns => ?_⟩, ⟨_, _⟩, ⟨laws.names _ (by simp), fun ns => ?_⟩, rfl⟩
    · rw [HeaderFound.attrib, if_pos rfl]
      exact gets_once (laws.scalars.int32.gets (k := false) trivial)
    · rw [HeaderFound.attrib, if_neg (by decide), if_pos rfl]
      exact gets_once (gets_code laws (messageType?_code h.msgType))
  refine (gets_struct laws hattrib ns (by simp) (by simp) hloads).bind_nil ?_
  exact Gets.pure h

theorem gets_cbody {b : CallBody} {params : Bytes} (hservice : str b.service) (hmethod : str b.method)
    (hparams : ∀ ns, Gets blank next (At false ns) d.readRawObject (e.writeRawObject b.params) params (At false ns))
    (ns : List Nat) :
    Gets blank Anything (At false ns) (CallBody.serializeLoad d) (b.serializeSave e) { b with params := params }
      (At false ns) := by
  have hattrib := regular_callAttrib laws.regular
  have hloads : Loads blank next At str (CallFound.attrib d) {}
      [(ascii "service", e.encodeString b.service), (ascii "method", e.encodeString b.method),
        (ascii "params", e.writeRawObject b.params)] ⟨some b.service, some b.method, some params⟩ := by
    refine ⟨⟨some b.service, none, none⟩, ⟨laws.names _ (by simp), fun ns => ?_⟩, ⟨some b.service, some b.method, none⟩,
      ⟨laws.names _ (by simp), fun ns => ?_⟩, ⟨_, _, _⟩, ⟨laws.names _ (by simp), fun ns => ?_⟩, rfl⟩
    · rw [CallFound.attrib, if_pos rfl]
      exact gets_once (laws.scalars.string.gets (k := false) hservice)
    · rw [CallFound.attrib, if_neg (by decide), if_pos rfl]
      exact gets_once (laws.scalars.string.gets (k := false) hmethod)
    · rw [CallFound.attrib, if_neg (by decide), if_neg (by decide), if_pos rfl]
      exact gets_once (hparams ns)
  refine (gets_struct laws hattrib ns (by simp) (by simp) hloads).bind_nil ?_
  exact Gets.pure _

theorem gets_rbody {b : ReplyBody} {result : Bytes}
    (hresult : ∀ ns, Gets blank next (At false ns) d.readRawObject (e.writeRawObject b.result) result (At false ns))
    (ns : List Nat) :
    Gets blank Anything (At false ns) (ReplyBody.serializeLoad d) (b.serializeSave e) { b with result := result }
      (At false ns) := by
  have hattrib := regular_replyAttrib laws.regular
  have hloads : Loads blank next At str (ReplyFound.attrib d) {}
      [(ascii "replyStatus", e.encodeInt32 false b.replyStatus.code), (ascii "result", e.writeRawObject b.result)]
      ⟨some b.replyStatus, some result⟩ := by
    refine ⟨⟨some b.replyStatus, none⟩, ⟨laws.names _ (by simp), fun ns => ?_⟩, ⟨_, _⟩, ⟨laws.names _ (by simp), fun ns => ?_⟩,
      rfl⟩
    · rw [ReplyFound.attrib, if_pos rfl, laws.status]
      exact gets_once (gets_code laws (replyStatus?_code b.replyStatus))
    · rw [ReplyFound.attrib, if_neg (by decide), if_pos rfl]
      exact gets_once (hresult ns)
  refine (gets_struct laws hattrib ns (by simp) (by simp) hloads).bind_nil ?_
  exact Gets.pure _

/-- A call comes back with the parameters as the codec carries them. -/
theorem gets_call {m : Message} {params : Bytes} (hcall : m.header.msgType = .call) (hservice : str m.cbody.service)
    (hmethod : str m.cbody.method)
    (hparams : ∀ ns, Gets blank next (At false ns) d.readRawObject (e.writeRawObject m.cbody.params) params
      (At false ns)) (ns : List Nat) :
    Gets blank Anything (At false ns) (Message.serializeLoad d) (m.serializeSave e)
      { header := m.header, cbody := { m.cbody with params := params } } (At false ns) := by
  have hattrib := regular_messageAttrib laws.regular
  have hloads : Loads blank next At str (attrib d) {}
      [(ascii "header", m.header.serializeSave e), (ascii "cbody", m.cbody.serializeSave e)]
      ⟨some m.header, some { m.cbody with params := params }, none⟩ := by
    refine ⟨⟨some m.header, none, none⟩, ⟨laws.names _ (by simp), fun ns => ?_⟩, ⟨_, _, _⟩,
      ⟨laws.names _ (by simp), fun ns => ?_⟩, rfl⟩
    · rw [attrib, if_pos rfl]
      exact gets_once ((gets_header laws m.header ns).consequence (fun _ h => h) (fun _ h => h) fun _ _ => trivial)
    · rw [attrib, if_neg (by decide), if_pos rfl]
      exact gets_once ((gets_cbody laws hservice hmethod hparams ns).consequence (fun _ h => h) (fun _ h => h)
        fun _ _ => trivial)
  rw [Message.serializeSave, hcall]
  refine (gets_struct laws hattrib ns (by simp) (by simp) hloads).bind_nil ?_
  exact Gets.pure _

/-- A reply comes back with the result as the codec carries it. -/
theorem gets_reply {m : Message} {result : Bytes} (hreply : m.header.msgType = .reply)
    (hresult : ∀ ns, Gets blank next (At false ns) d.readRawObject (e.writeRawObject m.rbody.result) result
      (At false ns)) (ns : List Nat) :
    Gets blank Anything (At false ns) (Message.serializeLoad d) (m.serializeSave e)
      { header := m.header, rbody := { m.rbody with result := result } } (At false ns) := by
  have hattrib := regular_messageAttrib laws.regular
  have hloads : Loads blank next At str (attrib d) {}
      [(ascii "header", m.header.serializeSave e), (ascii "rbody", m.rbody.serializeSave e)]
      ⟨some m.header, none, some { m.rbody with result := result }⟩ := by
    refine ⟨⟨some m.header, none, none⟩, ⟨laws.names _ (by simp), fun ns => ?_⟩, ⟨_, _, _⟩,
      ⟨laws.names _ (by simp), fun ns => ?_⟩, rfl⟩
    · rw [attrib, if_pos rfl]
      exact gets_once ((gets_header laws m.header ns).consequence (fun _ h => h) (fun _ h => h) fun _ _ => trivial)
    · rw [attrib, if_neg (by decide), if_neg (by decide), if_pos rfl]
      exact gets_once ((gets_rbody laws hresult ns).consequence (fun _ h => h) (fun _ h => h) fun _ _ => trivial)
  rw [Message.serializeSave, hreply]
  refine (gets_struct laws hattrib ns (by simp) (by simp) hloads).bind_nil ?_
  exact Gets.pure _

end Messages

end Struct

end Whispercast.Rpc
