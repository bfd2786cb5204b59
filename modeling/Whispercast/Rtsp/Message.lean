import Whispercast.Io.NumStreaming
import Whispercast.Rtsp.HeaderField

/-!
# RTSP messages

Requests, responses and interleaved frames, with the header that the first two share, and `rtsp_encoder.cc`. The fields
of a header are kept in the order of their names, and no name occurs twice. The body of a message is a `MemoryStream`; here
it is the bytes that can be read from it.
-/

namespace Whispercast.Rtsp

open Io Library List
open Http (ascii crlf cStr intToString)

/-! ## Headers -/

/-- `BaseHeader::FieldMap`: a `std::map` from names to fields. -/
structure FieldMap where
  fields : List HeaderField
  /-- The names ascend. -/
  sorted : fields.Pairwise fun f g => f.name < g.name

namespace FieldMap

/-- A map without fields. -/
def empty : FieldMap := ⟨[], .nil⟩

def getField (m : FieldMap) (name : Bytes) : Option HeaderField := m.fields.find? fun f => f.name = name

/-- Put a field in front of the first one with a greater name. -/
def insertField (field : HeaderField) : List HeaderField → List HeaderField
  | [] => [field]
  | f :: fields => if field.name < f.name then field :: f :: fields else f :: insertField field fields

variable {field : HeaderField} {fields : List HeaderField}

theorem mem_insertField {f : HeaderField} : f ∈ insertField field fields ↔ f = field ∨ f ∈ fields := by
  induction fields with
  | nil => simp [insertField]
  | cons g fields ih =>
    rw [insertField]
    split_ifs with hlt
    · exact mem_cons
    · rw [mem_cons, ih, mem_cons]
      tauto

theorem insertField_sorted
    (h : fields.Pairwise fun f g => f.name < g.name) (hnew : ∀ f ∈ fields, f.name ≠ field.name) :
    (insertField field fields).Pairwise fun f g => f.name < g.name := by
  induction fields with
  | nil => exact List.pairwise_singleton _ _
  | cons g fields ih =>
    rw [insertField]
    rw [List.pairwise_cons] at h
    split_ifs with hlt
    · rw [List.pairwise_cons, List.pairwise_cons]
      refine ⟨?_, h⟩
      intro f hf
      rcases mem_cons.1 hf with rfl | hf
      · exact hlt
      · exact List.lt_trans hlt (h.1 f hf)
    · -- The names are different, so the new one is behind.
      have hgt : g.name < field.name := by
        by_contra hge
        exact hnew g List.mem_cons_self (Std.Trichotomous.trichotomous (r := (· < ·)) _ _ hge hlt)
      rw [List.pairwise_cons]
      refine ⟨?_, ih h.2 fun f hf => hnew f (List.mem_cons_of_mem _ hf)⟩
      intro f hf
      rcases mem_insertField.1 hf with rfl | hf
      · exact hgt
      · exact h.1 f hf

theorem name_ne_of_getField {m : FieldMap} {name : Bytes} (h : m.getField name = none) :
    ∀ f ∈ m.fields, f.name ≠ name := by
  intro f hf hname
  rw [getField, find?_eq_none] at h
  exact h f hf (decide_eq_true hname)

/-- `add_field`: `none` is the failed `CHECK` of a field that is there already. -/
def addField (m : FieldMap) (field : HeaderField) : Option FieldMap :=
  if h : m.getField field.name = none then
    some ⟨insertField field m.fields, insertField_sorted m.sorted (name_ne_of_getField h)⟩
  else none

@[ext] theorem ext {m m' : FieldMap} (h : m.fields = m'.fields) : m = m' := by
  cases m
  cases m'
  cases h
  rfl

/-- A field above all others goes to the end. -/
theorem insertField_of_lt (h : ∀ f ∈ fields, f.name < field.name) : insertField field fields = fields ++ [field] := by
  induction fields with
  | nil => rfl
  | cons g fields ih =>
    have hge : ¬ field.name < g.name := List.lt_asymm (h g List.mem_cons_self)
    rw [insertField, if_neg hge, ih fun f hf => h f (List.mem_cons_of_mem _ hf), List.cons_append]

theorem mem_of_getField {m : FieldMap} {name : Bytes} (h : m.getField name = some field) :
    field ∈ m.fields ∧ field.name = name :=
  ⟨mem_of_find?_eq_some h, by simpa using find?_some h⟩

/-- `tget_field<ContentLengthHeaderField>()->value()`; the field with this name has this type. -/
def contentLength (m : FieldMap) : Option Int :=
  match m.getField (FieldType.numeric .contentLength).enc with
  | some (.numeric _ value_) => some value_
  | _ => none

end FieldMap

/-- `RequestHeader`. The version is that of the constructor, 1.0; a URL is its `spec`, and without one it is `*`. -/
structure RequestHeader where
  method_ : RequestMethod
  url_ : Option Bytes
  fields_ : FieldMap

structure ResponseHeader where
  status_ : StatusCode
  fields_ : FieldMap

/-! ## Messages -/

/-- `Message` with its subclasses. -/
inductive Message where
  | request (header_ : RequestHeader) (data_ : Bytes)
  | response (header_ : ResponseHeader) (data_ : Bytes)
  | interleavedFrame (channel_ : UInt8) (data_ : Bytes)

/-- `CheckContent`: the value is compared as a `uint32`. -/
def checkContent (fields : FieldMap) (data : Bytes) : Bool :=
  match fields.contentLength with
  | none => data.isEmpty
  | some value => value % 2 ^ 32 = data.length

/-! ## The encoder -/

namespace Encoder

/-- `StrEncodeRequestLine`; `none` is the failed `CHECK` on the size of the buffer. -/
def strEncodeRequestLine (method : RequestMethod) (url : Option Bytes) : Option Bytes :=
  let line := method.enc ++ 32 :: (cStr (url.getD (ascii "*")) ++ (ascii " RTSP/1.0" ++ crlf))
  if line.length < 32 + (url.getD []).length then some line else none

def strEncodeResponseLine (status : StatusCode) : Option Bytes :=
  let line := ascii "RTSP/1.0 " ++ (intToString status.toNat ++ 32 :: (status.description ++ crlf))
  if line.length < 128 then some line else none

/-- The line of a field. -/
def fieldLine (field : HeaderField) : Bytes := field.name ++ (ascii ": " ++ (field.strEncode ++ crlf))

def encodeBaseHeader (fields : FieldMap) : Bytes := fields.fields.flatMap fieldLine ++ crlf

/-- `EncodeInterleavedFrame`: a frame that is too large is not written. -/
def encodeInterleavedFrame (channel : UInt8) (data : Bytes) : Bytes :=
  if data.length ≥ 65535 then []
  else 36 :: channel :: (NumStreamer.writeNumber 2 .bigEndian data.length ++ data)

/-- `Encode`; `none` is a failed `CHECK`. -/
def encode : Message → Option Bytes
  | .request header_ data_ =>
    if checkContent header_.fields_ data_ then
      (strEncodeRequestLine header_.method_ header_.url_).map fun line =>
        line ++ (encodeBaseHeader header_.fields_ ++ data_)
    else none
  | .response header_ data_ =>
    if checkContent header_.fields_ data_ then
      (strEncodeResponseLine header_.status_).map fun line => line ++ (encodeBaseHeader header_.fields_ ++ data_)
    else none
  | .interleavedFrame channel_ data_ => some (encodeInterleavedFrame channel_ data_)

/-- `Encode` for one message after the other, into one stream. -/
def encodeAll : List Message → Option Bytes
  | [] => some []
  | message :: messages => do
      let bytes ← encode message
      let rest ← encodeAll messages
      pure (bytes ++ rest)

end Encoder

end Whispercast.Rtsp
