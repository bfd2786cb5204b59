import Whispercast.Rtsp.Decoder

/-!
# The decoder goes on where it stopped

What `Decode` has taken from the stream for a request or a response it does not need again: with more bytes behind
what is left, the next call does what one call on all bytes would have done (`decodeHeaded_continues`).
-/

namespace Whispercast.Rtsp

open Io Library List
open Http (readLine readLine_of_not_mem readLine_line)

namespace Decoder

/-! ## Lines -/

section Header

variable {pf : Platform}

variable {fields : FieldMap}

theorem decodeHeaderLoop_fuel {n m : Nat} {io : Bytes} (hn : io.length < n)
    (hm : io.length < m) : decodeHeaderLoop pf n fields io = decodeHeaderLoop pf m fields io := by
  induction io using Http.stream_induction generalizing n m fields with
  | tail s h =>
    obtain ⟨n, rfl⟩ : ∃ k, n = k + 1 := ⟨n - 1, by omega⟩
    obtain ⟨m, rfl⟩ : ∃ k, m = k + 1 := ⟨m - 1, by omega⟩
    rw [decodeHeaderLoop, decodeHeaderLoop, readLine_of_not_mem h]
  | line l s h ih =>
    obtain ⟨n, rfl⟩ : ∃ k, n = k + 1 := ⟨n - 1, by omega⟩
    obtain ⟨m, rfl⟩ : ∃ k, m = k + 1 := ⟨m - 1, by omega⟩
    rw [length_append, length_cons] at hn hm
    rw [decodeHeaderLoop, decodeHeaderLoop, readLine_line h]
    dsimp only
    split_ifs
    · rfl
    · cases decodeField pf fields (MemoryStream.strTrimCRLF l) with
      | none => rfl
      | some fields' => exact ih (by omega) (by omega)

theorem decodeHeader_of_not_mem {io : Bytes} (h : 10 ∉ io) : decodeHeader pf fields io = (.noData, fields, io) := by
  rw [decodeHeader, decodeHeaderLoop, readLine_of_not_mem h]

/-- A line that is not empty adds a field or is an error. -/
theorem decodeHeader_line {l : Bytes} (h : 10 ∉ l) (rest : Bytes) : decodeHeader pf fields (l ++ 10 :: rest) =
      if MemoryStream.strTrimCRLF l = [] then (.success, fields, rest)
      else match decodeField pf fields (MemoryStream.strTrimCRLF l) with
        | none => (.failure .error, fields, rest)
        | some fields' => decodeHeader pf fields' rest := by
  rw [decodeHeader, decodeHeaderLoop, readLine_line h]
  dsimp only
  split_ifs
  · rfl
  · cases decodeField pf fields (MemoryStream.strTrimCRLF l) with
    | none => rfl
    | some fields' =>
      refine decodeHeaderLoop_fuel ?_ (Nat.lt_succ_self _)
      rw [length_append, length_cons]
      omega

end Header

/-! ## Going on -/

/-- `x` is how a part of `Decode` ends on some bytes, `x'` on these and `y`: what is decided stays decided, and a part
that was waiting goes on from what it has left. -/
def Continues {ρ : Type} (call : ρ → Bytes → Ending × ρ × Bytes) (y : Bytes) (x x' : Ending × ρ × Bytes) : Prop :=
  match x with
  | (.noData, r, io) => call r (io ++ y) = x'
  | (ending, r, io) => x' = (ending, r, io ++ y)

variable {pf : Platform}

theorem decodeHeader_continues (fields : FieldMap) (io y : Bytes) :
    Continues (decodeHeader pf) y (decodeHeader pf fields io) (decodeHeader pf fields (io ++ y)) := by
  induction io using Http.stream_induction generalizing fields with
  | tail s h =>
    rw [decodeHeader_of_not_mem h]
    rfl
  | line l s h ih =>
    rw [append_assoc, cons_append, decodeHeader_line h, decodeHeader_line h]
    split_ifs
    · rfl
    · cases decodeField pf fields (MemoryStream.strTrimCRLF l) with
      | none => rfl
      | some fields' => exact ih fields'

section Body

variable {r : Reading} {io : Bytes}

/-- A body that is not complete takes all there is. -/
theorem bodyPhase_short (hlt : r.content_length_ < 2 ^ 31) (h : r.data.length + io.length < r.content_length_) :
    bodyPhase r io = (.noData, { r with data := r.data ++ io }, []) := by
  have hn : (if r.content_length_ - r.data.length < 2 ^ 31 then min (r.content_length_ - r.data.length) io.length
      else io.length) = io.length := by
    rw [if_pos (by omega)]
    omega
  have hlen : (r.data ++ io).length < r.content_length_ := by
    rw [length_append]
    omega
  rw [bodyPhase, decodeBody, if_neg (by omega)]
  dsimp only
  rw [hn, take_length, drop_length, if_neg (by omega), if_neg (by omega)]

/-- A body is complete when its length is reached, and takes no more. -/
theorem bodyPhase_full (hlt : r.content_length_ < 2 ^ 31) (hless : r.data.length < r.content_length_)
    (h : r.data.length + io.length = r.content_length_) (y : Bytes) :
    bodyPhase r (io ++ y) = (.success, { r with data := r.data ++ io, state_ := .idle }, y) := by
  have hn : (if r.content_length_ - r.data.length < 2 ^ 31
      then min (r.content_length_ - r.data.length) (io ++ y).length else (io ++ y).length) = io.length := by
    rw [if_pos (by omega), length_append]
    omega
  have hlen : (r.data ++ io).length = r.content_length_ := by
    rw [length_append]
    omega
  rw [bodyPhase, decodeBody, if_neg (by omega)]
  dsimp only
  rw [hn, take_left, drop_left, if_neg (by omega), if_pos hlen]

/-- What is missing of a body is taken as it comes, as long as its length is an `int32`. -/
theorem bodyPhase_continues (hstate : r.state_ = .body) (hlt : r.content_length_ < 2 ^ 31) (io y : Bytes) :
    Continues (decodeHeaderAndBody pf) y (bodyPhase r io) (bodyPhase r (io ++ y)) := by
  by_cases hless : r.data.length < r.content_length_
  · by_cases hwait : r.data.length + io.length < r.content_length_
    · -- All is taken, and the next call looks for the rest.
      rw [bodyPhase_short hlt hwait]
      have hcall : decodeHeaderAndBody pf { r with data := r.data ++ io } y =
          bodyPhase { r with data := r.data ++ io } y := by
        rw [decodeHeaderAndBody, hstate]
      have hgrown : (r.data ++ io).length < r.content_length_ := by
        rw [length_append]
        omega
      show decodeHeaderAndBody pf { r with data := r.data ++ io } ([] ++ y) = _
      rw [nil_append, hcall]
      by_cases hmore : r.data.length + (io ++ y).length < r.content_length_
      · rw [length_append] at hmore
        rw [bodyPhase_short (r := { r with data := r.data ++ io }) hlt (by dsimp only; rw [length_append]; omega),
          bodyPhase_short hlt (by rw [length_append]; omega), append_assoc]
      · rw [length_append] at hmore
        have hsplit := take_append_drop (r.content_length_ - (r.data.length + io.length)) y
        have hlen : (y.take (r.content_length_ - (r.data.length + io.length))).length =
            r.content_length_ - (r.data.length + io.length) := by
          rw [length_take]
          omega
        rw [← hsplit, ← append_assoc, bodyPhase_full hlt hless (by rw [length_append, hlen]; omega),
          bodyPhase_full (r := { r with data := r.data ++ io }) hlt hgrown
            (by dsimp only; rw [length_append, hlen]; omega),
          append_assoc]
    · have hsplit := take_append_drop (r.content_length_ - r.data.length) io
      have hlen : (io.take (r.content_length_ - r.data.length)).length = r.content_length_ - r.data.length := by
        rw [length_take]
        omega
      rw [← hsplit, append_assoc, bodyPhase_full hlt hless (by omega), bodyPhase_full hlt hless (by omega)]
      rfl
  · -- The `CHECK` fails whatever there is to read.
    have hcheck : ∀ io, bodyPhase r io = (.failure .check, r, io) := by
      intro io
      rw [bodyPhase, decodeBody, if_pos (Nat.not_lt.1 hless)]
    rw [hcheck, hcheck]
    rfl

end Body

/-- The length of the body that a header announces is an `int32` that is not negative. -/
def Announces (fields : FieldMap) : Prop := ∀ value ∈ fields.contentLength, 0 ≤ value ∧ value < 2 ^ 31

theorem headerEnd_continues {r : Reading} (hlength : r.content_length_ = 0) (hfields : Announces r.fields)
    (io y : Bytes) : Continues (decodeHeaderAndBody pf) y (headerEnd r io) (headerEnd r (io ++ y)) := by
  have hlt : (r.fields.contentLength.map fun value => (value % 2 ^ 32).toNat).getD r.content_length_ < 2 ^ 31 := by
    cases hvalue : r.fields.contentLength with
    | none =>
      rw [Option.map_none, Option.getD_none, hlength]
      decide
    | some value =>
      have hbounds := hfields value hvalue
      rw [Option.map_some, Option.getD_some]
      omega
  rw [headerEnd, headerEnd]
  generalize (r.fields.contentLength.map fun value => (value % 2 ^ 32).toNat).getD r.content_length_ = length at hlt ⊢
  dsimp only
  split_ifs with hcseq hzero
  · rfl
  · rfl
  · exact bodyPhase_continues rfl hlt io y

/-- The header that is complete announces a body that can be read. -/
def Bounded (pf : Platform) (r : Reading) (io : Bytes) : Prop :=
  match r.state_ with
  | .idle => True
  | .header => r.content_length_ = 0 ∧
      ∀ fields rest, decodeHeader pf r.fields io = (.success, fields, rest) → Announces fields
  | .body => r.content_length_ < 2 ^ 31

theorem decodeHeaderAndBody_continues {r : Reading} {io : Bytes} (hbounded : Bounded pf r io) (y : Bytes) :
    Continues (decodeHeaderAndBody pf) y (decodeHeaderAndBody pf r io) (decodeHeaderAndBody pf r (io ++ y)) := by
  obtain ⟨fields, data, length, state⟩ := r
  cases state with
  | idle => rfl
  | body => exact bodyPhase_continues rfl hbounded io y
  | header =>
    obtain ⟨hlength, hannounces⟩ := hbounded
    have hheader := @decodeHeader_continues pf fields io y
    simp only [decodeHeaderAndBody]
    rcases hdecode : decodeHeader pf fields io with ⟨ending, fields', rest⟩
    rw [hdecode] at hheader
    cases ending with
    | success =>
      have hwhole : decodeHeader pf fields (io ++ y) = (.success, fields', rest ++ y) := hheader
      rw [hwhole]
      exact headerEnd_continues (r := ⟨fields', data, length, .header⟩) hlength
        (hannounces fields' rest hdecode) rest y
    | failure e =>
      have hwhole : decodeHeader pf fields (io ++ y) = (.failure e, fields', rest ++ y) := hheader
      rw [hwhole]
      rfl
    | noData =>
      have hwhole : decodeHeader pf fields' (rest ++ y) = decodeHeader pf fields (io ++ y) := hheader
      rw [← hwhole]
      rfl

/-- A part that waits in the header or in the body. -/
theorem state_of_noData {r r' : Reading} {io rest : Bytes} (hstate : r.state_ = .header)
    (h : decodeHeaderAndBody pf r io = (.noData, r', rest)) : r'.state_ ≠ .idle := by
  rw [decodeHeaderAndBody, hstate] at h
  rcases hheader : decodeHeader pf r.fields io with ⟨ending, _, io'⟩
  rw [hheader] at h
  cases ending with
  | failure e => cases h
  | noData =>
    cases h
    exact (nomatch ·)
  | success =>
    dsimp only at h
    rw [headerEnd] at h
    generalize (Option.map _ _).getD _ = length at h
    dsimp only at h
    split_ifs at h
    · cases h
    · cases h
    · rw [bodyPhase] at h
      rcases hbody : decodeBody length r.data io' with ⟨ending, _, _⟩
      rw [hbody] at h
      cases ending with
      | success => cases h
      | failure e => cases h
      | noData =>
        cases h
        exact (nomatch ·)

/-! ## Requests and responses -/

section Headed

variable {κ : Type} {parseLine : Bytes → Option κ} {message : κ → FieldMap → Bytes → Message} {d : Decoder} {key : κ}
  {fields : FieldMap} {data io : Bytes}

theorem decodeHeaded_of_not_mem (hidle : d.state_ = .idle) (h : 10 ∉ io) :
    decodeHeaded pf parseLine message d key fields data io =
      .more { d with msg_ := some (message key fields data) } io := by
  rw [decodeHeaded, if_pos hidle, readLine_of_not_mem h]

theorem decodeHeaded_line (hidle : d.state_ = .idle) {l : Bytes} (h : 10 ∉ l) (rest : Bytes) :
    decodeHeaded pf parseLine message d key fields data (l ++ 10 :: rest) =
      match parseLine (MemoryStream.strTrimCRLF l) with
      | none => .fail .error { d with msg_ := some (message key fields data) } rest
      | some key' => finish (message key') (decodeHeaderAndBody pf ⟨fields, data, d.content_length_, .header⟩ rest) := by
  cases hparse : parseLine (MemoryStream.strTrimCRLF l) with
  | none | some key' => simp only [decodeHeaded, if_pos hidle, readLine_line h, hparse]

/-- Behind the first line the header announces a body that can be read. -/
def HeadBounded (pf : Platform) (fields : FieldMap) (data io : Bytes) : Prop :=
  ∀ l rest, 10 ∉ l → io = l ++ 10 :: rest → Bounded pf ⟨fields, data, 0, .header⟩ rest

/-- A call that does not end with a message or an error leaves a state in which the next call goes on. Otherwise, more
bytes would have changed nothing. -/
theorem decodeHeaded_continues (hidle : d.state_ = .idle) (hlength : d.content_length_ = 0)
    (hbounded : HeadBounded pf fields data io) (y : Bytes) :
    match decodeHeaded pf parseLine message d key fields data io with
    | .out a s r => decodeHeaded pf parseLine message d key fields data (io ++ y) = .out a s (r ++ y)
    | .fail e s r => decodeHeaded pf parseLine message d key fields data (io ++ y) = .fail e s (r ++ y)
    | .more s r => ∃ key' fields' data', s.msg_ = some (message key' fields' data') ∧
        decodeHeaded pf parseLine message s key' fields' data' (r ++ y) =
          decodeHeaded pf parseLine message d key fields data (io ++ y) := by
  by_cases hmem : 10 ∈ io
  · obtain ⟨l, rest, hl, rfl⟩ := Lines.exists_line hmem
    have hcontinues := decodeHeaderAndBody_continues (hbounded l rest hl rfl) y
    rw [append_assoc, cons_append, decodeHeaded_line hidle hl, decodeHeaded_line hidle hl, hlength]
    cases parseLine (MemoryStream.strTrimCRLF l) with
    | none => rfl
    | some key' =>
      rcases hcall : decodeHeaderAndBody pf ⟨fields, data, 0, .header⟩ rest with ⟨ending, r, io'⟩
      rw [hcall] at hcontinues
      cases ending with
      | success =>
        have hwhole : decodeHeaderAndBody pf ⟨fields, data, 0, .header⟩ (rest ++ y) = (.success, r, io' ++ y) :=
          hcontinues
        rw [hwhole]
        rfl
      | failure e =>
        have hwhole : decodeHeaderAndBody pf ⟨fields, data, 0, .header⟩ (rest ++ y) = (.failure e, r, io' ++ y) :=
          hcontinues
        rw [hwhole]
        rfl
      | noData =>
        have hwhole : decodeHeaderAndBody pf r (io' ++ y) =
            decodeHeaderAndBody pf ⟨fields, data, 0, .header⟩ (rest ++ y) := hcontinues
        refine ⟨key', r.fields, r.data, rfl, ?_⟩
        rw [← hwhole]
        exact if_neg (state_of_noData rfl hcall)
  · rw [decodeHeaded_of_not_mem hidle hmem]
    exact ⟨key, fields, data, rfl, rfl⟩

end Headed

end Decoder

end Whispercast.Rtsp
