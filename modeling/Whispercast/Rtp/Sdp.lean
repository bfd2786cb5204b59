import Whispercast.Io.NumStreaming
import Whispercast.Rtsp.FieldRoundTrip

/-!
# Session descriptions

`Sdp::WriteString` and `Sdp::ReadString` of `whisperstreamlib/rtp/rtp_sdp.cc`. `none` is the use of a pointer that was
never set: the constructor leaves `parser_crt_media_` alone. The text of an IPv6 address is a parameter, and
`clock_rate_`, which is neither written nor read, is left out.
-/

namespace Whispercast.Rtp

open Io Library List Rtsp
open Http (ascii cStr intToString)
open Rtsp (splitString splitFirst)
open Numeral Option

/-! ## Addresses -/

/-- A text without the ends of lines. -/
def SingleLine (text : Bytes) : Prop := 10 ∉ text ∧ 13 ∉ text

instance (text : Bytes) : Decidable (SingleLine text) := inferInstanceAs (Decidable (_ ∧ _))

inductive IpAddress where
  | ipv4 (addr : UInt32)
  | ipv6 (addr : FixedBytes 16)
  deriving DecidableEq

/-- `inet_ntop` of an IPv4 address in host byte order. -/
def inetNtop (addr : UInt32) : Bytes :=
  Numeral.numeral 10 (addr.toNat / 2 ^ 24) ++ 46 :: (Numeral.numeral 10 (addr.toNat / 2 ^ 16 % 256) ++
    46 :: (Numeral.numeral 10 (addr.toNat / 2 ^ 8 % 256) ++ 46 :: Numeral.numeral 10 (addr.toNat % 256)))

/-- A number of an address: one to three digits, at most 255. -/
def octet (s : Bytes) : Option Nat :=
  if (s ≠ [] ∧ s.length ≤ 3) ∧ s.all (Numeral.isDigit 10) = true ∧ Numeral.value 10 s ≤ 255 then
    some (Numeral.value 10 s)
  else none

/-- `inet_pton` of an IPv4 address. -/
def inetPton (s : Bytes) : Option UInt32 :=
  match Lines.split 46 s with
  | ([a, b, c], d) => do
      let a ← octet a
      let b ← octet b
      let c ← octet c
      let d ← octet d
      some (UInt32.ofNat (((a * 256 + b) * 256 + c) * 256 + d))
  | _ => none

/-- `HostPort(text).ip_object()`: no `:` is left for an IPv6 address, and an error is the address 0. -/
def hostPortIp (text : Bytes) : IpAddress := .ipv4 ((inetPton (splitFirst 58 text).1).getD 0)

/-! ## Descriptions -/

/-- `Sdp::Media`, as `Media()` makes it. -/
structure Media where
  audio_ : Bool := true
  port_ : UInt16 := 0
  avp_payload_type_ : UInt8 := 0
  attributes_ : List Bytes := []
  deriving DecidableEq

/-- A `Media*`: `wild` is one that was never set. -/
inductive MediaPointer where
  | null
  | wild
  | element (index : Nat)

/-- `Sdp`, as its constructor makes it. -/
structure Sdp where
  session_name_ : Bytes := ascii "Unnamed"
  session_information_ : Bytes := ascii "N/A"
  url_ : Bytes := []
  email_ : Bytes := []
  phone_ : Bytes := []
  local_addr_ : IpAddress := .ipv4 0
  remote_addr_ : IpAddress := .ipv4 0
  attributes_ : List Bytes := []
  media_ : List Media := []
  parser_crt_media_ : MediaPointer

namespace Sdp

section Write

variable (ntop6 : FixedBytes 16 → { text : Bytes // SingleLine text })

/-- `IpAddress::ToString`. -/
def addrToString : IpAddress → Bytes
  | .ipv4 addr => inetNtop addr
  | .ipv6 addr => (ntop6 addr).1

/-- The family of an address. -/
def family : IpAddress → Bytes
  | .ipv4 _ => ascii "IP4"
  | .ipv6 _ => ascii "IP6"

/-- A line that is not written without a text. -/
def optional (name text : Bytes) : List Bytes := if text = [] then [] else [name ++ text]

/-- The lines of an attribute. -/
def attributeLines (attributes : List Bytes) : List Bytes := attributes.map fun a => ascii "a=" ++ a

/-- The lines of a media. -/
def mediaLines (media : Media) : List Bytes :=
  (ascii "m=" ++ ((if media.audio_ then ascii "audio" else ascii "video") ++ 32 :: (intToString media.port_.toNat ++
    32 :: (ascii "RTP/AVP" ++ 32 :: intToString media.avp_payload_type_.toNat)))) :: attributeLines media.attributes_

/-- The lines before the time of the session. -/
def headLines (now : Int) (sdp : Sdp) : List Bytes :=
  [ascii "v=0",
    ascii "o=" ++ (ascii "- " ++ (intToString now ++ 32 :: (intToString now ++ (ascii " IN IP4 " ++
      addrToString ntop6 sdp.local_addr_)))),
    ascii "s=" ++ sdp.session_name_, ascii "i=" ++ sdp.session_information_,
    ascii "c=" ++ (ascii "IN" ++ 32 :: (family sdp.remote_addr_ ++ 32 :: addrToString ntop6 sdp.remote_addr_))]

/-- The lines of `WriteString`, without the empty one at the end; `now` is `Date::Now`. -/
def writeLines (now : Int) (sdp : Sdp) : List Bytes :=
  headLines ntop6 now sdp ++ (optional (ascii "u=") sdp.url_ ++ (optional (ascii "e=") sdp.email_ ++
    (optional (ascii "p=") sdp.phone_ ++ ([ascii "t=0 0", ascii "a=tool:whisperstreamlib 0.1"] ++
      (attributeLines sdp.attributes_ ++ sdp.media_.flatMap mediaLines)))))

/-- `WriteString`: `endl` closes every line. -/
def writeString (now : Int) (sdp : Sdp) : Bytes := (writeLines ntop6 now sdp).flatMap (fun l => l ++ [10]) ++ [10]

end Write

/-- The value of a `c` line. -/
def parseConnection (value : Bytes) (sdp : Sdp) : Sdp :=
  match splitString 32 value with
  | [network, type, addr] =>
    if network ≠ ascii "IN" then sdp
    else if type ≠ ascii "IP4" then sdp
    else { sdp with remote_addr_ := hostPortIp addr }
  | _ => sdp

/-- An attribute that the parser ignores. -/
def Ignored (custom : Bytes) : Prop :=
  (splitFirst 58 custom).1 = ascii "tool" ∨ (splitFirst 58 custom).1 = ascii "range"

instance (custom : Bytes) : Decidable (Ignored custom) := inferInstanceAs (Decidable (_ ∨ _))

/-- The value of an `a` line. -/
def parseAttribute (value : Bytes) (sdp : Sdp) : Option Sdp :=
  if Ignored value then some sdp
  else
    match sdp.parser_crt_media_ with
    | .null => some sdp
    | .wild => none
    | .element i =>
      some { sdp with media_ := sdp.media_.modify i fun m => { m with attributes_ := m.attributes_ ++ [value] } }

def atol (s : Bytes) : Int := (Numeral.strtol 10 (cStr s)).1

/-- The new media of an `m` line, as far as its fields are understood. -/
def mediaOf (kind port profile payload : Bytes) : Media :=
  if kind = ascii "audio" ∨ kind = ascii "video" then
    let media : Media := { audio_ := kind = ascii "audio", port_ := UInt16.ofInt (atol port) }
    if profile = ascii "RTP/AVP" then { media with avp_payload_type_ := UInt8.ofInt (atol payload) } else media
  else {}

/-- The value of an `m` line. -/
def parseMedia (value : Bytes) (sdp : Sdp) : Sdp :=
  match splitString 32 value with
  | [kind, port, profile, payload] =>
    { sdp with
      media_ := sdp.media_ ++ [mediaOf kind port profile payload]
      parser_crt_media_ := .element sdp.media_.length }
  | _ => sdp

def parseLine (line : Bytes) (sdp : Sdp) : Option (Bool × Sdp) :=
  match line with
  | [] => some (true, sdp)
  | name :: 61 :: rest =>
    let value := cStr rest
    match Char.ofNat name.toNat with
    | 'v' | 'o' | 't' => some (true, sdp)
    | 's' => some (true, { sdp with session_name_ := value })
    | 'i' => some (true, { sdp with session_information_ := value })
    | 'u' => some (true, { sdp with url_ := value })
    | 'e' => some (true, { sdp with email_ := value })
    | 'p' => some (true, { sdp with phone_ := value })
    | 'c' => some (true, sdp.parseConnection value)
    | 'a' => (sdp.parseAttribute value).map fun sdp => (true, sdp)
    | 'm' => some (true, sdp.parseMedia value)
    | _ => some (true, sdp)
  | _ => some (false, sdp)

/-- The loop of `ReadString`. -/
def readLines : List Bytes → Sdp → Option (Bool × Sdp)
  | [], sdp => some (true, sdp)
  | line :: lines, sdp => do
      let (ok, sdp) ← sdp.parseLine (MemoryStream.strTrimCRLF line)
      if ok then readLines lines sdp else some (false, sdp)

def readString (str : Bytes) (sdp : Sdp) : Option (Bool × Sdp) := readLines (splitString 10 str) sdp

/-- Every text is a single line. -/
def SingleLines (sdp : Sdp) : Prop :=
  ∀ text ∈ [sdp.session_name_, sdp.session_information_, sdp.url_, sdp.email_, sdp.phone_] ++
    (sdp.attributes_ ++ sdp.media_.flatMap Media.attributes_), SingleLine text

instance (sdp : Sdp) : Decidable sdp.SingleLines := inferInstanceAs (Decidable (∀ _ ∈ _, _))

/-! ## Addresses are read as they are written -/

theorem octet_numeral {n : Nat} (hn : n ≤ 255) : octet (Numeral.numeral 10 n) = some n := by
  have hvalue : value 10 (numeral 10 n) = n := value_numeral (by decide) (by decide)
  have hlen : (numeral 10 n).length ≤ 3 := length_numeral_le (by decide) (by decide) (by omega)
  have hdigits : (numeral 10 n).all (isDigit 10) = true :=
    all_eq_true.2 fun c hc => isDigit_of_mem_numeral (by decide) (by decide) hc
  rw [octet, hvalue, if_pos ⟨⟨numeral_ne_nil, hlen⟩, hdigits, hn⟩]

/-- A character that is no digit is not in a number. -/
theorem not_mem_numeral {n : Nat} {c : UInt8} (hc : Numeral.isDigit 10 c = false) : c ∉ Numeral.numeral 10 n := by
  intro hmem
  rw [isDigit_of_mem_numeral (by decide) (by decide) hmem] at hc
  cases hc

/-- A character that is neither a digit nor the point is not in an address. -/
theorem not_mem_inetNtop (addr : UInt32) {c : UInt8} (hc : Numeral.isDigit 10 c = false) (hpoint : c ≠ 46) :
    c ∉ inetNtop addr := by
  simp [inetNtop, not_mem_numeral hc, hpoint]

theorem inetPton_inetNtop (addr : UInt32) : inetPton (inetNtop addr) = some addr := by
  have hpoint (n : Nat) : (46 : UInt8) ∉ numeral 10 n := not_mem_numeral (by decide)
  have hlt : addr.toNat < 2 ^ 32 := addr.toNat_lt
  have hsplit : Lines.split 46 (inetNtop addr) = ([numeral 10 (addr.toNat / 2 ^ 24),
      numeral 10 (addr.toNat / 2 ^ 16 % 256), numeral 10 (addr.toNat / 2 ^ 8 % 256)],
      numeral 10 (addr.toNat % 256)) := by
    rw [inetNtop, Lines.split_line (hpoint _), Lines.split_line (hpoint _), Lines.split_line (hpoint _),
      Lines.split_of_not_mem (hpoint _)]
  have hsum : (((addr.toNat / 2 ^ 24) * 256 + addr.toNat / 2 ^ 16 % 256) * 256 + addr.toNat / 2 ^ 8 % 256) * 256 +
      addr.toNat % 256 = addr.toNat := by omega
  rw [inetPton, hsplit]
  dsimp only
  rw [octet_numeral (by omega), octet_numeral (by omega), octet_numeral (by omega), octet_numeral (by omega)]
  simp only [bind_eq_bind, bind_some, hsum, UInt32.ofNat_toNat]

theorem hostPortIp_inetNtop (addr : UInt32) : hostPortIp (inetNtop addr) = .ipv4 addr := by
  have hcolon := not_mem_inetNtop addr (c := 58) (by decide) (by decide)
  have hzero := not_mem_inetNtop addr (c := 0) (by decide) (by decide)
  rw [hostPortIp, splitFirst_single hcolon hzero, inetPton_inetNtop, getD_some]

/-! ## Lines are read one after the other -/

variable {s t : Sdp} {lines : List Bytes}

/-- Lines that can be told apart, and that are read without an error. -/
structure Reads (lines : List Bytes) (s t : Sdp) : Prop where
  apart : ∀ l ∈ lines, l ≠ [] ∧ 10 ∉ l
  read : readLines lines s = some (true, t)

theorem Reads.nil (s : Sdp) : Reads [] s s := ⟨by simp, rfl⟩

theorem Reads.append {lines' : List Bytes} {u : Sdp} (h : Reads lines s t) (h' : Reads lines' t u) :
    Reads (lines ++ lines') s u := by
  obtain ⟨hapart, hread⟩ := h
  refine ⟨fun l hl => (mem_append.1 hl).elim (hapart l) (h'.apart l), ?_⟩
  clear hapart
  induction lines generalizing s with
  | nil =>
    cases hread
    exact h'.read
  | cons line lines ih =>
    rw [readLines, bind_eq_bind, bind_eq_some_iff] at hread
    obtain ⟨⟨ok, _⟩, hline, hrest⟩ := hread
    cases ok with
    | false => cases hrest
    | true =>
      rw [cons_append, readLines, hline]
      exact ih hrest

variable {text : Bytes}

theorem strTrimCRLF_of_singleLine (h : SingleLine text) : MemoryStream.strTrimCRLF text = text := by
  rw [MemoryStream.strTrimCRLF, rdropWhile_eq_self_iff]
  intro hne hlast
  have hmem := getLast_mem hne
  rw [Bool.or_eq_true, beq_iff_eq, beq_iff_eq] at hlast
  rcases hlast with hend | hend
  · exact h.1 (hend ▸ hmem)
  · exact h.2 (hend ▸ hmem)

/-- A line with a name and a text. -/
theorem reads_line (name : UInt8) (hname : SingleLine [name]) (htext : SingleLine text)
    (h : s.parseLine (name :: 61 :: text) = some (true, t)) : Reads [name :: 61 :: text] s t := by
  have hline : SingleLine (name :: 61 :: text) := by
    simp only [SingleLine, mem_cons, not_or] at hname htext ⊢
    exact ⟨⟨hname.1.1, by decide, htext.1⟩, hname.2.1, by decide, htext.2⟩
  refine ⟨fun l hl => ?_, ?_⟩
  · rw [mem_singleton.1 hl]
    exact ⟨cons_ne_nil _ _, hline.1⟩
  · rw [readLines, strTrimCRLF_of_singleLine hline, h]
    rfl

theorem singleLine_append {text' : Bytes} (h : SingleLine text) (h' : SingleLine text') :
    SingleLine (text ++ text') := by
  simp only [SingleLine, mem_append, not_or] at h h' ⊢
  exact ⟨⟨h.1, h'.1⟩, h.2, h'.2⟩

theorem singleLine_cons {c : UInt8} (hc : c ≠ 10 ∧ c ≠ 13) (h : SingleLine text) : SingleLine (c :: text) := by
  simp only [SingleLine, mem_cons, not_or] at h ⊢
  exact ⟨⟨hc.1.symm, h.1⟩, hc.2.symm, h.2⟩

theorem singleLine_intToString (n : Int) : SingleLine (intToString n) :=
  ⟨Http.not_mem_intToString n (by decide), Http.not_mem_intToString n (by decide)⟩

theorem singleLine_addrToString (ntop6 : FixedBytes 16 → { text : Bytes // SingleLine text }) (addr : IpAddress) :
    SingleLine (addrToString ntop6 addr) := by
  cases addr with
  | ipv4 addr => exact ⟨not_mem_inetNtop addr (by decide) (by decide), not_mem_inetNtop addr (by decide) (by decide)⟩
  | ipv6 addr => exact (ntop6 addr).2

/-- Where one of the texts is not empty, it is read as far as it is a C string. -/
theorem reads_optional (name : UInt8) (hname : SingleLine [name]) (htext : SingleLine text)
    (h : text ≠ [] → s.parseLine (name :: 61 :: text) = some (true, t)) (hnil : text = [] → t = s) :
    Reads (optional [name, 61] text) s t := by
  rw [optional]
  split_ifs with hempty
  · rw [hnil hempty]
    exact Reads.nil s
  · exact reads_line name hname htext (h hempty)

theorem singleLine_family (addr : IpAddress) : SingleLine (family addr) := by
  cases addr with
  | ipv4 addr => exact (by decide : SingleLine (ascii "IP4"))
  | ipv6 addr => exact (by decide : SingleLine (ascii "IP6"))

/-- The connection data give back an IPv4 address. -/
def receivedAddr (addr other : IpAddress) : IpAddress :=
  match addr with
  | .ipv4 _ => addr
  | .ipv6 _ => other

theorem parseConnection_written (ntop6 : FixedBytes 16 → { text : Bytes // SingleLine text }) (addr : IpAddress)
    (s : Sdp) : s.parseConnection (cStr (ascii "IN" ++ 32 :: (family addr ++ 32 :: addrToString ntop6 addr))) =
      { s with remote_addr_ := receivedAddr addr s.remote_addr_ } := by
  cases addr with
  | ipv4 addr =>
    have hzero := not_mem_inetNtop addr (c := 0) (by decide) (by decide)
    have hblank := not_mem_inetNtop addr (c := 32) (by decide) (by decide)
    have hne : inetNtop addr ≠ [] := by simp [inetNtop]
    have htext : cStr (ascii "IN" ++ 32 :: (ascii "IP4" ++ 32 :: inetNtop addr)) =
        ascii "IN" ++ 32 :: (ascii "IP4" ++ 32 :: inetNtop addr) := by
      apply cStr_of_not_mem
      simp [ascii, hzero]
    have hsplit : splitString 32 (ascii "IN" ++ 32 :: (ascii "IP4" ++ 32 :: inetNtop addr)) =
        [ascii "IN", ascii "IP4", inetNtop addr] := by
      rw [splitString_part (by decide) (by decide), splitString_part (by decide) (by decide),
        splitString_single hblank hne]
    rw [family, addrToString, htext, parseConnection, hsplit]
    simp [hostPortIp_inetNtop, receivedAddr]
  | ipv6 addr =>
    -- the second part is not `IP4`, whatever comes behind it
    have hsplit : ∃ rest, splitString 32 (cStr (ascii "IN" ++ 32 :: (ascii "IP6" ++ 32 :: (ntop6 addr).1))) =
        ascii "IN" :: ascii "IP6" :: rest := by
      refine ⟨splitString 32 (cStr (ntop6 addr).1), ?_⟩
      have htext : cStr (ascii "IN" ++ 32 :: (ascii "IP6" ++ 32 :: (ntop6 addr).1)) =
          ascii "IN" ++ 32 :: (ascii "IP6" ++ 32 :: cStr (ntop6 addr).1) := by
        simp [cStr, ascii]
      rw [htext, splitString_part (by decide) (by decide), splitString_part (by decide) (by decide)]
    obtain ⟨rest, hrest⟩ := hsplit
    have hfamily : ascii "IP6" ≠ ascii "IP4" := by decide
    rw [family, addrToString, parseConnection, hrest]
    rcases rest with _ | ⟨x, _ | ⟨y, rest⟩⟩
    · rfl
    · simp [hfamily, receivedAddr]
    · rfl

section Session

variable (ntop6 : FixedBytes 16 → { text : Bytes // SingleLine text }) (now : Int) {sdp : Sdp}

theorem reads_headLines (h : sdp.SingleLines) (s : Sdp) : Reads (headLines ntop6 now sdp) s
      { s with
        session_name_ := cStr sdp.session_name_
        session_information_ := cStr sdp.session_information_
        remote_addr_ := receivedAddr sdp.remote_addr_ s.remote_addr_ } := by
  have horigin : SingleLine (ascii "- " ++ (intToString now ++ 32 :: (intToString now ++ (ascii " IN IP4 " ++
      addrToString ntop6 sdp.local_addr_)))) := by
    refine singleLine_append (by decide) (singleLine_append (singleLine_intToString now) (singleLine_cons (by decide) ?_))
    exact singleLine_append (singleLine_intToString now)
      (singleLine_append (by decide) (singleLine_addrToString ntop6 _))
  have hconnection : SingleLine (ascii "IN" ++ 32 :: (family sdp.remote_addr_ ++
      32 :: addrToString ntop6 sdp.remote_addr_)) := by
    refine singleLine_append (by decide) (singleLine_cons (by decide) (singleLine_append ?_ (singleLine_cons (by decide)
      (singleLine_addrToString ntop6 _))))
    exact singleLine_family _
  have hname : SingleLine sdp.session_name_ := h _ (by simp)
  have hinformation : SingleLine sdp.session_information_ := h _ (by simp)
  have hread := reads_line (s := { s with
    session_name_ := cStr sdp.session_name_, session_information_ := cStr sdp.session_information_ }) 99 (by decide)
    hconnection (congrArg (fun s => some (true, s)) (parseConnection_written ntop6 sdp.remote_addr_ _))
  have hzero : SingleLine (ascii "0") := by decide
  exact (reads_line 118 (by decide) hzero rfl).append ((reads_line 111 (by decide) horigin rfl).append
    ((reads_line 115 (by decide) hname rfl).append ((reads_line 105 (by decide) hinformation rfl).append hread)))

/-- The attribute that is no session attribute, and the time of the session, are passed over. -/
theorem reads_timeLines (s : Sdp) : Reads [ascii "t=0 0", ascii "a=tool:whisperstreamlib 0.1"] s s := by
  have htime : SingleLine (ascii "0 0") := by decide
  have htool : SingleLine (ascii "tool:whisperstreamlib 0.1") := by decide
  have hignored : Ignored (cStr (ascii "tool:whisperstreamlib 0.1")) := by decide
  have hparse : s.parseLine (97 :: 61 :: ascii "tool:whisperstreamlib 0.1") = some (true, s) := by
    show (s.parseAttribute (cStr (ascii "tool:whisperstreamlib 0.1"))).map (fun s => (true, s)) = _
    rw [parseAttribute, if_pos hignored, map_some]
  exact (reads_line 116 (by decide) htime rfl).append (reads_line 97 (by decide) htool hparse)

end Session

/-! ## Attributes and media -/

/-- Attributes that are ignored change nothing. -/
theorem reads_ignored {attributes : List Bytes} (h : ∀ a ∈ attributes, SingleLine a ∧ Ignored (cStr a)) (s : Sdp) :
    Reads (attributeLines attributes) s s := by
  induction attributes with
  | nil => exact Reads.nil s
  | cons a attributes ih =>
    obtain ⟨hline, hignored⟩ := h a mem_cons_self
    have hparse : s.parseLine (97 :: 61 :: a) = some (true, s) := by
      show (s.parseAttribute (cStr a)).map (fun s => (true, s)) = _
      rw [parseAttribute, if_pos hignored, map_some]
    exact (reads_line 97 (by decide) hline hparse).append (ih fun b hb => h b (mem_cons_of_mem _ hb))

/-- The attributes that come back. -/
def received (attributes : List Bytes) : List Bytes := (attributes.map cStr).filter fun a => ¬ Ignored a

theorem modify_last {α : Type} (f : α → α) (l : List α) (a : α) : (l ++ [a]).modify l.length f = l ++ [f a] := by
  induction l with
  | nil => rfl
  | cons b l ih => simpa using ih

/-- The attributes behind an `m` line belong to its media. -/
theorem reads_attributes {attributes : List Bytes} (h : ∀ a ∈ attributes, SingleLine a) {s : Sdp} {media : List Media}
    {m : Media} (hmedia : s.media_ = media ++ [m]) (hcrt : s.parser_crt_media_ = .element media.length) :
    Reads (attributeLines attributes) s
      { s with media_ := media ++ [{ m with attributes_ := m.attributes_ ++ received attributes }] } := by
  induction attributes generalizing s m with
  | nil =>
    obtain ⟨_, _, _, _, _, _, _, _, _, _⟩ := s
    cases hmedia
    simpa [attributeLines, received] using Reads.nil _
  | cons a attributes ih =>
    have hline := h a mem_cons_self
    have hrest := fun b hb => h b (mem_cons_of_mem a hb)
    by_cases hignored : Ignored (cStr a)
    · have hparse : s.parseLine (97 :: 61 :: a) = some (true, s) := by
        show (s.parseAttribute (cStr a)).map (fun s => (true, s)) = _
        rw [parseAttribute, if_pos hignored, map_some]
      have hkept : received (a :: attributes) = received attributes := by simp [received, hignored]
      rw [hkept]
      exact (reads_line 97 (by decide) hline hparse).append (ih hrest hmedia hcrt)
    · have hparse : s.parseLine (97 :: 61 :: a) = some (true,
          { s with media_ := media ++ [{ m with attributes_ := m.attributes_ ++ [cStr a] }] }) := by
        show (s.parseAttribute (cStr a)).map (fun s => (true, s)) = _
        rw [parseAttribute, if_neg hignored, hcrt]
        simp [hmedia, modify_last]
      have hkept : received (a :: attributes) = cStr a :: received attributes := by simp [received, hignored]
      have htail := ih (m := { m with attributes_ := m.attributes_ ++ [cStr a] })
        (s := { s with media_ := media ++ [{ m with attributes_ := m.attributes_ ++ [cStr a] }] }) hrest rfl hcrt
      have happend : m.attributes_ ++ cStr a :: received attributes =
          m.attributes_ ++ [cStr a] ++ received attributes := by simp
      rw [hkept, happend]
      exact (reads_line 97 (by decide) hline hparse).append htail

theorem atol_intToString (n : Nat) (hn : n < 2 ^ 31) : atol (intToString n) = n := by
  have hzero : 0 ∉ intToString n := Http.not_mem_intToString n (by decide)
  rw [atol, cStr_of_not_mem hzero, Http.strtol_intToString (by omega) (by omega)]

theorem mediaOf_written (m : Media) : mediaOf (if m.audio_ then ascii "audio" else ascii "video")
    (intToString m.port_.toNat) (ascii "RTP/AVP") (intToString m.avp_payload_type_.toNat) =
      { m with attributes_ := [] } := by
  obtain ⟨audio, port, payload, -⟩ := m
  have hport : UInt16.ofInt (atol (intToString port.toNat)) = port := by
    have hlt := port.toNat_lt
    rw [atol_intToString _ (by omega), UInt16.ofInt, Int.emod_eq_of_lt (by omega) (by omega), Int.toNat_natCast,
      UInt16.ofNat_toNat]
  have hpayload : UInt8.ofInt (atol (intToString payload.toNat)) = payload := by
    have hlt := payload.toNat_lt
    rw [atol_intToString _ (by omega), UInt8.ofInt, Int.emod_eq_of_lt (by omega) (by omega), Int.toNat_natCast,
      UInt8.ofNat_toNat]
  have hkind : ascii "video" ≠ ascii "audio" := by decide
  cases audio <;> simp [mediaOf, hport, hpayload, hkind]

/-- A media as it comes back. -/
def receivedMedia (m : Media) : Media := { m with attributes_ := received m.attributes_ }

/-- An `m` line starts a media, and the attributes behind it are those of the media. -/
theorem reads_mediaLines {m : Media} (h : ∀ a ∈ m.attributes_, SingleLine a) (s : Sdp) : Reads (mediaLines m) s
      { s with media_ := s.media_ ++ [receivedMedia m], parser_crt_media_ := .element s.media_.length } := by
  obtain ⟨kind, hkind⟩ : ∃ kind, kind = if m.audio_ then ascii "audio" else ascii "video" := ⟨_, rfl⟩
  have hword : (kind ≠ [] ∧ 32 ∉ kind ∧ 0 ∉ kind) ∧ SingleLine kind := by
    rw [hkind]
    cases m.audio_ <;> decide
  have hnumber (n : Nat) : 32 ∉ intToString n ∧ 0 ∉ intToString n :=
    ⟨Http.not_mem_intToString n (by decide), Http.not_mem_intToString n (by decide)⟩
  have hline : SingleLine (kind ++ 32 :: (intToString m.port_.toNat ++ 32 :: (ascii "RTP/AVP" ++
      32 :: intToString m.avp_payload_type_.toNat))) := by
    refine singleLine_append hword.2 (singleLine_cons (by decide) (singleLine_append (singleLine_intToString _) ?_))
    exact singleLine_cons (by decide) (singleLine_append (by decide) (singleLine_cons (by decide)
      (singleLine_intToString _)))
  have hzero : 0 ∉ kind ++ 32 :: (intToString m.port_.toNat ++ 32 :: (ascii "RTP/AVP" ++
      32 :: intToString m.avp_payload_type_.toNat)) := by
    have hprofile : 0 ∉ ascii "RTP/AVP" := by decide
    simp [hword.1.2.2, hnumber, hprofile]
  have hsplit : splitString 32 (kind ++ 32 :: (intToString m.port_.toNat ++ 32 :: (ascii "RTP/AVP" ++
      32 :: intToString m.avp_payload_type_.toNat))) =
      [kind, intToString m.port_.toNat, ascii "RTP/AVP", intToString m.avp_payload_type_.toNat] := by
    rw [splitString_part hword.1.2.1 hword.1.1, splitString_part (hnumber _).1 (Http.intToString_ne_nil _),
      splitString_part (by decide) (by decide), splitString_single (hnumber _).1 (Http.intToString_ne_nil _)]
  have hmedia := mediaOf_written m
  rw [← hkind] at hmedia
  have hparse : s.parseMedia (cStr (kind ++ 32 :: (intToString m.port_.toNat ++ 32 :: (ascii "RTP/AVP" ++
      32 :: intToString m.avp_payload_type_.toNat)))) =
      { s with
        media_ := s.media_ ++ [{ m with attributes_ := [] }], parser_crt_media_ := .element s.media_.length } := by
    rw [cStr_of_not_mem hzero, parseMedia, hsplit]
    dsimp only
    rw [hmedia]
  have hread := reads_line 109 (by decide) hline (congrArg (fun s => some (true, s)) hparse)
  have hattributes := reads_attributes h (s := { s with
    media_ := s.media_ ++ [{ m with attributes_ := [] }], parser_crt_media_ := .element s.media_.length }) rfl rfl
  have hboth := hread.append hattributes
  rw [hkind] at hboth
  exact hboth

/-- The media come back one after the other. -/
theorem reads_media {media : List Media} (h : ∀ m ∈ media, ∀ a ∈ m.attributes_, SingleLine a) (s : Sdp) :
    ∃ crt, Reads (media.flatMap mediaLines) s
      { s with media_ := s.media_ ++ media.map receivedMedia, parser_crt_media_ := crt } := by
  induction media generalizing s with
  | nil => exact ⟨s.parser_crt_media_, by simpa using Reads.nil s⟩
  | cons m media ih =>
    obtain ⟨crt, htail⟩ := ih (fun m' hm' => h m' (mem_cons_of_mem _ hm'))
      { s with media_ := s.media_ ++ [receivedMedia m], parser_crt_media_ := .element s.media_.length }
    refine ⟨crt, ?_⟩
    have hboth := (reads_mediaLines (h m mem_cons_self) s).append htail
    simpa using hboth

/-! ## The whole text -/

/-- Lines that are not empty are what is between the ends of lines. -/
theorem splitString_lines {lines : List Bytes} (h : ∀ l ∈ lines, l ≠ [] ∧ 10 ∉ l) :
    splitString 10 (lines.flatMap (fun l => l ++ [10]) ++ [10]) = lines := by
  induction lines with
  | nil => decide
  | cons l lines ih =>
    obtain ⟨hne, hmem⟩ := h l mem_cons_self
    have htail := ih fun l' hl' => h l' (mem_cons_of_mem _ hl')
    rw [flatMap_cons, append_assoc, append_assoc, singleton_append,
      splitString_part hmem hne, htail]

/-- A description as it comes back: texts end at their first NUL, an IPv6 address and the session attributes are lost,
and so are the attributes of media that the parser ignores. -/
def receivedSdp (sdp : Sdp) (crt : MediaPointer) : Sdp where
  session_name_ := cStr sdp.session_name_
  session_information_ := cStr sdp.session_information_
  url_ := cStr sdp.url_
  email_ := cStr sdp.email_
  phone_ := cStr sdp.phone_
  remote_addr_ := receivedAddr sdp.remote_addr_ (.ipv4 0)
  media_ := sdp.media_.map receivedMedia
  parser_crt_media_ := crt

section Whole

variable (ntop6 : FixedBytes 16 → { text : Bytes // SingleLine text }) (now : Int) {sdp : Sdp}

/-- However the pointer was left by the constructor, the text that was written is read. -/
theorem readString_written (h : sdp.SingleLines) (hsession : ∀ a ∈ sdp.attributes_, Ignored (cStr a))
    (crt : MediaPointer) : ∃ crt', readString (writeString ntop6 now sdp) { parser_crt_media_ := crt } =
      some (true, sdp.receivedSdp crt') := by
  have hattributes (a : Bytes) (ha : a ∈ sdp.attributes_) : SingleLine a ∧ Ignored (cStr a) :=
    ⟨h a (by simp [ha]), hsession a ha⟩
  have hmedia (m : Media) (hm : m ∈ sdp.media_) (a : Bytes) (ha : a ∈ m.attributes_) : SingleLine a := by
    have hmem : a ∈ sdp.media_.flatMap Media.attributes_ := mem_flatMap.2 ⟨m, hm, ha⟩
    exact h a (by simp [hmem])
  have hurl : SingleLine sdp.url_ := h _ (by simp)
  have hemail : SingleLine sdp.email_ := h _ (by simp)
  have hphone : SingleLine sdp.phone_ := h _ (by simp)
  -- the state behind each group of lines
  have hhead : Reads (headLines ntop6 now sdp) { parser_crt_media_ := crt }
      { sdp.receivedSdp crt with url_ := [], email_ := [], phone_ := [], media_ := [] } := reads_headLines ntop6 now h _
  have hurlLine : Reads (optional (ascii "u=") sdp.url_)
      { sdp.receivedSdp crt with url_ := [], email_ := [], phone_ := [], media_ := [] }
      { sdp.receivedSdp crt with email_ := [], phone_ := [], media_ := [] } :=
    reads_optional 117 (by decide) hurl (fun _ => rfl) fun hnil => by simp [receivedSdp, hnil, cStr]
  have hemailLine : Reads (optional (ascii "e=") sdp.email_)
      { sdp.receivedSdp crt with email_ := [], phone_ := [], media_ := [] }
      { sdp.receivedSdp crt with phone_ := [], media_ := [] } :=
    reads_optional 101 (by decide) hemail (fun _ => rfl) fun hnil => by simp [receivedSdp, hnil, cStr]
  have hphoneLine : Reads (optional (ascii "p=") sdp.phone_)
      { sdp.receivedSdp crt with phone_ := [], media_ := [] } { sdp.receivedSdp crt with media_ := [] } :=
    reads_optional 112 (by decide) hphone (fun _ => rfl) fun hnil => by simp [receivedSdp, hnil, cStr]
  obtain ⟨crt', hmediaLines⟩ := reads_media hmedia { sdp.receivedSdp crt with media_ := [] }
  have htail := (reads_timeLines { sdp.receivedSdp crt with media_ := [] }).append
    ((reads_ignored hattributes _).append hmediaLines)
  have hall : Reads (writeLines ntop6 now sdp) { parser_crt_media_ := crt } (sdp.receivedSdp crt') :=
    hhead.append (hurlLine.append (hemailLine.append (hphoneLine.append htail)))
  refine ⟨crt', ?_⟩
  rw [readString, writeString, splitString_lines hall.apart, hall.read]

/-- What is compared of two descriptions. -/
structure Same (s t : Sdp) : Prop where
  session_name : s.session_name_ = t.session_name_
  session_information : s.session_information_ = t.session_information_
  url : s.url_ = t.url_
  email : s.email_ = t.email_
  phone : s.phone_ = t.phone_
  remote_addr : s.remote_addr_ = t.remote_addr_
  attributes : s.attributes_ = t.attributes_
  media : s.media_ = t.media_

/-- The text of a description is read on a new one, however the constructor left the pointer, and gives a description. -/
def Returns (sdp result : Sdp) : Prop :=
  ∀ crt, ∃ s, readString (writeString ntop6 now sdp) { parser_crt_media_ := crt } = some (true, s) ∧ Same s result

/-- A description whose session attributes the parser ignores comes back with its media and their attributes in order,
without the attributes that the parser ignores, and with its remote address if this is one of IPv4. -/
theorem readString_writeString (h : sdp.SingleLines) (hsession : ∀ a ∈ sdp.attributes_, Ignored (cStr a)) :
    Returns ntop6 now sdp (sdp.receivedSdp .null) := by
  intro crt
  obtain ⟨_, hread⟩ := readString_written ntop6 now h hsession crt
  exact ⟨_, hread, ⟨rfl, rfl, rfl, rfl, rfl, rfl, rfl, rfl⟩⟩

end Whole

/-- Two media with attributes, and a session attribute that is ignored. -/
def twoMedia : Sdp where
  session_name_ := ascii "name"
  remote_addr_ := .ipv4 0x0a000001
  attributes_ := [ascii "range:npt=0-"]
  media_ := [⟨true, 5004, 96, [ascii "rtpmap:96 mpeg4-generic/44100"]⟩, ⟨false, 5006, 97, []⟩]
  parser_crt_media_ := .null

/-- An IPv6 address, a session attribute, an attribute of a media that is ignored, and a name with a NUL. -/
def lossy : List Sdp :=
  [{ remote_addr_ := .ipv6 ⟨[0, 0, 0, 0, 0, 0, 0, 0, 0, 0, 0, 0, 0, 0, 0, 1], rfl⟩, parser_crt_media_ := .null },
    { remote_addr_ := .ipv4 0x0a000001, attributes_ := [ascii "range:npt=0-"], parser_crt_media_ := .null },
    { remote_addr_ := .ipv4 0x0a000001, media_ := [⟨true, 5004, 96, [ascii "tool:x"]⟩], parser_crt_media_ := .null },
    { remote_addr_ := .ipv4 0x0a000001, session_name_ := [97, 0, 98], parser_crt_media_ := .null }]

theorem readString_writeString_twoMedia :
    Returns (fun _ => ⟨ascii "::1", by decide⟩) 0 twoMedia (twoMedia.receivedSdp .null) :=
  readString_writeString _ 0 (by decide) (by decide)

/-- None of these descriptions comes back. -/
theorem lossy_not_returned :
    lossy.Forall fun sdp => sdp.SingleLines ∧ ¬ Returns (fun _ => ⟨ascii "::1", by decide⟩) 0 sdp sdp := by
  rw [List.forall_iff_forall_mem]
  have hlines : ∀ sdp ∈ lossy, sdp.SingleLines ∧ ∀ a ∈ sdp.attributes_, Ignored (cStr a) := by decide
  have hlost : ∀ sdp ∈ lossy, ¬ (cStr sdp.session_name_ = sdp.session_name_ ∧
      receivedAddr sdp.remote_addr_ (.ipv4 0) = sdp.remote_addr_ ∧ [] = sdp.attributes_ ∧
      sdp.media_.map receivedMedia = sdp.media_) := by decide
  intro sdp hsdp
  obtain ⟨hsingle, hsession⟩ := hlines sdp hsdp
  refine ⟨hsingle, fun h => hlost sdp hsdp ?_⟩
  obtain ⟨s, hread, hsame⟩ := h .null
  obtain ⟨crt, hwritten⟩ := readString_written (fun _ => ⟨ascii "::1", by decide⟩) 0 hsingle hsession .null
  obtain rfl : s = sdp.receivedSdp crt := (Prod.mk.inj (some.inj (hread.symm.trans hwritten))).2
  exact ⟨hsame.session_name, hsame.remote_addr, hsame.attributes, hsame.media⟩

end Sdp

end Whispercast.Rtp
