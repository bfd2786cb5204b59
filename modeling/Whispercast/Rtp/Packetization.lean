import Whispercast.Io.NumStreaming

/-!
# H264 packets

`H264Packetizer` of `whisperstreamlib/rtp/rtp_packetization.cc`, with the receiving side of RFC 3984 to compare it
with: packets with one NAL unit, and FU-A fragments of a unit that is too large for one packet. A frame from an FLV
file has seven bytes in front that the packetizer skips, and sizes with two bytes. The real sizes have four bytes: the
upper half of the first one is skipped with the header, and that of the other ones is taken for an empty unit.
-/

namespace Whispercast.Rtp

open Io Library Io.NumStreamer List

/-- `kRtpMtu`. -/
def rtpMtu : Nat := 1386

/-! ## The packetizer -/

namespace H264Packetizer

/-- A FU-A packet: indicator, header and a part of the unit. -/
def fuPacket (naluHdr : UInt8) (first last : Bool) (payload : Bytes) : Bytes :=
  writeByte ((naluHdr &&& 0x60) ||| 28) ++
    (writeByte (((if first then 0x80 else 0) ||| (if last then 0x40 else 0)) ||| (naluHdr &&& 0x1f)) ++ payload)

/-- The loop over the fragments of a unit, with at most `fuel` turns: the packets and the rest of the stream. -/
def splitUnit (naluHdr : UInt8) (naluSize : Nat) : Nat → Nat → Nat → Bytes → List Bytes × Bytes
  | 0, _, _, io => ([], io)
  | fuel + 1, consumed, count, io =>
    if consumed < naluSize then
      let size := min (naluSize - consumed) (rtpMtu - 2)
      let p := fuPacket naluHdr (count = 0) (consumed + size = naluSize) (io.take size)
      let (out, io) := splitUnit naluHdr naluSize fuel (consumed + size) (count + 1) (io.drop size)
      (p :: out, io)
    else ([], io)

/-- The size in front of a unit; a short stream is excluded before. -/
def readSize (naluSizeBytes : Nat) (io : Bytes) : Nat × Bytes := (beValue (io.take naluSizeBytes), io.drop naluSizeBytes)

/-- `SplitNalu`, with at most `fuel` turns of its loop: the result, the packets and the rest of the stream. -/
def splitNalu (naluSizeBytes : Nat) : Nat → Bytes → Bool × List Bytes × Bytes
  | 0, io => (io.isEmpty, [], io)
  | fuel + 1, io =>
    if io.isEmpty then (true, [], io)
    else if io.length < naluSizeBytes then (false, [], io)
    else if naluSizeBytes = 4 ∨ naluSizeBytes = 2 then
      let (naluSize, io) := readSize naluSizeBytes io
      if naluSize = 0 then splitNalu naluSizeBytes fuel io
      else if io.length < naluSize then (false, [], io)
      else
        let (out, io) :=
          if naluSize ≤ rtpMtu then ([io.take naluSize], io.drop naluSize)
          else splitUnit (io.headD 0) naluSize naluSize 1 0 (io.drop 1)
        let (result, more, io) := splitNalu naluSizeBytes fuel io
        (result, out ++ more, io)
    else (false, [], io)

/-- The test for an AVC sequence header on the first six bytes, of which those that are missing are zero. -/
def isSequenceHeader (io : Bytes) : Bool :=
  (io.take 6 ++ List.replicate (6 - io.length) 0) = [0x17, 0, 0, 0, 0, 1]

/-- `Packetize`: the result and the packets; a failed `CHECK` is `none`. -/
def packetize (isFlvFormat : Bool) (io : Bytes) : Option (Bool × List Bytes) :=
  if isFlvFormat ∧ isSequenceHeader io = true then some (true, [])
  else
    let io := if isFlvFormat then io.drop 7 else io
    let (result, out, rest) := splitNalu (if isFlvFormat then 2 else 4) io.length io
    if result ∧ ¬ rest.isEmpty then none else some (result, out)

end H264Packetizer

/-! ## The receiver -/

/-- The NAL units in a sequence of packets; `pending` is the unit whose fragments are being joined. -/
def depacketize : List Bytes → Option Bytes → List Bytes
  | [], _ => []
  | (indicator :: header :: payload) :: packets, pending =>
    if indicator &&& 0x1f = 28 then
      let start := if header &&& 0x80 ≠ 0 then [(indicator &&& 0xe0) ||| (header &&& 0x1f)] else pending.getD []
      if header &&& 0x40 ≠ 0 then (start ++ payload) :: depacketize packets none
      else depacketize packets (some (start ++ payload))
    else (indicator :: header :: payload) :: depacketize packets none
  | packet :: packets, _ => packet :: depacketize packets none

/-! ## Frames -/

/-- A NAL unit: the first bit is zero, and there is a bound on the size. -/
structure NalUnit where
  bytes : Bytes
  forbidden_zero : ∀ b ∈ bytes.head?, b < 0x80
  size_le : bytes.length ≤ 2 ^ 24

/-- The type of a unit. -/
def NalUnit.type (u : NalUnit) : UInt8 := u.bytes.headD 0 &&& 0x1f

/-- The units with their sizes in front. -/
def lengthPrefixed (units : List NalUnit) : Bytes :=
  units.flatMap fun u => beBytes 4 u.bytes.length ++ u.bytes

/-- What stands in front of the units in an FLV file. -/
structure FlvPrefix where
  codec : UInt8
  packetType : UInt8
  compositionTime : UInt8 × UInt8 × UInt8

def FlvPrefix.bytes (p : FlvPrefix) : Bytes :=
  [p.codec, p.packetType, p.compositionTime.1, p.compositionTime.2.1, p.compositionTime.2.2]

/-- A frame of an FLV file with its prefix, or one of an MP4 file without. -/
def frameBytes : Option FlvPrefix → List NalUnit → Bytes
  | some p, units => p.bytes ++ lengthPrefixed units
  | none, units => lengthPrefixed units

namespace H264Packetizer

/-- The packets of one unit. -/
def packetsOf (u : Bytes) : List Bytes :=
  if u = [] then []
  else if u.length ≤ rtpMtu then [u]
  else (splitUnit (u.headD 0) u.length u.length 1 0 (u.drop 1)).1

/-! ## One unit -/

variable (naluHdr : UInt8)

theorem fuPacket_length (first last : Bool) (payload : Bytes) :
    (fuPacket naluHdr first last payload).length = payload.length + 2 := rfl

/-- The fragments are taken from the unit alone, and are small enough. -/
theorem splitUnit_append {naluSize consumed : Nat} (hle : consumed ≤ naluSize) (fuel count : Nat)
    {u : Bytes} (hu : u.length = naluSize - consumed) (hfuel : naluSize - consumed ≤ fuel) (rest : Bytes) :
    splitUnit naluHdr naluSize fuel consumed count (u ++ rest) =
      ((splitUnit naluHdr naluSize fuel consumed count u).1, rest) := by
  induction fuel generalizing consumed count u with
  | zero =>
    have hnil : u = [] := eq_nil_of_length_eq_zero (by omega)
    rw [hnil]
    rfl
  | succ fuel ih =>
    rw [splitUnit, splitUnit]
    split_ifs with hlt
    · have hsize : min (naluSize - consumed) (rtpMtu - 2) ≤ u.length := by
        rw [hu]
        exact Nat.min_le_left _ _
      have hpos : 0 < min (naluSize - consumed) (rtpMtu - 2) := by
        rw [rtpMtu]
        omega
      simp only [take_append_of_le_length hsize, drop_append_of_le_length hsize]
      rw [ih (by omega) (count + 1) (by rw [length_drop]; omega) (by omega)]
    · have hnil : u = [] := eq_nil_of_length_eq_zero (by omega)
      rw [hnil]
      rfl

theorem splitUnit_length_le (naluSize fuel consumed count : Nat) (io : Bytes) :
    ∀ p ∈ (splitUnit naluHdr naluSize fuel consumed count io).1, p.length ≤ rtpMtu := by
  induction fuel generalizing consumed count io with
  | zero => exact fun p hp => (not_mem_nil hp).elim
  | succ fuel ih =>
    rw [splitUnit]
    split_ifs
    · intro p hp
      rcases mem_cons.1 hp with rfl | hp
      · rw [fuPacket_length, length_take, rtpMtu]
        omega
      · exact ih _ _ _ p hp
    · exact fun p hp => (not_mem_nil hp).elim

theorem packetsOf_length_le (u : Bytes) : ∀ p ∈ packetsOf u, p.length ≤ rtpMtu := by
  intro p hp
  rw [packetsOf] at hp
  split_ifs at hp with hnil hle
  · exact (not_mem_nil hp).elim
  · rw [mem_singleton.1 hp]
    exact hle
  · exact splitUnit_length_le _ _ _ _ _ _ p hp

/-- What the receiver sees in the two bytes in front of a fragment. -/
theorem fuPacket_flags {naluHdr : UInt8} (hzero : naluHdr < 0x80) (first last : Bool) (payload : Bytes) :
    ∃ indicator header, fuPacket naluHdr first last payload = indicator :: header :: payload ∧
      indicator &&& 0x1f = 28 ∧ (header &&& 0x80 ≠ 0 ↔ first = true) ∧ (header &&& 0x40 ≠ 0 ↔ last = true) ∧
      (indicator &&& 0xe0) ||| (header &&& 0x1f) = naluHdr := by
  refine ⟨_, _, rfl, ?_⟩
  have hall : ∀ n : Fin 128, ∀ first last : Bool,
      let h := UInt8.ofNat n
      let header := ((if first then 0x80 else 0) ||| (if last then 0x40 else 0)) ||| (h &&& 0x1f)
      ((h &&& 0x60) ||| 28) &&& 0x1f = 28 ∧ (header &&& 0x80 ≠ 0 ↔ first = true) ∧
        (header &&& 0x40 ≠ 0 ↔ last = true) ∧
        (((h &&& 0x60) ||| 28) &&& 0xe0) ||| (header &&& 0x1f) = h := by
    decide +kernel
  have h := hall ⟨naluHdr.toNat, hzero⟩ first last
  rwa [UInt8.ofNat_toNat] at h

/-- No fragments are left when the whole unit has been consumed. -/
theorem splitUnit_done (naluSize fuel count : Nat) (io : Bytes) :
    splitUnit naluHdr naluSize fuel naluSize count io = ([], io) := by
  cases fuel with
  | zero => rfl
  | succ fuel => rw [splitUnit, if_neg (Nat.lt_irrefl _)]

/-- The receiver joins the fragments of a unit behind what it has of the unit. -/
theorem depacketize_splitUnit {naluHdr : UInt8} (hzero : naluHdr < 0x80) {naluSize consumed : Nat}
    (hlt : consumed < naluSize) {fuel : Nat} (hfuel : naluSize - consumed ≤ fuel) (count : Nat) {u : Bytes}
    (hu : u.length = naluSize - consumed) (pending : Option Bytes) (packets : List Bytes) :
    depacketize ((splitUnit naluHdr naluSize fuel consumed count u).1 ++ packets) pending =
      ((if count = 0 then [naluHdr] else pending.getD []) ++ u) :: depacketize packets none := by
  induction fuel generalizing consumed count u pending with
  | zero => omega
  | succ fuel ih =>
    have hsize : 0 < min (naluSize - consumed) (rtpMtu - 2) := by
      rw [rtpMtu]
      omega
    have hmin := Nat.min_le_left (naluSize - consumed) (rtpMtu - 2)
    rw [splitUnit, if_pos hlt]
    generalize min (naluSize - consumed) (rtpMtu - 2) = size at hsize hmin ⊢
    obtain ⟨_, header, hpacket, htype, hfirst, hlast, hhdr⟩ :=
      fuPacket_flags hzero (decide (count = 0)) (decide (consumed + size = naluSize)) (u.take size)
    simp only [cons_append, hpacket, depacketize, if_pos htype, hhdr]
    have hstart : (if header &&& 0x80 ≠ 0 then [naluHdr] else pending.getD []) =
        if count = 0 then [naluHdr] else pending.getD [] := by
      simp only [hfirst, decide_eq_true_eq]
    rw [hstart]
    by_cases hend : consumed + size = naluSize
    · -- The last fragment completes the unit.
      have hall : u.length ≤ size := by omega
      rw [if_pos (hlast.2 (decide_eq_true hend)), hend, splitUnit_done, take_of_length_le hall]
      rfl
    · have hmore : ¬ (header &&& 0x40 ≠ 0) := fun h => hend (of_decide_eq_true (hlast.1 h))
      have hrest : (u.drop size).length = naluSize - (consumed + size) := by
        rw [length_drop]
        omega
      rw [if_neg hmore, ih (by omega) (by omega) (count + 1) hrest, if_neg (Nat.succ_ne_zero count),
        Option.getD_some, append_assoc, take_append_drop]

/-- The packets of a unit are the unit for the receiver, unless a packet with the unit alone looks like a fragment. -/
theorem depacketize_packetsOf {u : NalUnit} (htype : u.bytes.length ≤ rtpMtu → u.type ≠ 28) (packets : List Bytes) :
    depacketize (packetsOf u.bytes ++ packets) none =
      (if u.bytes = [] then [] else [u.bytes]) ++ depacketize packets none := by
  obtain ⟨bytes, hzero, _⟩ := u
  have hfragment : bytes.length ≤ rtpMtu → ¬ bytes.headD 0 &&& 0x1f = 28 := htype
  rw [packetsOf]
  split_ifs with hnil hle
  · rfl
  · -- One packet with the unit as it is.
    cases bytes with
    | nil => exact absurd rfl hnil
    | cons b tail =>
      cases tail with
      | nil => rfl
      | cons c tail =>
        have hb : ¬ b &&& 0x1f = 28 := hfragment hle
        simp only [cons_append, nil_append, depacketize, if_neg hb]
  · obtain ⟨b, tail, rfl⟩ := exists_cons_of_ne_nil hnil
    have hlong : 1 < (b :: tail).length := Nat.lt_trans (by decide) (Nat.not_le.1 hle)
    exact depacketize_splitUnit (hzero b rfl) hlong (Nat.sub_le _ _) 0 (by rw [length_cons]; rfl) none packets

/-! ## A sequence of units -/

theorem splitNalu_nil (naluSizeBytes fuel : Nat) : splitNalu naluSizeBytes fuel [] = (true, [], []) := by
  cases fuel <;> rfl

theorem beBytes_ne_nil {n : Nat} (hn : 0 < n) (v : Nat) : beBytes n v ≠ [] := by
  intro h
  have hlen := beBytes_length n v
  rw [h] at hlen
  exact absurd hlen (Nat.ne_of_lt hn)

theorem readSize_append {n v : Nat} (hv : v < 256 ^ n) (rest : Bytes) :
    readSize n (beBytes n v ++ rest) = (v, rest) := by
  rw [readSize, take_left' (beBytes_length n v), drop_left' (beBytes_length n v), beValue_beBytes_of_lt hv]

/-- One turn of the loop: the size and the unit are taken, and the packets of the unit are put out. -/
theorem splitNalu_unit {naluSizeBytes : Nat} (hbytes : naluSizeBytes = 4 ∨ naluSizeBytes = 2) {u : Bytes}
    (hu : u.length < 256 ^ naluSizeBytes) (fuel : Nat) (rest : Bytes) :
    splitNalu naluSizeBytes (fuel + 1) (beBytes naluSizeBytes u.length ++ (u ++ rest)) =
      ((splitNalu naluSizeBytes fuel rest).1, packetsOf u ++ (splitNalu naluSizeBytes fuel rest).2.1,
        (splitNalu naluSizeBytes fuel rest).2.2) := by
  have hpos : 0 < naluSizeBytes := by
    rcases hbytes with rfl | rfl <;> decide
  have hempty : (beBytes naluSizeBytes u.length ++ (u ++ rest)).isEmpty ≠ true := by
    rw [ne_eq, List.isEmpty_iff, List.append_eq_nil_iff]
    exact fun h => beBytes_ne_nil hpos _ h.1
  have hshort : ¬ (beBytes naluSizeBytes u.length ++ (u ++ rest)).length < naluSizeBytes := by
    rw [length_append, beBytes_length]
    omega
  rw [splitNalu, if_neg hempty, if_neg hshort, if_pos hbytes, readSize_append hu]
  dsimp only
  by_cases hnil : u = []
  · subst hnil
    rfl
  · have hne : u.length ≠ 0 := fun h => hnil (eq_nil_of_length_eq_zero h)
    have hfits : ¬ (u ++ rest).length < u.length := by
      rw [length_append]
      omega
    rw [if_neg hne, if_neg hfits, packetsOf, if_neg hnil]
    split_ifs with hle
    · rw [List.take_left, List.drop_left]
    · obtain ⟨b, tail, rfl⟩ := exists_cons_of_ne_nil hnil
      have hone : 1 ≤ (b :: tail).length := Nat.succ_le_succ (Nat.zero_le _)
      have hsplit := splitUnit_append b hone (b :: tail).length 0 (u := tail) (by rw [length_cons]; omega) (Nat.sub_le _ _) rest
      simp only [cons_append, List.headD_cons, List.drop_succ_cons, List.drop_zero, hsplit]

theorem lengthPrefixed_cons (u : NalUnit) (units : List NalUnit) :
    lengthPrefixed (u :: units) = beBytes 4 u.bytes.length ++ (u.bytes ++ lengthPrefixed units) := by
  rw [lengthPrefixed, flatMap_cons, append_assoc]
  rfl

theorem lengthPrefixed_length (u : NalUnit) (units : List NalUnit) :
    (lengthPrefixed (u :: units)).length = 4 + (u.bytes.length + (lengthPrefixed units).length) := by
  rw [lengthPrefixed_cons, length_append, length_append, beBytes_length]

/-- Units with sizes of four bytes. -/
theorem splitNalu_units (units : List NalUnit) {fuel : Nat} (hfuel : (lengthPrefixed units).length ≤ fuel) :
    splitNalu 4 fuel (lengthPrefixed units) = (true, units.flatMap fun u => packetsOf u.bytes, []) := by
  induction units generalizing fuel with
  | nil => exact splitNalu_nil 4 fuel
  | cons u units ih =>
    rw [lengthPrefixed_length] at hfuel
    obtain ⟨fuel, rfl⟩ : ∃ n, fuel = n + 1 := ⟨fuel - 1, by omega⟩
    have hu : u.bytes.length < 256 ^ 4 := Nat.lt_of_le_of_lt u.size_le (by decide)
    rw [lengthPrefixed_cons, splitNalu_unit (Or.inl rfl) hu, ih (by omega)]
    rfl

/-- The upper half of a size is the size of an empty unit. -/
theorem beBytes_four {v : Nat} (hv : v < 2 ^ 16) : beBytes 4 v = beBytes 2 0 ++ beBytes 2 v := by
  have hhigh : v / 256 / 256 = 0 := by omega
  simp only [beBytes, leBytes, hhigh, reverse_cons, reverse_nil, nil_append, cons_append]

/-- The same units with sizes of two bytes: there is an empty unit in front of each. -/
theorem splitNalu_halves {units : List NalUnit} (hunits : ∀ u ∈ units, u.bytes.length < 2 ^ 16) {fuel : Nat}
    (hfuel : (lengthPrefixed units).length ≤ fuel) :
    splitNalu 2 fuel (lengthPrefixed units) = (true, units.flatMap fun u => packetsOf u.bytes, []) := by
  induction units generalizing fuel with
  | nil => exact splitNalu_nil 2 fuel
  | cons u units ih =>
    rw [lengthPrefixed_length] at hfuel
    obtain ⟨fuel, rfl⟩ : ∃ n, fuel = n + 1 + 1 := ⟨fuel - 2, by omega⟩
    have hu := hunits u mem_cons_self
    have hempty := splitNalu_unit (u := []) (Or.inr rfl) (by decide) (fuel + 1)
      (beBytes 2 u.bytes.length ++ (u.bytes ++ lengthPrefixed units))
    rw [length_nil, nil_append] at hempty
    rw [lengthPrefixed_cons, beBytes_four hu, append_assoc, hempty, splitNalu_unit (Or.inr rfl) hu,
      ih (fun v hv => hunits v (mem_cons_of_mem _ hv)) (by omega)]
    rfl

variable (pre : FlvPrefix)

/-- The frame of an FLV file behind the seven bytes, which are the prefix and the upper half of the first size. -/
theorem splitNalu_flv {units : List NalUnit} (hunits : ∀ u ∈ units, u.bytes.length < 2 ^ 16)
    {fuel : Nat} (hfuel : ((frameBytes (some pre) units).drop 7).length ≤ fuel) :
    splitNalu 2 fuel ((frameBytes (some pre) units).drop 7) =
      (true, units.flatMap fun u => packetsOf u.bytes, []) := by
  cases units with
  | nil => exact splitNalu_nil 2 fuel
  | cons u units =>
    have hu := hunits u mem_cons_self
    have hdrop : (frameBytes (some pre) (u :: units)).drop 7 =
        beBytes 2 u.bytes.length ++ (u.bytes ++ lengthPrefixed units) := by
      rw [frameBytes, lengthPrefixed_cons, beBytes_four hu]
      rfl
    rw [hdrop, length_append, length_append, beBytes_length] at hfuel
    obtain ⟨fuel, rfl⟩ : ∃ n, fuel = n + 1 := ⟨fuel - 1, by omega⟩
    rw [hdrop, splitNalu_unit (Or.inr rfl) hu,
      splitNalu_halves (fun v hv => hunits v (mem_cons_of_mem _ hv)) (by omega)]
    rfl

theorem isSequenceHeader_of_codec {p : FlvPrefix} (hcodec : p.codec ≠ 0x17) (units : List NalUnit) :
    isSequenceHeader (frameBytes (some p) units) = false := by
  apply decide_eq_false
  intro h
  exact hcodec (head_eq_of_cons_eq h)

/-- With sizes below `2 ^ 16` no frame of an FLV file looks like a sequence header. -/
theorem isSequenceHeader_eq_false {units : List NalUnit}
    (hunits : ∀ u ∈ units, u.bytes.length < 2 ^ 16) : isSequenceHeader (frameBytes (some pre) units) = false := by
  apply decide_eq_false
  intro h
  have hlast := congrArg getLast? h
  cases units with
  | nil => cases hlast
  | cons u units =>
    rw [frameBytes, lengthPrefixed_cons, beBytes_four (hunits u mem_cons_self)] at hlast
    have hfull : 6 - (pre.bytes ++ (beBytes 2 0 ++ beBytes 2 u.bytes.length ++
        (u.bytes ++ lengthPrefixed units))).length = 0 := by
      simp only [length_append, beBytes_length, FlvPrefix.bytes, length_cons]
      omega
    rw [hfull, replicate_zero, append_nil] at hlast
    cases hlast

/-! ## The packets are the units -/

theorem depacketize_units {units : List NalUnit} (htype : ∀ u ∈ units, u.bytes.length ≤ rtpMtu → u.type ≠ 28) :
    depacketize (units.flatMap fun u => packetsOf u.bytes) none = (units.map NalUnit.bytes).filter (· ≠ []) := by
  induction units with
  | nil => rfl
  | cons u units ih =>
    rw [flatMap_cons, depacketize_packetsOf (htype u mem_cons_self),
      ih fun v hv => htype v (mem_cons_of_mem _ hv), map_cons, filter_cons]
    split_ifs with hnil hne hne
    · exact absurd hnil (of_decide_eq_true hne)
    · rfl
    · rfl
    · exact absurd (decide_eq_true hnil) hne

theorem packetize_mp4 (units : List NalUnit) :
    packetize false (frameBytes none units) = some (true, units.flatMap fun u => packetsOf u.bytes) := by
  have hsplit := splitNalu_units units (Nat.le_refl _)
  simp only [packetize, frameBytes, Bool.false_eq_true, false_and, if_false, hsplit]
  rfl

theorem packetize_of_split {io : Bytes} {out : List Bytes} (hheader : isSequenceHeader io = false)
    (hsplit : splitNalu 2 (io.drop 7).length (io.drop 7) = (true, out, [])) :
    packetize true io = some (true, out) := by
  simp only [packetize, hheader, Bool.false_eq_true, and_false, if_false, if_true, hsplit]
  rfl

theorem packetize_flv {units : List NalUnit} (hunits : ∀ u ∈ units, u.bytes.length < 2 ^ 16) :
    packetize true (frameBytes (some pre) units) = some (true, units.flatMap fun u => packetsOf u.bytes) :=
  packetize_of_split (isSequenceHeader_eq_false pre hunits) (splitNalu_flv pre hunits (Nat.le_refl _))

/-- A frame is given back as its units by the receiver: in an MP4 file whatever the sizes of the units are, in an FLV
file if they have two bytes; a unit that is sent alone must not have the type of a fragment. -/
theorem packetize_reversible (pre : Option FlvPrefix) (units : List NalUnit)
    (htype : ∀ u ∈ units, u.bytes.length ≤ rtpMtu → u.type ≠ 28)
    (hflv : pre.isSome = true → ∀ u ∈ units, u.bytes.length < 2 ^ 16) :
    ∃ packets, packetize pre.isSome (frameBytes pre units) = some (true, packets) ∧
      depacketize packets none = (units.map NalUnit.bytes).filter (· ≠ []) ∧ ∀ p ∈ packets, p.length ≤ rtpMtu := by
  refine ⟨units.flatMap fun u => packetsOf u.bytes, ?_, depacketize_units htype, ?_⟩
  · cases pre with
    | none => exact packetize_mp4 units
    | some pre => exact packetize_flv pre (hflv rfl)
  · intro p hp
    obtain ⟨u, -, hp⟩ := mem_flatMap.1 hp
    exact packetsOf_length_le u.bytes p hp

/-- A unit with the same byte everywhere. -/
def filled (b : UInt8) (hb : b < 0x80) (n : Nat) (hn : n < 2 ^ 24) : NalUnit where
  bytes := b :: List.replicate n b
  forbidden_zero := by
    intro c hc
    rw [List.head?_cons, Option.mem_some_iff] at hc
    exact hc ▸ hb
  size_le := by
    rw [List.length_cons, List.length_replicate]
    exact hn

/-- A unit that needs two packets and a small one, in an FLV file. -/
theorem packetize_reversible_flv :
    ∃ packets, packetize true (frameBytes (some ⟨0x27, 1, 0, 0, 0⟩)
        [filled 0x65 (by decide) 2000 (by decide), filled 0x41 (by decide) 2 (by decide)]) = some (true, packets) ∧
      depacketize packets none = [0x65 :: List.replicate 2000 0x65, [0x41, 0x41, 0x41]] ∧
      ∀ p ∈ packets, p.length ≤ rtpMtu := by
  refine packetize_reversible (some ⟨0x27, 1, 0, 0, 0⟩)
    [filled 0x65 (by decide) 2000 (by decide), filled 0x41 (by decide) 2 (by decide)] ?_ ?_
  · intro u hu
    rcases mem_pair.1 hu with rfl | rfl
    · exact fun _ => (by decide : (0x65 &&& 0x1f : UInt8) ≠ 28)
    · exact fun _ => (by decide : (0x41 &&& 0x1f : UInt8) ≠ 28)
  · have hlen : ∀ b hb n hn, (filled b hb n hn).bytes.length = n + 1 := by
      intro b hb n hn
      rw [filled, length_cons, length_replicate]
    intro _ u hu
    rcases mem_pair.1 hu with rfl | rfl
    · rw [hlen]
      decide
    · rw [hlen]
      decide

/-! ## Frames that do not come back -/

/-- Two zeros are the size of an empty unit. -/
theorem splitNalu_zeros (n : Nat) {fuel : Nat} (hfuel : n ≤ fuel) :
    splitNalu 2 fuel (List.replicate (2 * n) 0) = (true, [], []) := by
  induction n generalizing fuel with
  | zero => exact splitNalu_nil 2 fuel
  | succ n ih =>
    obtain ⟨fuel, rfl⟩ : ∃ m, fuel = m + 1 := ⟨fuel - 1, by omega⟩
    have hunit := splitNalu_unit (u := []) (Or.inr rfl) (by decide) fuel (replicate (2 * n) 0)
    rw [ih (by omega)] at hunit
    exact hunit

/-- The unit of a reserved type, which the receiver takes for a fragment. -/
def fragmentLike : NalUnit where
  bytes := [0x1c, 0x40]
  forbidden_zero := by
    intro c hc
    rw [List.head?_cons, Option.mem_some_iff] at hc
    exact hc ▸ show (0x1c : UInt8) < 0x80 by decide
  size_le := by decide

/-- A unit whose size has zeros in its lower half, and which is zeros itself. -/
def largeUnit : NalUnit := filled 0 (by decide) (2 ^ 16 - 1) (by decide)

theorem filled_bytes (b : UInt8) (hb : b < 0x80) (n : Nat) (hn : n < 2 ^ 24) :
    (filled b hb n hn).bytes = List.replicate (n + 1) b := replicate_succ.symm

theorem largeUnit_bytes : largeUnit.bytes = List.replicate (2 ^ 16) 0 := by
  have hsucc : 2 ^ 16 - 1 + 1 = 2 ^ 16 := by decide
  rw [largeUnit, filled_bytes, hsucc]

/-- The frame behind the seven bytes is the lower half of the size and the unit. -/
theorem largeUnit_frame : (frameBytes (some pre) [largeUnit]).drop 7 = List.replicate (2 * (2 ^ 15 + 1)) 0 := by
  have hsize : largeUnit.bytes.length = 2 ^ 16 := by
    rw [largeUnit_bytes]
    exact length_replicate
  have hhalves : beBytes 4 (2 ^ 16) = [0, 1, 0, 0] := by decide
  have hcount : 2 + 2 ^ 16 = 2 * (2 ^ 15 + 1) := by decide
  have hdrop : ∀ x : Bytes, (pre.bytes ++ ([0, 1, 0, 0] ++ (x ++ lengthPrefixed []))).drop 7 =
      replicate 2 0 ++ (x ++ []) := fun _ => rfl
  rw [frameBytes, lengthPrefixed_cons, hsize, hhalves, hdrop, append_nil, largeUnit_bytes,
    replicate_append_replicate, hcount]

/-- Not every frame is given back. -/
theorem packetize_not_reversible :
    (¬ ∃ packets, packetize false (frameBytes none [fragmentLike]) = some (true, packets) ∧
        depacketize packets none = [fragmentLike.bytes]) ∧
      ¬ ∃ packets, packetize true (frameBytes (some ⟨0x27, 1, 0, 0, 0⟩) [largeUnit]) = some (true, packets) ∧
        depacketize packets none = [largeUnit.bytes] := by
  constructor
  · rintro ⟨packets, hpackets, hunits⟩
    rw [packetize_mp4, Option.some.injEq, Prod.mk.injEq] at hpackets
    rw [← hpackets.2] at hunits
    exact absurd hunits (by decide)
  · rintro ⟨packets, hpackets, hunits⟩
    have hheader := isSequenceHeader_of_codec (p := ⟨0x27, 1, 0, 0, 0⟩) (by decide) [largeUnit]
    have hfuel : 2 ^ 15 + 1 ≤ (replicate (2 * (2 ^ 15 + 1)) (0 : UInt8)).length := by
      rw [length_replicate]
      omega
    have hsplit := splitNalu_zeros (2 ^ 15 + 1) hfuel
    rw [← largeUnit_frame ⟨0x27, 1, 0, 0, 0⟩] at hsplit
    have heq := packetize_of_split hheader hsplit
    rw [heq, Option.some.injEq, Prod.mk.injEq] at hpackets
    rw [← hpackets.2] at hunits
    exact cons_ne_nil _ _ hunits.symm

end H264Packetizer

end Whispercast.Rtp
