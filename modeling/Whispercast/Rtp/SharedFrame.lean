import Whispercast.Library.MarkedQueue
import Whispercast.Rtp.Packetization

/-!
# The frame that is packetised

`Packetize` of all packetizers of `whisperstreamlib/rtp/rtp_packetization.cc`, with what it does to its input: the
`const` is cast away, and the same frame goes to every client. The streams are the queues with marks that the module
`Io.Sharing` shows memory streams to be, and a packet is its bytes. `none` is a failed `CHECK`, or a loop that needs
more than `fuel` turns.
-/

namespace Whispercast.Rtp

open Io Library Io.NumStreamer List Option MarkedQueue

/-- An input stream. -/
abbrev Stream := MarkedQueue UInt8

/-- `ReadByte`, with its `CHECK`. -/
def readByte (io : Stream) : Option (UInt8 × Stream) := io.readable.head?.map fun b => (b, io.pop 1)

/-- The loop that takes at most `payload` bytes a packet, with a header for the first packet or another one of a
size. -/
def splitLoop (payload : Nat) (header : Bool → Nat → Bytes) : Nat → Bool → Stream → Option (List Bytes × Stream)
  | 0, _, io => if io.size = 0 then some ([], io) else none
  | fuel + 1, first, io =>
    if io.size = 0 then some ([], io)
    else do
      let size := min io.size payload
      let p := header first size ++ io.readable.take size
      let (out, io) ← splitLoop payload header fuel false (io.pop size)
      some (p :: out, io)

/-- The body of the packetizers that set the mark first: `skipped` bytes are the prefix of an FLV container. -/
def packetizeMarked (skipped payload : Nat) (header : Bool → Nat → Bytes) (fuel : Nat) (io : Stream) :
    Option (Bool × List Bytes × Stream) := do
  let io := io.markSet
  let io := io.pop skipped
  let (out, io) ← splitLoop payload header fuel true io
  some (true, out, io.markRestore)

namespace H263Packetizer

/-- The header of a packet: only the P bit is ever set. -/
def header (first : Bool) (_ : Nat) : Bytes := writeUInt16 (UInt16.ofNat ((if first then 1 else 0) <<< 10)) .bigEndian

/-- `H263Packetizer::Packetize`: the three bytes in front are read before the mark is set. -/
def packetize (fuel : Nat) (io : Stream) : Option (Bool × List Bytes × Stream) :=
  if io.size < 2 then some (false, [], io)
  else do
    let io := io.pop 1
    let (b0, io) ← readByte io
    let (b1, io) ← readByte io
    if b0 ≠ 0 ∨ b1 ≠ 0 then some (false, [], io)
    else
      let io := io.markSet
      let (out, io) ← splitLoop (rtpMtu - 2) header fuel true io
      some (true, out, io.markRestore)

end H263Packetizer

namespace H264Packetizer

/-- `H264Packetizer::Packetize` on a stream; the peek leaves it as it is. -/
def packetizeStream (isFlvFormat : Bool) (fuel : Nat) (io : Stream) : Option (Bool × List Bytes × Stream) :=
  let io := io.markSet
  if isFlvFormat ∧ isSequenceHeader io.readable = true then some (true, [], io.markRestore)
  else
    let io := if isFlvFormat then io.pop 7 else io
    let (result, out, rest) := splitNalu (if isFlvFormat then 2 else 4) fuel io.readable
    let io := io.pop (io.size - rest.length)
    if result ∧ ¬ io.readable.isEmpty then none else some (result, out, io.markRestore)

end H264Packetizer

namespace Mp4aPacketizer

/-- One AU header: its length in bits, and the size of the unit with an index. -/
def header (_ : Bool) (size : Nat) : Bytes :=
  writeUInt16 0x0010 .bigEndian ++ writeUInt16 (UInt16.ofNat size <<< 3) .bigEndian

def packetize (isFlvFormat : Bool) : Nat → Stream → Option (Bool × List Bytes × Stream) :=
  packetizeMarked (if isFlvFormat then 2 else 0) (rtpMtu - 4) header

end Mp4aPacketizer

namespace Mp3Packetizer

def packetize (isFlvFormat : Bool) : Nat → Stream → Option (Bool × List Bytes × Stream) :=
  packetizeMarked (if isFlvFormat then 1 else 0) (rtpMtu - 4) fun _ _ => [0, 0, 0, 0]

end Mp3Packetizer

namespace SplitPacketizer

def packetize : Nat → Stream → Option (Bool × List Bytes × Stream) := packetizeMarked 0 rtpMtu fun _ _ => []

end SplitPacketizer

/-- The packetizers, with `is_flv_format_`. -/
inductive Packetizer where
  | h263
  | h264 (isFlvFormat : Bool)
  | mp4a (isFlvFormat : Bool)
  | mp3 (isFlvFormat : Bool)
  | split
  deriving DecidableEq

namespace Packetizer

/-- `Packetize`: the result, the packets, and what is left of the input. -/
def packetize : Packetizer → Nat → Stream → Option (Bool × List Bytes × Stream)
  | h263 => H263Packetizer.packetize
  | h264 isFlvFormat => H264Packetizer.packetizeStream isFlvFormat
  | mp4a isFlvFormat => Mp4aPacketizer.packetize isFlvFormat
  | mp3 isFlvFormat => Mp3Packetizer.packetize isFlvFormat
  | split => SplitPacketizer.packetize

/-- The size of the container's prefix and of a packet's header, where the packets are the frame cut into pieces. -/
def layout : Packetizer → Option (Nat × Nat)
  | h263 => some (3, 2)
  | h264 _ => none
  | mp4a isFlvFormat => some (if isFlvFormat then 2 else 0, 4)
  | mp3 isFlvFormat => some (if isFlvFormat then 1 else 0, 4)
  | split => some (0, 0)

/-- The packets are small enough, and without their headers they are the frame without its prefix. -/
structure Packets (p : Packetizer) (frame : Bytes) (result : Bool) (out : List Bytes) : Prop where
  small : ∀ packet ∈ out, packet.length ≤ rtpMtu
  whole : ∀ prefixSize headerSize, p.layout = some (prefixSize, headerSize) → result = true →
    out.flatMap (List.drop headerSize) = frame.drop prefixSize

/-- However many turns the loops may take, from some number on `Packetize` returns, with good packets, and what can be
read of the input is what could be read before. -/
def Untouched (p : Packetizer) (io : Stream) : Prop :=
  ∃ result out io', (∀ fuel, io.size ≤ fuel → p.packetize fuel io = some (result, out, io')) ∧
    p.Packets io.readable result out ∧ io'.readable = io.readable

end Packetizer

/-! ## The loop over the pieces -/

/-- The loop empties the stream into packets, and leaves the marks. -/
theorem splitLoop_spec {payload headerSize : Nat} (hpos : 0 < payload) {header : Bool → Nat → Bytes}
    (hheader : ∀ first size, (header first size).length = headerSize) (first : Bool) (io : Stream) :
    ∃ out io', (∀ fuel, io.size ≤ fuel → splitLoop payload header fuel first io = some (out, io')) ∧
      (∀ packet ∈ out, packet.length ≤ headerSize + payload) ∧ out.flatMap (List.drop headerSize) = io.readable ∧
      io'.data = io.data ∧ io'.marks = io.marks := by
  -- every turn takes something
  induction hn : io.size using Nat.strong_induction_on generalizing io first with
  | _ n ih =>
    by_cases hzero : io.size = 0
    · have hnil : io.readable = [] := eq_nil_of_length_eq_zero (by rw [length_readable, hzero])
      refine ⟨[], io, fun fuel _ => ?_, by simp, by simp [hnil], rfl, rfl⟩
      cases fuel <;> exact if_pos hzero
    · have hless : (io.pop (min io.size payload)).size < n := by
        rw [← length_readable, pop_readable, length_drop, length_readable]
        omega
      obtain ⟨out, io', hloop, hsmall, hwhole, hdata, hmarks⟩ := ih _ hless false (io.pop (min io.size payload)) rfl
      refine ⟨(header first (min io.size payload) ++ io.readable.take (min io.size payload)) :: out, io', ?_, ?_, ?_,
        hdata, hmarks⟩
      · intro fuel hfuel
        obtain ⟨fuel, rfl⟩ : ∃ m, fuel = m + 1 := ⟨fuel - 1, by omega⟩
        have hrest := hloop fuel (by omega)
        simp only [splitLoop, if_neg hzero, hrest, bind_eq_bind, bind_some]
      · intro packet hpacket
        rcases mem_cons.1 hpacket with rfl | hpacket
        · rw [length_append, hheader, length_take]
          omega
        · exact hsmall packet hpacket
      · rw [flatMap_cons, drop_left' (hheader _ _), hwhole, pop_readable,
          take_append_drop]

/-- Who sets the mark first puts the stream back. -/
theorem packetizeMarked_spec (skipped : Nat) {payload headerSize : Nat} (hpos : 0 < payload)
    {header : Bool → Nat → Bytes} (hheader : ∀ first size, (header first size).length = headerSize) (io : Stream) :
    ∃ out, (∀ fuel, io.size ≤ fuel →
        packetizeMarked skipped payload header fuel io = some (true, out, io)) ∧
      (∀ packet ∈ out, packet.length ≤ headerSize + payload) ∧
      out.flatMap (List.drop headerSize) = io.readable.drop skipped := by
  obtain ⟨out, io', hloop, hsmall, hwhole, hdata, hmarks⟩ :=
    splitLoop_spec hpos hheader true (io.markSet.pop skipped)
  rw [pop_readable, markSet_readable] at hwhole
  refine ⟨out, fun fuel hfuel => ?_, hsmall, hwhole⟩
  have hless : (io.markSet.pop skipped).size ≤ fuel := by
    rw [← length_readable, pop_readable, length_drop, markSet_readable,
      length_readable]
    omega
  have hrestore : io'.markRestore = io := markRestore_eq hdata hmarks
  simp only [packetizeMarked, hloop fuel hless, bind_eq_bind, bind_some, hrestore]

namespace H264Packetizer

theorem splitUnit_rest_le (naluHdr : UInt8) (naluSize fuel consumed count : Nat) (io : Bytes) :
    (splitUnit naluHdr naluSize fuel consumed count io).2.length ≤ io.length := by
  induction fuel generalizing consumed count io with
  | zero => exact le_rfl
  | succ fuel ih =>
    rw [splitUnit]
    split_ifs
    · refine (ih _ _ _).trans ?_
      rw [length_drop]
      exact Nat.sub_le _ _
    · exact le_rfl

/-- `SplitNalu` ends, with small packets, and with nothing left when it returns true. -/
theorem splitNalu_spec {naluSizeBytes : Nat} (hbytes : naluSizeBytes = 4 ∨ naluSizeBytes = 2) (io : Bytes) :
    ∃ result out rest, (∀ fuel, io.length ≤ fuel → splitNalu naluSizeBytes fuel io = (result, out, rest)) ∧
      (∀ packet ∈ out, packet.length ≤ rtpMtu) ∧ (result = true → rest = []) := by
  induction hn : io.length using Nat.strong_induction_on generalizing io with
  | _ n ih =>
    by_cases hnil : io = []
    · subst hnil
      exact ⟨true, [], [], fun fuel _ => splitNalu_nil naluSizeBytes fuel, by simp, fun _ => rfl⟩
    have hempty : io.isEmpty = false := by simpa using hnil
    have hlen : 0 < io.length := length_pos_of_ne_nil hnil
    -- a turn of the loop for any number of turns that is enough
    have hturn {r : Bool × List Bytes × Bytes} (h : ∀ fuel, n ≤ fuel + 1 → splitNalu naluSizeBytes (fuel + 1) io = r)
        (fuel : Nat) (hfuel : n ≤ fuel) : splitNalu naluSizeBytes fuel io = r := by
      obtain ⟨fuel, rfl⟩ : ∃ m, fuel = m + 1 := ⟨fuel - 1, by omega⟩
      exact h fuel hfuel
    by_cases hshort : io.length < naluSizeBytes
    · refine ⟨false, [], io, hturn fun fuel _ => ?_, by simp, by simp⟩
      rw [splitNalu, hempty, if_neg Bool.false_ne_true, if_pos hshort]
    have hread : (readSize naluSizeBytes io).2.length < n := by
      rw [readSize, length_drop]
      rcases hbytes with rfl | rfl <;> omega
    by_cases hzero : (readSize naluSizeBytes io).1 = 0
    · obtain ⟨result, out, rest, hloop, hsmall, hend⟩ := ih _ hread _ rfl
      refine ⟨result, out, rest, hturn fun fuel hfuel => ?_, hsmall, hend⟩
      rw [splitNalu, hempty, if_neg Bool.false_ne_true, if_neg hshort, if_pos hbytes]
      dsimp only
      rw [if_pos hzero, hloop fuel (by omega)]
    by_cases hbig : (readSize naluSizeBytes io).2.length < (readSize naluSizeBytes io).1
    · refine ⟨false, [], (readSize naluSizeBytes io).2, hturn fun fuel _ => ?_, by simp, by simp⟩
      rw [splitNalu, hempty, if_neg Bool.false_ne_true, if_neg hshort, if_pos hbytes]
      dsimp only
      rw [if_neg hzero, if_pos hbig]
    -- the unit becomes one packet or fragments, and the loop goes on behind it
    obtain ⟨unit, hunit⟩ : ∃ unit : List Bytes × Bytes, unit =
        if (readSize naluSizeBytes io).1 ≤ rtpMtu then
          ([(readSize naluSizeBytes io).2.take (readSize naluSizeBytes io).1],
            (readSize naluSizeBytes io).2.drop (readSize naluSizeBytes io).1)
        else splitUnit ((readSize naluSizeBytes io).2.headD 0) (readSize naluSizeBytes io).1
          (readSize naluSizeBytes io).1 1 0 ((readSize naluSizeBytes io).2.drop 1) := ⟨_, rfl⟩
    have hrest : unit.2.length < n ∧ ∀ packet ∈ unit.1, packet.length ≤ rtpMtu := by
      rw [hunit]
      split_ifs with hle
      · refine ⟨?_, ?_⟩
        · rw [length_drop]
          omega
        · intro packet hpacket
          rw [mem_singleton.1 hpacket, length_take]
          omega
      · refine ⟨(splitUnit_rest_le _ _ _ _ _ _).trans_lt ?_, splitUnit_length_le _ _ _ _ _ _⟩
        rw [length_drop]
        omega
    obtain ⟨result, out, rest, hloop, hsmall, hend⟩ := ih _ hrest.1 unit.2 rfl
    refine ⟨result, unit.1 ++ out, rest, hturn fun fuel hfuel => ?_, ?_, hend⟩
    · have hmore := hloop fuel (by omega)
      rw [splitNalu, hempty, if_neg Bool.false_ne_true, if_neg hshort, if_pos hbytes]
      dsimp only
      rw [if_neg hzero, if_neg hbig, ← hunit]
      simp only [hmore]
    · intro packet hpacket
      rcases mem_append.1 hpacket with hfirst | hlater
      · exact hrest.2 packet hfirst
      · exact hsmall packet hlater

/-- `Packetize` ends, passes its `CHECK` and puts the stream back. -/
theorem packetizeStream_spec (isFlvFormat : Bool) (io : Stream) :
    ∃ result out, (∀ fuel, io.size ≤ fuel → packetizeStream isFlvFormat fuel io = some (result, out, io)) ∧
      ∀ packet ∈ out, packet.length ≤ rtpMtu := by
  by_cases hheader : isFlvFormat = true ∧ isSequenceHeader io.markSet.readable = true
  · refine ⟨true, [], fun fuel _ => ?_, by simp⟩
    have hrestore : io.markSet.markRestore = io := markRestore_eq rfl rfl
    rw [packetizeStream, if_pos hheader, hrestore]
  obtain ⟨start, hstart, hdata, hmarks, _⟩ : ∃ start : Stream,
      start = (if isFlvFormat then io.markSet.pop 7 else io.markSet) ∧ start.data = io.data ∧
        start.marks = io.head :: io.marks ∧ start.readable.length ≤ io.size := by
    refine ⟨_, rfl, ?_, ?_, ?_⟩
    · cases isFlvFormat <;> rfl
    · cases isFlvFormat <;> rfl
    · cases isFlvFormat with
      | false => exact (length_readable io).le
      | true =>
        rw [if_pos rfl, pop_readable, length_drop, markSet_readable,
          length_readable]
        exact Nat.sub_le _ _
  have hbytes : (if isFlvFormat then 2 else 4) = 4 ∨ (if isFlvFormat then 2 else 4) = 2 := by
    cases isFlvFormat
    · exact .inl rfl
    · exact .inr rfl
  obtain ⟨result, out, rest, hloop, hsmall, hend⟩ := splitNalu_spec hbytes start.readable
  refine ⟨result, out, fun fuel hfuel => ?_, hsmall⟩
  -- the `CHECK` is passed, since nothing is left
  have hcheck : ¬ (result = true ∧ ¬ (start.pop (start.size - rest.length)).readable.isEmpty = true) := by
    rintro ⟨hresult, hleft⟩
    rw [hend hresult, length_nil, Nat.sub_zero, pop_size_readable] at hleft
    exact hleft rfl
  have hrestore : (start.pop (start.size - rest.length)).markRestore = io := markRestore_eq hdata hmarks
  rw [packetizeStream, if_neg hheader, ← hstart]
  simp only [hloop fuel (by omega), if_neg hcheck, hrestore]

end H264Packetizer

/-- The three bytes in front of an H263 frame are gone. -/
theorem h263_consumes {fuel : Nat} {io io' : Stream} {result : Bool} {out : List Bytes} (hsize : 2 ≤ io.size)
    (hfuel : io.size ≤ fuel) (h : H263Packetizer.packetize fuel io = some (result, out, io')) :
    io'.readable = io.readable.drop 3 := by
  have hread {io io' : Stream} {b : UInt8} (h : readByte io = some (b, io')) : io' = io.pop 1 := by
    obtain ⟨_, -, heq⟩ := map_eq_some_iff.1 h
    exact (Prod.mk.inj heq).2.symm
  have hthree : ((io.pop 1).pop 1 |>.pop 1).readable = io.readable.drop 3 := by
    simp only [pop_readable, drop_drop]
  rw [H263Packetizer.packetize, if_neg (Nat.not_lt.2 hsize)] at h
  obtain ⟨⟨_, io₁⟩, h₁, h⟩ := bind_eq_some_iff.1 h
  obtain ⟨⟨_, io₂⟩, h₂, h⟩ := bind_eq_some_iff.1 h
  obtain rfl : io₁ = (io.pop 1).pop 1 := hread h₁
  obtain rfl : io₂ = ((io.pop 1).pop 1).pop 1 := hread h₂
  dsimp only at h
  split_ifs at h
  · cases h
    exact hthree
  · -- the mark is set behind them
    have hpos : 0 < rtpMtu - 2 := by decide
    have hheader (first : Bool) (size : Nat) : (H263Packetizer.header first size).length = 2 := rfl
    obtain ⟨_, io₃, hspec, -, -, hdata, hmarks⟩ :=
      splitLoop_spec hpos hheader true (((io.pop 1).pop 1).pop 1).markSet
    have hless : (((io.pop 1).pop 1).pop 1).markSet.size ≤ fuel := by
      rw [← length_readable, markSet_readable, hthree, length_drop,
        length_readable]
      omega
    have hrestore : io₃.markRestore = ((io.pop 1).pop 1).pop 1 := markRestore_eq hdata hmarks
    simp only [hspec fuel hless, bind_eq_bind, bind_some, Option.some.injEq, Prod.mk.injEq] at h
    rw [← h.2.2, hrestore, hthree]

namespace Packetizer

/-- An H263 frame that is large enough to be looked at is never left as it was. -/
theorem not_untouched_h263 {io : Stream} (hsize : 2 ≤ io.size) : ¬ h263.Untouched io := by
  rintro ⟨_, _, _, hret, -, hleft⟩
  have hgone := h263_consumes hsize le_rfl (hret _ le_rfl)
  have hlen := congrArg length (hgone.symm.trans hleft)
  rw [length_drop, length_readable] at hlen
  omega

/-- `packetizeMarked` leaves its input, with the packets of a layout. -/
theorem untouched_of_marked {p : Packetizer} (skipped payload headerSize : Nat) {header : Bool → Nat → Bytes}
    (hp : p.packetize = packetizeMarked skipped payload header) (hlayout : p.layout = some (skipped, headerSize))
    (hpos : 0 < payload) (hmtu : headerSize + payload ≤ rtpMtu)
    (hheader : ∀ first size, (header first size).length = headerSize) (io : Stream) : p.Untouched io := by
  obtain ⟨out, hret, hsmall, hwhole⟩ := packetizeMarked_spec skipped hpos hheader io
  refine ⟨true, out, io, ?_, ⟨fun packet hpacket => (hsmall packet hpacket).trans hmtu, ?_⟩, rfl⟩
  · rw [hp]
    exact hret
  · intro prefixSize size hsome _
    rw [hlayout, Option.some.injEq, Prod.mk.injEq] at hsome
    rw [← hsome.1, ← hsome.2]
    exact hwhole

/-- `Packetize` returns and leaves the shared frame as it was exactly with every packetizer but that for H263, and there
only when the frame is too small to be looked at. -/
theorem untouched_iff (p : Packetizer) (io : Stream) : p.Untouched io ↔ p ≠ .h263 ∨ io.size < 2 := by
  constructor
  · intro h
    by_contra hneither
    obtain ⟨hp, hsize⟩ := not_or.1 hneither
    rw [not_not.1 hp] at h
    exact not_untouched_h263 (Nat.not_lt.1 hsize) h
  · intro h
    cases p with
    | h263 =>
      have hsmall : io.size < 2 := h.resolve_left fun hne => hne rfl
      exact ⟨false, [], io, fun fuel _ => if_pos hsmall, ⟨by simp, by simp⟩, rfl⟩
    | h264 isFlvFormat =>
      obtain ⟨result, out, hret, hsmall⟩ := H264Packetizer.packetizeStream_spec isFlvFormat io
      exact ⟨result, out, io, hret, ⟨hsmall, nofun⟩, rfl⟩
    | mp4a isFlvFormat => exact untouched_of_marked _ (rtpMtu - 4) 4 rfl rfl (by decide) (by decide) (fun _ _ => rfl) io
    | mp3 isFlvFormat => exact untouched_of_marked _ (rtpMtu - 4) 4 rfl rfl (by decide) (by decide) (fun _ _ => rfl) io
    | split => exact untouched_of_marked 0 rtpMtu 0 rfl rfl (by decide) (by decide) (fun _ _ => rfl) io

/-- A frame with a picture start code loses it. -/
theorem h263_touched : ¬ ∀ (p : Packetizer) (io : Stream), p.Untouched io := fun h =>
  have hsize : 2 ≤ (empty.push [0x22, 0, 0, 0x80, 2] : Stream).size := by decide
  not_untouched_h263 hsize (h _ _)

end Packetizer

end Whispercast.Rtp
