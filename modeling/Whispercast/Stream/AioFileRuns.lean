import Whispercast.Stream.AioFile

/-!
# Seeking in a media file

`ReadOk` says where the bytes in `buf_` come from, and `ControlOk` which code runs. A seek is pending until the next read
is started, and this one clears what the splitter had. Two seeks go wrong: one to an offset behind the end of the file
whose block has still some bytes, and one that is pending while the element stops.
-/

namespace Whispercast.Stream

open Library AioFile List Option
open Io (Bytes)

/-- Whether the code is in the callback. -/
def AioPhase.sending : AioPhase → Bool
  | idle => false
  | splitting => false
  | _ => true

/-! ## Cue points -/

theorem cueLoop_lt {cue_points : List (Int × Int)} {t : Int} (fuel : Nat) {l r : Nat} (hl : l < cue_points.length) :
    cueLoop cue_points t fuel l r < cue_points.length := by
  induction fuel generalizing l r with
  | zero => exact hl
  | succ fuel ih =>
    rw [cueLoop]
    split_ifs
    · cases hcue : cue_points[(r + l) / 2]? with
      | none => exact hl
      | some cue =>
        have hmid : (r + l) / 2 < cue_points.length := (List.getElem?_eq_some_iff.1 hcue).1
        dsimp only
        split_ifs
        · exact ih hmid
        · exact ih hl
    · exact hl

/-- A cue point that is found is there, and one is found if there is any. -/
theorem getCueForTime_cases (cue_points : List (Int × Int)) (t : Int) :
    (cue_points = [] ∧ getCueForTime cue_points t = none) ∨
      ∃ found cue, getCueForTime cue_points t = some found ∧ cue_points[found]? = some cue := by
  rw [getCueForTime]
  by_cases hnil : cue_points = []
  · exact Or.inl ⟨hnil, if_pos hnil⟩
  · have hpos : 0 < cue_points.length := length_pos_of_ne_nil hnil
    rw [if_neg hnil]
    right
    split_ifs
    · exact ⟨0, cue_points[0], rfl, getElem?_eq_getElem hpos⟩
    · have hlt := cueLoop_lt (t := t) cue_points.length (r := cue_points.length) hpos
      exact ⟨_, _, rfl, getElem?_eq_getElem hlt⟩

namespace AioFile

variable (config : AioFileConfig)

/-- What should hold while a file is read.

* The bytes that were put in front of the splitter, since a seek was done, are those of the file behind its offset.
* The splitter has a rest of these bytes.
* Without a pending seek it is the last seek that was done.
* At the end of the file all bytes were put there.
* A stopped element has no seek pending.
* A file that is neither paused nor stopped is read, or a tag is on its way. -/
structure Delivered (s : AioFile) : Prop where
  bytes : s.appended <+: config.file.drop s.start
  input : s.buf_ <:+ s.appended
  target : s.seek_offset_ < 0 → s.wanted = s.start
  complete : s.is_eof_ = true → s.in_io_operation_ = false → s.appended = config.file.drop s.start
  stopped : s.controller = false → s.seek_offset_ < 0
  reading : s.phase = .idle → s.controller = true → s.pause_count_ = 0 →
    s.in_io_operation_ = true ∨ s.unpause_alarm_ = true

/-- An offset at which reading can begin: in the file or at its end, or in a block behind it. -/
def OffsetOk (offset : Int) : Prop :=
  0 ≤ offset ∧ (config.file.length < offset.toNat →
    config.file.length ≤ offset.toNat / config.block_size * config.block_size)

instance (offset : Int) : Decidable (OffsetOk config offset) := inferInstanceAs (Decidable (_ ∧ (_ → _)))

/-- Where the bytes of `buf_` come from. -/
structure ReadOk (s : AioFile) : Prop where
  bytes : s.appended <+: config.file.drop s.start
  input : s.buf_ <:+ s.appended
  position : s.pos_ + s.read_skip_ = s.start + s.appended.length
  skipped : s.read_skip_ ≠ 0 → s.appended = []
  inFile : s.read_skip_ ≠ 0 → s.pos_ < config.file.length → s.pos_ + s.read_skip_ ≤ config.file.length
  skip_lt : s.read_skip_ < config.block_size

/-- The pending seek. -/
structure SeekOk (s : AioFile) : Prop where
  pending : 0 ≤ s.seek_offset_ → s.wanted = s.seek_offset_ ∧ OffsetOk config s.seek_offset_
  done : s.seek_offset_ < 0 → s.wanted = s.start

/-- Which code runs. -/
structure ControlOk (s : AioFile) : Prop where
  io : s.buffer_ = if s.in_io_operation_ then some s.pos_ else none
  data : s.in_data_processing_ = decide (s.phase ≠ .idle)
  tag : s.in_tag_processing_ = s.phase.sending
  busy : s.phase ≠ .idle → s.in_io_operation_ = false
  stopped : s.controller = false ∨ s.phase = .sourceEnded → s.seek_offset_ < 0
  ended : s.phase = .eosSent → s.controller = false
  reading : s.phase = .idle → s.controller = true → s.pause_count_ = 0 →
    s.in_io_operation_ = true ∨ s.unpause_alarm_ = true
  /-- Before the first tag nothing is paused or sent, and nothing goes on behind the end. -/
  first : s.is_first_tag_ = true → s.unpause_alarm_ = false ∧ (s.phase = .idle → s.in_io_operation_ = s.controller) ∧
    (s.phase ≠ .idle → s.phase ≠ .eosSent → s.controller = true ∧ (s.phase = .splitting ∨ s.phase = .sourceEnded))

/-- The invariant. -/
structure Inv (s : AioFile) : Prop where
  read : ReadOk config s
  seek : SeekOk config s
  control : ControlOk s
  eof : s.is_eof_ = true → s.in_io_operation_ = false → config.file.length ≤ s.pos_

variable {config} {s : AioFile}

theorem Inv.delivered (h : Inv config s) : Delivered config s := by
  refine ⟨h.read.bytes, h.read.input, h.seek.done, ?_, fun hstop => h.control.stopped (Or.inl hstop),
    h.control.reading⟩
  intro heof hio
  have hend := h.eof heof hio
  have hposition := h.read.position
  refine h.read.bytes.eq_of_length_le ?_
  rw [length_drop]
  omega

theorem opened_inv : Inv config opened where
  read := ⟨ nil_prefix, nil_suffix, rfl, fun h => absurd rfl h, fun h => absurd rfl h, config.block_size.pos⟩
  seek := ⟨fun h => absurd h (by decide), fun _ => rfl⟩
  control := ⟨rfl, rfl, rfl, fun h => absurd rfl h, fun h => by simp [opened] at h, fun h => by simp [opened] at h,
    fun _ _ _ => Or.inl rfl, fun _ => ⟨rfl, fun _ => rfl, fun h => absurd rfl h⟩⟩
  eof := fun h => by simp [opened] at h

/-! ## Reading -/

theorem ReadOk.congr {s' : AioFile} (h : ReadOk config s)
    (hsame : (s'.buf_, s'.pos_, s'.read_skip_, s'.start, s'.appended) =
      (s.buf_, s.pos_, s.read_skip_, s.start, s.appended)) : ReadOk config s' := by
  simp only [Prod.mk.injEq] at hsame
  obtain ⟨hbuf, hpos, hskip, hstart, happended⟩ := hsame
  obtain ⟨hbytes, hinput, hposition, hskipped, hinFile, hskip_lt⟩ := h
  constructor
  · rw [happended, hstart]
    exact hbytes
  · rw [hbuf, happended]
    exact hinput
  · rw [hpos, hskip, hstart, happended]
    exact hposition
  · rw [hskip, happended]
    exact hskipped
  · rw [hskip, hpos]
    exact hinFile
  · rw [hskip]
    exact hskip_lt

/-- A read is started, behind a seek where one is pending. -/
theorem initiateAioRequest_inv (hread : ReadOk config s) (hseek : SeekOk config s) (hio : s.in_io_operation_ = false)
    (hbuffer : s.buffer_ = none) (hphase : s.phase = .idle) (hdata : s.in_data_processing_ = false)
    (htag : s.in_tag_processing_ = false)
    (hfirst : s.is_first_tag_ = true → s.unpause_alarm_ = false ∧ s.controller = true) :
    ∃ s', initiateAioRequest config s = some s' ∧ Inv config s' := by
  rw [initiateAioRequest, guard_of hio, bind_eq_bind, bind_some, if_neg (not_not.2 hbuffer)]
  by_cases hpending : 0 ≤ s.seek_offset_
  · obtain ⟨hwanted, hoffset⟩ := hseek.pending hpending
    rw [if_pos hpending]
    have hsplit : s.seek_offset_.toNat / config.block_size * config.block_size +
        s.seek_offset_.toNat % config.block_size = s.seek_offset_.toNat := Nat.div_add_mod' _ _
    refine ⟨_, rfl, ⟨ nil_prefix, nil_suffix, hsplit, fun _ => rfl, ?_, Nat.mod_lt _ config.block_size.pos⟩,
      ⟨fun h => absurd h (by dsimp only; decide), fun _ => ?_⟩,
      ⟨rfl, by dsimp only; rw [hdata, hphase]; rfl, by dsimp only; rw [htag, hphase]; rfl,
        fun h => absurd hphase h, fun _ => by dsimp only; decide, fun h => ?_, fun _ _ _ => Or.inl rfl,
        fun h => ⟨(hfirst h).1, fun _ => (hfirst h).2.symm, fun hne => absurd hphase hne⟩⟩, nofun⟩
    · intro _ hlt
      rw [hsplit]
      by_contra hbeyond
      exact absurd (hoffset.2 (Nat.lt_of_not_le hbeyond)) (Nat.not_le.2 hlt)
    · rw [hwanted, Int.toNat_of_nonneg hpending]
    · rw [hphase] at h
      cases h
  · rw [if_neg hpending]
    have hneg : s.seek_offset_ < 0 := Int.not_le.1 hpending
    refine ⟨_, rfl, hread.congr rfl, ⟨fun h => absurd h hpending, fun _ => hseek.done hneg⟩,
      ⟨rfl, by dsimp only; rw [hdata, hphase]; rfl, by dsimp only; rw [htag, hphase]; rfl,
        fun h => absurd hphase h, fun _ => hneg, fun h => ?_, fun _ _ _ => Or.inl rfl,
        fun h => ⟨(hfirst h).1, fun _ => (hfirst h).2.symm, fun hne => absurd hphase hne⟩⟩, nofun⟩
    rw [hphase] at h
    cases h

/-- The bytes of a block go on where the bytes before ended, behind those that are skipped. -/
theorem ReadOk.append (h : ReadOk config s) (hblock : block config s.pos_ ≠ []) :
    (s.buf_ = [] ∨ s.read_skip_ = 0) ∧ s.read_skip_ ≤ (block config s.pos_).length ∧
      s.appended ++ (block config s.pos_).drop s.read_skip_ <+: config.file.drop s.start ∧
      ((block config s.pos_).length < config.block_size →
        config.file.length ≤ s.pos_ + (block config s.pos_).length) := by
  have hposition := h.position
  have hlength : (block config s.pos_).length = min (config.block_size : Nat) (config.file.length - s.pos_) := by
    rw [block, length_take, length_drop]
  have hlt : s.pos_ < config.file.length := by
    have hpos := length_pos_of_ne_nil hblock
    omega
  refine ⟨?_, ?_, ?_, by omega⟩
  · by_cases hskip : s.read_skip_ = 0
    · exact Or.inr hskip
    · have hsuffix := h.input
      rw [h.skipped hskip, suffix_nil] at hsuffix
      exact Or.inl hsuffix
  · by_cases hskip : s.read_skip_ = 0
    · omega
    · have hin := h.inFile hskip hlt
      have hsmall := h.skip_lt
      omega
  · -- what is left behind the bytes that are there begins where the block is not skipped
    obtain ⟨left, hleft⟩ := h.bytes
    have hdrop : config.file.drop (s.pos_ + s.read_skip_) = left := by
      rw [hposition, ← drop_drop, ← hleft, drop_left]
    rw [← hleft, prefix_append_right_inj, block, drop_take, drop_drop, hdrop]
    exact take_prefix _ _

/-- `ProcessData` begins. -/
theorem ControlOk.splitting {s' : AioFile} (hphase : s'.phase = .splitting) (hio : s'.in_io_operation_ = false)
    (hbuffer : s'.buffer_ = none) (hdata : s'.in_data_processing_ = true) (htag : s'.in_tag_processing_ = false)
    (hneg : s'.seek_offset_ < 0)
    (hfirst : s'.is_first_tag_ = true → s'.unpause_alarm_ = false ∧ s'.controller = true) : ControlOk s' where
  io := by rw [hio, hbuffer]; rfl
  data := by rw [hdata, hphase]; rfl
  tag := by rw [htag, hphase]; rfl
  busy _ := hio
  stopped _ := hneg
  ended h := absurd (hphase.symm.trans h) (by decide)
  reading h := absurd (hphase.symm.trans h) (by decide)
  first h := ⟨(hfirst h).1, fun hidle => absurd (hphase.symm.trans hidle) (by decide),
    fun _ _ => ⟨(hfirst h).2, .inl hphase⟩⟩

theorem processData_eq (hio : s.in_io_operation_ = false) (htag : s.in_tag_processing_ = false) :
    s.processData = some { s with in_data_processing_ := true, phase := .splitting } := by
  rw [processData, guard_of hio, guard_of htag]
  rfl

/-- `ProcessAioOperation`: no check fails, and a pending seek is done. -/
theorem Inv.processAioOperation (h : Inv config s) (hio : s.in_io_operation_ = true) (hphase : s.phase = .idle) :
    ∃ s', s.processAioOperation config = some s' ∧ Inv config s' := by
  have hbuffer := h.control.io
  rw [hio, if_pos rfl] at hbuffer
  have hdata : s.in_data_processing_ = false := by rw [h.control.data, hphase]; rfl
  have htag : s.in_tag_processing_ = false := by rw [h.control.tag, hphase]; rfl
  have hfirst : s.is_first_tag_ = true → s.unpause_alarm_ = false ∧ s.controller = true := by
    intro hfirst
    obtain ⟨halarm, hcontroller, -⟩ := h.control.first hfirst
    exact ⟨halarm, (hcontroller hphase).symm.trans hio⟩
  rw [AioFile.processAioOperation, guard_of hio, bind_eq_bind, bind_some]
  dsimp only
  rw [hbuffer, bind_eq_bind, bind_some]
  by_cases hpending : 0 ≤ s.seek_offset_
  · rw [if_pos hpending]
    exact initiateAioRequest_inv (h.read.congr rfl) ⟨h.seek.pending, h.seek.done⟩ rfl rfl hphase hdata htag hfirst
  rw [if_neg hpending]
  have hneg : s.seek_offset_ < 0 := Int.not_le.1 hpending
  by_cases hempty : (block config s.pos_).length = 0
  · -- at the end of the file
    rw [if_pos hempty]
    have hend : config.file.length ≤ s.pos_ := by
      have hpos := config.block_size.pos
      rw [block, length_take, length_drop] at hempty
      omega
    exact ⟨_, processData_eq rfl htag, h.read.congr rfl, ⟨h.seek.pending, h.seek.done⟩,
      .splitting rfl rfl rfl rfl htag hneg hfirst, fun _ _ => hend⟩
  · rw [if_neg hempty]
    have hne : block config s.pos_ ≠ [] := fun hnil => hempty (by rw [hnil]; rfl)
    obtain ⟨hcheck, hskip, hbytes, heof⟩ := h.read.append hne
    have hposition := h.read.position
    rw [guard_of hcheck, bind_some]
    by_cases hpos : 0 < s.read_skip_
    · have hnil := h.read.skipped (Nat.ne_of_gt hpos)
      have hbuf : s.buf_ = [] := hcheck.resolve_right (Nat.ne_of_gt hpos)
      rw [if_pos hpos, guard_of (by rw [hbuf, List.nil_append]; exact hskip), bind_some]
      refine ⟨_, processData_eq rfl htag, ⟨hbytes, ?_, ?_, fun h => absurd rfl h, fun h => absurd rfl h, config.block_size.pos⟩,
        ⟨h.seek.pending, h.seek.done⟩, .splitting rfl rfl rfl rfl htag hneg hfirst, ?_⟩
      · rw [hbuf, hnil]
        exact List.suffix_refl _
      · dsimp only
        rw [List.length_append, length_drop]
        omega
      · intro hlast _
        exact heof (of_decide_eq_true hlast)
    · have hzero : s.read_skip_ = 0 := Nat.eq_zero_of_not_pos hpos
      rw [if_neg hpos]
      refine ⟨_, processData_eq rfl htag, ⟨hbytes, ?_, ?_, fun h => absurd hzero h, fun h => absurd hzero h, h.read.skip_lt⟩,
        ⟨h.seek.pending, h.seek.done⟩, .splitting rfl rfl rfl rfl htag hneg hfirst, ?_⟩
      · obtain ⟨_, hpassed⟩ := h.read.input
        rw [hzero, List.drop_zero, ← hpassed, List.append_assoc]
        exact List.suffix_append _ _
      · dsimp only
        rw [List.length_append, length_drop]
        omega
      · intro hlast _
        exact heof (of_decide_eq_true hlast)

/-! ## `ProcessData` -/

/-- What holds while `ProcessData` runs, with no other code. -/
structure Working (config : AioFileConfig) (s : AioFile) : Prop where
  read : ReadOk config s
  seek : SeekOk config s
  eof : s.is_eof_ = true → config.file.length ≤ s.pos_
  io : s.in_io_operation_ = false
  buffer : s.buffer_ = none
  data : s.in_data_processing_ = true
  tag : s.in_tag_processing_ = false
  stopped : s.controller = false → s.seek_offset_ < 0
  first : s.is_first_tag_ = true → s.unpause_alarm_ = false ∧ s.controller = true

/-- The fields that the invariant of `ProcessData` is about. -/
def core (s : AioFile) :
    Bytes × Nat × Nat × Nat × Bytes × Bool × Int × Int × Bool × Option Nat × Bool × Bool × Bool × Bool × Bool :=
  (s.buf_, s.pos_, s.read_skip_, s.start, s.appended, s.is_eof_, s.seek_offset_, s.wanted, s.in_io_operation_, s.buffer_,
    s.in_data_processing_, s.in_tag_processing_, s.controller, s.is_first_tag_, s.unpause_alarm_)

theorem Working.congr {s' : AioFile} (h : Working config s) (hcore : s'.core = s.core) : Working config s' := by
  simp only [core, Prod.mk.injEq] at hcore
  obtain ⟨hbuf, hpos, hskip, hstart, happended, heof, hoffset, hwanted, hio, hbuffer, hdata, htag, hcontroller, hfirst,
    halarm⟩ := hcore
  obtain ⟨hread, hseek, hend, hio', hbuffer', hdata', htag', hstopped, hfirst'⟩ := h
  refine ⟨hread.congr (by rw [hbuf, hpos, hskip, hstart, happended]), ⟨?_, ?_⟩, ?_, ?_, ?_, ?_, ?_, ?_, ?_⟩
  · rw [hoffset, hwanted]
    exact hseek.pending
  · rw [hoffset, hwanted, hstart]
    exact hseek.done
  · rw [heof, hpos]
    exact hend
  · rw [hio, hio']
  · rw [hbuffer, hbuffer']
  · rw [hdata, hdata']
  · rw [htag, htag']
  · rw [hcontroller, hoffset]
    exact hstopped
  · rw [hfirst, halarm, hcontroller]
    exact hfirst'

/-- The invariant, when the callback returns or the splitter does. -/
theorem Inv.working (h : Inv config s) (hphase : s.phase ≠ .idle) (hended : s.phase ≠ .eosSent) :
    Working config { s with in_tag_processing_ := false } := by
  have hio := h.control.busy hphase
  have hbuffer := h.control.io
  rw [hio, if_neg (by decide)] at hbuffer
  have hdata := h.control.data
  rw [decide_eq_true hphase] at hdata
  exact ⟨h.read.congr rfl, ⟨h.seek.pending, h.seek.done⟩, fun heof => h.eof heof hio, hio, hbuffer, hdata, rfl,
    fun hstop => h.control.stopped (Or.inl hstop),
    fun hfirst => ⟨(h.control.first hfirst).1, ((h.control.first hfirst).2.2 hphase hended).1⟩⟩

section

variable (h : Working config s)

include h

/-- The splitter is called. -/
theorem Working.splitting : Inv config { s with phase := .splitting } := by
  have hio := h.io
  refine ⟨h.read.congr rfl, ⟨h.seek.pending, h.seek.done⟩, ⟨?_, h.data, h.tag, fun _ => hio, ?_, nofun, nofun,
      fun hfirst => ⟨(h.first hfirst).1, nofun, fun _ _ => ⟨(h.first hfirst).2, Or.inl rfl⟩⟩⟩,
    fun heof _ => h.eof heof⟩
  · rw [hio, h.buffer]
    rfl
  · rintro (hstop | hphase)
    · exact h.stopped hstop
    · cases hphase

/-- A tag is sent. -/
theorem Working.sending {phase : AioPhase} (hsending : phase.sending = true)
    (hended : phase ≠ .eosSent) (hstop : phase = .sourceEnded → s.seek_offset_ < 0)
    (hfirst : s.is_first_tag_ = true → phase = .sourceEnded) :
    Inv config { s with
      in_tag_processing_ := true
      phase := phase } := by
  have hio := h.io
  have hne : phase ≠ .idle := by
    rintro rfl
    cases hsending
  refine ⟨h.read.congr rfl, ⟨h.seek.pending, h.seek.done⟩, ⟨?_, ?_, hsending.symm, fun _ => hio, ?_,
    fun heos => absurd heos hended,
      fun hidle => absurd hidle hne, fun hyes => ⟨(h.first hyes).1, fun hidle => absurd hidle hne,
        fun _ _ => ⟨(h.first hyes).2, Or.inr (hfirst hyes)⟩⟩⟩, fun heof _ => h.eof heof⟩
  · rw [hio, h.buffer]
    rfl
  · rw [h.data, decide_eq_true hne]
  · rintro (hstopped | hphase)
    · exact h.stopped hstopped
    · exact hstop hphase

/-- Nothing goes on while it is paused. -/
theorem Working.paused (hcount : s.pause_count_ ≠ 0) (hfirst : s.is_first_tag_ = false) :
    Inv config { s with
      in_data_processing_ := false
      phase := .idle } := by
  have hio := h.io
  refine ⟨h.read.congr rfl, ⟨h.seek.pending, h.seek.done⟩, ⟨?_, rfl, h.tag, fun hne => absurd rfl hne, ?_, nofun,
      fun _ _ hzero => absurd hzero hcount, fun hyes => absurd (hfirst.symm.trans hyes) (by decide)⟩,
    fun heof _ => h.eof heof⟩
  · rw [hio, h.buffer]
    rfl
  · rintro (hstop | hphase)
    · exact h.stopped hstop
    · cases hphase

/-- The last tag is sent. -/
theorem Working.ended (hseek : s.seek_offset_ < 0) (bootstrapping : Bool) :
    Inv config { s with
      bootstrapping_ := bootstrapping
      controller := false
      in_tag_processing_ := true
      phase := .eosSent } := by
  have hio := h.io
  refine ⟨h.read.congr rfl, ⟨h.seek.pending, h.seek.done⟩, ⟨?_, h.data, rfl, fun _ => hio, fun _ => hseek,
    fun _ => rfl, nofun,
      fun hfirst => ⟨(h.first hfirst).1, nofun, fun _ hne => absurd rfl hne⟩⟩, fun heof _ => h.eof heof⟩
  rw [hio, h.buffer]
  rfl

theorem Working.stopElement (hseek : s.seek_offset_ < 0) : Inv config s.stopElement := by
  rw [AioFile.stopElement]
  split_ifs
  · exact h.ended hseek false
  · exact h.sending rfl (by decide) (fun _ => hseek) fun _ => rfl

theorem Working.leaveLoop : ∃ s', leaveLoop config s = some s' ∧ Inv config s' := by
  rw [AioFile.leaveLoop]
  split_ifs with hend
  · exact ⟨_, rfl, h.stopElement hend.2⟩
  · have hidle := initiateAioRequest_inv (s := { s with
        in_data_processing_ := false
        phase := .idle })
      (h.read.congr rfl)
      ⟨h.seek.pending, h.seek.done⟩ h.io h.buffer rfl rfl h.tag h.first
    exact hidle

theorem Working.checkLimit (hfirst : s.is_first_tag_ = false) {timestamp_ms : Int}
    (hlimit : atLimit config timestamp_ms = true → s.seek_offset_ < 0) : Inv config (checkLimit config s timestamp_ms) := by
  rw [AioFile.checkLimit]
  split_ifs with hat
  · exact h.stopElement (hlimit hat)
  · exact h.sending rfl (by decide) nofun (by rw [hfirst]; nofun)

theorem Working.checkSeek (hfirst : s.is_first_tag_ = false) (timestamp_ms : Int) :
    ∃ s', checkSeek config s timestamp_ms = some s' ∧ Inv config s' := by
  rw [AioFile.checkSeek]
  split_ifs with hpending hseeking hearly hbootstrapping
  · exact h.leaveLoop
  · exact ⟨_, rfl, h.splitting⟩
  · have hended : Working config { s with bootstrapping_ := false } := h.congr rfl
    exact ⟨_, rfl, hended.sending rfl (by simp) nofun fun hyes => absurd (hfirst.symm.trans hyes) (by decide)⟩
  · exact ⟨_, rfl, h.splitting⟩
  · exact ⟨_, rfl, h.checkLimit hfirst fun _ => Int.not_le.1 hpending⟩

end

/-! ## Seeking -/

/-- What `Seek` leaves before it may start a read. -/
theorem seek_cases (s : AioFile) (seek_pos_ms : Nat) :
    ((config.disable_seek_ = true ∨ s.cue_points_ = some []) ∧ s.seek config seek_pos_ms = some (false, s)) ∨
      (∃ offset ∈ s.cueOffset config seek_pos_ms,
        s.seek config seek_pos_ms =
          let s' := { s with
            seek_pos_ms_ := seek_pos_ms + config.media_origin_pos_ms_
            seek_offset_ := offset
            wanted := offset }
          if s.in_data_processing_ = false ∧ s.in_io_operation_ = false then
            (initiateAioRequest config s').map fun s => (true, s)
          else some (true, s')) ∨
      (s.cue_points_ = none ∧ s.seek config seek_pos_ms = some (true, { s with
        seek_pos_ms_ := seek_pos_ms + config.media_origin_pos_ms_
        seek_offset_ := 0
        wanted := 0 })) := by
  rw [seek, cueOffset]
  by_cases hdisabled : config.disable_seek_ = true
  · exact Or.inl ⟨Or.inl hdisabled, if_pos hdisabled⟩
  · rw [if_neg hdisabled, if_neg hdisabled]
    cases hcues : s.cue_points_ with
    | none => exact Or.inr (Or.inr ⟨rfl, rfl⟩)
    | some cue_points =>
      rcases getCueForTime_cases cue_points (seek_pos_ms + config.media_origin_pos_ms_) with
        ⟨hnil, hnone⟩ | ⟨_, cue, hfound, hcue⟩
      · left
        refine ⟨Or.inr (by rw [hnil]), ?_⟩
        dsimp only
        rw [hnone]
      · right
        left
        refine ⟨cue.2, ?_, ?_⟩
        · rw [bind_some, hfound, bind_some, hcue]
          rfl
        · dsimp only
          rw [hfound]
          dsimp only
          rw [hcue]
          rfl

theorem offsetOk_zero : OffsetOk config 0 := ⟨Int.le_refl _, fun h => absurd h (Nat.not_lt_zero _)⟩

/-- A seek is pending. -/
theorem Working.pending (h : Working config s) (hcontroller : s.controller = true) (seek_pos_ms : Int) {offset : Int}
    (hoffset : OffsetOk config offset) :
    Working config { s with
      seek_pos_ms_ := seek_pos_ms
      seek_offset_ := offset
      wanted := offset } :=
  ⟨h.read.congr rfl, ⟨fun _ => ⟨rfl, hoffset⟩, fun hneg => absurd hoffset.1 (Int.not_le.2 hneg)⟩, h.eof, h.io,
    h.buffer, h.data, h.tag,
    fun hstop => absurd hcontroller (by rw [hstop]; decide), h.first⟩

/-- `Seek` while `ProcessData` runs. -/
theorem Working.seeks (h : Working config s) (hcontroller : s.controller = true) {seek_pos_ms : Nat}
    (hoffset : ∀ offset ∈ s.cueOffset config seek_pos_ms, OffsetOk config offset) :
    ∃ found s', s.seek config seek_pos_ms = some (found, s') ∧ Working config s' ∧
      (found = false → s' = s ∧ (config.disable_seek_ = true ∨ s.cue_points_ = some [])) := by
  rcases seek_cases s seek_pos_ms with ⟨hrefuses, hrefused⟩ | ⟨offset, hfound, hseek⟩ | ⟨-, hseek⟩
  · exact ⟨false, s, hrefused, h, fun _ => ⟨rfl, hrefuses⟩⟩
  · rw [hseek]
    rw [if_neg (by rw [h.data]; exact fun hno => absurd hno.1 (by decide))]
    exact ⟨true, _, rfl, h.pending hcontroller _ (hoffset offset hfound), nofun⟩
  · exact ⟨true, _, hseek, h.pending hcontroller _ offsetOk_zero, nofun⟩

/-- `Seek` is refused without a cue point, and where it is disabled. -/
theorem cueOffset_eq_none (hrefuses : config.disable_seek_ = true ∨ s.cue_points_ = some []) (seek_pos_ms : Nat) :
    s.cueOffset config seek_pos_ms = none := by
  rw [cueOffset]
  by_cases hdisabled : config.disable_seek_ = true
  · exact if_pos hdisabled
  · rw [if_neg hdisabled, hrefuses.resolve_left hdisabled]
    rfl

theorem Inv.pending (h : Inv config s) (hcontroller : s.controller = true) (hphase : s.phase ≠ .sourceEnded)
    (seek_pos_ms : Int) {offset : Int} (hoffset : OffsetOk config offset) :
    Inv config { s with
      seek_pos_ms_ := seek_pos_ms
      seek_offset_ := offset
      wanted := offset } := by
  have hc := h.control
  refine ⟨h.read.congr rfl, ⟨fun _ => ⟨rfl, hoffset⟩, fun hneg => absurd hoffset.1 (Int.not_le.2 hneg)⟩,
    ⟨hc.io, hc.data, hc.tag, hc.busy, ?_, hc.ended, hc.reading, hc.first⟩, h.eof⟩
  rintro (hstop | hsource)
  · exact absurd hcontroller (by rw [hstop]; decide)
  · exact absurd hsource hphase

/-- `Seek` while nothing runs, or while a tag is sent. -/
theorem Inv.seeks (h : Inv config s) (hcontroller : s.controller = true) {seek_pos_ms : Nat}
    (hoffset : ∀ offset ∈ s.cueOffset config seek_pos_ms, OffsetOk config offset)
    (hsource : s.phase = .sourceEnded → config.disable_seek_ = true ∨ s.cue_points_ = some []) :
    ∃ found s', s.seek config seek_pos_ms = some (found, s') ∧ Inv config s' := by
  rcases seek_cases s seek_pos_ms with ⟨-, hrefused⟩ | ⟨offset, hfound, hseek⟩ | ⟨hnone, hseek⟩
  · exact ⟨false, s, hrefused, h⟩
  · have hphase : s.phase ≠ .sourceEnded := by
      intro hended
      rw [cueOffset_eq_none (hsource hended)] at hfound
      cases hfound
    rw [hseek]
    dsimp only
    split_ifs with hfree
    · -- nothing runs: the seek is done at once
      have hidle : s.phase = .idle := by
        by_contra hne
        have hdata := h.control.data
        rw [hfree.1, decide_eq_true hne] at hdata
        cases hdata
      have hbuffer := h.control.io
      rw [hfree.2, if_neg (by decide)] at hbuffer
      have htag := h.control.tag
      rw [hidle] at htag
      have hpending := h.pending hcontroller hphase (seek_pos_ms + config.media_origin_pos_ms_) (hoffset offset hfound)
      obtain ⟨s', hinitiate, hinv⟩ := initiateAioRequest_inv hpending.read hpending.seek hfree.2 hbuffer hidle hfree.1 htag
        fun hfirst => ⟨(h.control.first hfirst).1, hcontroller⟩
      rw [hinitiate]
      exact ⟨true, s', rfl, hinv⟩
    · exact ⟨true, _, rfl, h.pending hcontroller hphase _ (hoffset offset hfound)⟩
  · refine ⟨true, _, hseek, h.pending hcontroller ?_ _ offsetOk_zero⟩
    intro hended
    rcases hsource hended with hdisabled | hcues
    · rw [AioFile.seek, if_pos hdisabled] at hseek
      cases hseek
    · rw [hnone] at hcues
      cases hcues

/-! ## Steps -/

/-- What keeps every seek: it goes to an offset at which reading can begin, and it is neither made nor pending when the
element stops. -/
def SeeksKept (config : AioFileConfig) (s : AioFile) : Event → Prop
  | .seek seek_pos_ms => (∀ offset ∈ s.cueOffset config seek_pos_ms, OffsetOk config offset) ∧
      (s.phase = .sourceEnded → config.disable_seek_ = true ∨ s.cue_points_ = some [])
  | .getNextTag _ (.ok _) => s.is_first_tag_ = true → 0 < config.media_origin_pos_ms_ ∨ 0 < config.seek_pos_ms_ →
      (∀ offset ∈ s.cueOffset config config.seek_pos_ms_, OffsetOk config offset) ∧
        (config.disable_seek_ = true ∨ s.cue_points_ = some [] → s.seek_offset_ < 0)
  | .getNextTag _ .corrupted => s.seek_offset_ < 0
  | .getNextTag _ .eof => s.seek_offset_ < 0
  | .returned =>
    match s.phase with
    | .seekPerformed timestamp_ms => atLimit config timestamp_ms = true → s.seek_offset_ < 0
    | _ => True
  | _ => True

instance decidableSeeksKept (s : AioFile) : ∀ e : Event, Decidable (SeeksKept config s e)
  | .seek seek_pos_ms => inferInstanceAs (Decidable ((∀ offset ∈ s.cueOffset config seek_pos_ms, _) ∧ _))
  | .getNextTag _ (.ok _) =>
    inferInstanceAs (Decidable (_ → _ → (∀ offset ∈ s.cueOffset config config.seek_pos_ms_, _) ∧ (_ → _)))
  | .getNextTag _ .corrupted => inferInstanceAs (Decidable (_ < _))
  | .getNextTag _ .eof => inferInstanceAs (Decidable (_ < _))
  | .getNextTag _ .skip => isTrue trivial
  | .getNextTag _ .noData => isTrue trivial
  | .getNextTag _ (.cuePoints _) => isTrue trivial
  | .returned =>
    match h : s.phase with
    | .seekPerformed timestamp_ms =>
      decidable_of_iff (atLimit config timestamp_ms = true → s.seek_offset_ < 0) (by simp only [SeeksKept, h])
    | .idle => isTrue (by simp only [SeeksKept, h])
    | .splitting => isTrue (by simp only [SeeksKept, h])
    | .bootstrapEnded _ => isTrue (by simp only [SeeksKept, h])
    | .tagSent => isTrue (by simp only [SeeksKept, h])
    | .sourceEnded => isTrue (by simp only [SeeksKept, h])
    | .eosSent => isTrue (by simp only [SeeksKept, h])
  | .pause _ => isTrue trivial
  | .resume => isTrue trivial
  | .readCompleted => isTrue trivial

/-- `Pause`. Where nothing is read and no tag is sent, the alarm goes on with what is there. -/
theorem Inv.pause (h : Inv config s) (hphase : s.phase ≠ .splitting) (hcontroller : s.controller = true) (on : Bool) :
    Inv config (s.pause on) := by
  have hc := h.control
  rw [AioFile.pause]
  split_ifs with hon hmany
  · exact ⟨h.read.congr rfl, ⟨h.seek.pending, h.seek.done⟩, ⟨hc.io, hc.data, hc.tag, hc.busy, hc.stopped, hc.ended,
        fun _ _ hcount => absurd hcount (Nat.succ_ne_zero _), hc.first⟩, h.eof⟩
  · exact ⟨h.read.congr rfl, ⟨h.seek.pending, h.seek.done⟩, ⟨hc.io, hc.data, hc.tag, hc.busy, hc.stopped, hc.ended,
        fun _ _ hcount => absurd hcount (Nat.sub_ne_zero_of_lt hmany), hc.first⟩, h.eof⟩
  · refine ⟨h.read.congr rfl, ⟨h.seek.pending, h.seek.done⟩, ⟨hc.io, hc.data, hc.tag, hc.busy, hc.stopped, hc.ended,
      ?_, ?_⟩, h.eof⟩
    · intro hidle _ _
      have htag : s.in_tag_processing_ = false := by
        rw [hc.tag, show s.phase = .idle from hidle]
        rfl
      cases hio : s.in_io_operation_ with
      | false => exact Or.inr (by simp [htag])
      | true => exact Or.inl rfl
    · intro hfirst
      obtain ⟨halarm, hidle, hbusy⟩ := hc.first hfirst
      refine ⟨?_, hidle, hbusy⟩
      -- before the first tag a read is on its way, or a tag is
      have hrunning : s.in_tag_processing_ = true ∨ s.in_io_operation_ = true := by
        rw [hc.tag]
        cases hnow : s.phase with
        | idle => exact Or.inr ((hidle hnow).trans hcontroller)
        | splitting => exact absurd hnow hphase
        | _ => exact Or.inl rfl
      rcases hrunning with htag | hio
      · simp [halarm, htag]
      · simp [halarm, hio]

/-- `ProcessDataResume`. -/
theorem Inv.resume (h : Inv config s) (halarm : s.unpause_alarm_ = true) (hphase : s.phase = .idle)
    (hio : s.in_io_operation_ = false) :
    ∃ s', ({ s with unpause_alarm_ := false }).processData = some s' ∧ Inv config s' := by
  have hc := h.control
  have htag : s.in_tag_processing_ = false := by
    rw [hc.tag, hphase]
    rfl
  have hfirst : ¬s.is_first_tag_ = true := by
    intro hfirst
    rw [(hc.first hfirst).1] at halarm
    cases halarm
  have hbuffer := hc.io
  rw [hio, if_neg (by decide)] at hbuffer
  rw [processData, guard_of hio, guard_of htag]
  have hworking : Working config { s with
      unpause_alarm_ := false
      in_data_processing_ := true } :=
    ⟨h.read.congr rfl, ⟨h.seek.pending, h.seek.done⟩, fun heof => h.eof heof hio, hio, hbuffer, rfl, htag,
      fun hstop => hc.stopped (Or.inl hstop), fun hyes => absurd hyes hfirst⟩
  exact ⟨_, rfl, hworking.splitting⟩

/-- `ProcessData` behind `GetNextTag`. -/
theorem Working.nextTag (h : Working config s) (timestamp_ms : Int)
    (hkept : SeeksKept config s (.getNextTag 0 (.ok timestamp_ms))) :
    ∃ s', nextTag config s timestamp_ms = some s' ∧ Inv config s' := by
  rw [AioFile.nextTag]
  by_cases hfirst : s.is_first_tag_ = true
  · rw [if_pos hfirst]
    have hworking : Working config { s with is_first_tag_ := false } :=
      ⟨h.read.congr rfl, ⟨h.seek.pending, h.seek.done⟩, h.eof, h.io, h.buffer, h.data, h.tag, h.stopped, nofun⟩
    dsimp only
    split_ifs with hinitial
    · obtain ⟨hoffset, hrefused⟩ := hkept hfirst hinitial
      obtain ⟨found, s', hseek, hs', hsame⟩ := hworking.seeks (h.first hfirst).2 hoffset
      rw [hseek]
      cases found with
      | true => exact hs'.leaveLoop
      | false =>
        obtain ⟨hunchanged, hrefuses⟩ := hsame rfl
        rw [hunchanged]
        exact ⟨_, rfl, hworking.stopElement (hrefused hrefuses)⟩
    · have hended : Working config { s with
          is_first_tag_ := false
          bootstrapping_ := false } := hworking.congr rfl
      exact ⟨_, rfl, hended.sending rfl (by simp) nofun nofun⟩
  · rw [if_neg hfirst]
    exact h.checkSeek (Bool.eq_false_iff.2 hfirst) timestamp_ms

/-- One call of `GetNextTag`. -/
theorem Inv.getNextTag (h : Inv config s) (hphase : s.phase = .splitting) (taken : Nat) {tag : TagRead}
    (hkept : SeeksKept config s (.getNextTag taken tag)) :
    ∃ s', getNextTag config { s with buf_ := s.buf_.drop taken } tag = some s' ∧ Inv config s' := by
  have htag : s.in_tag_processing_ = false := by
    rw [h.control.tag, hphase]
    rfl
  have hall := h.working (by rw [hphase]; decide) (by rw [hphase]; decide)
  have hworking : Working config { s with buf_ := s.buf_.drop taken } :=
    ⟨⟨hall.read.bytes, (drop_suffix _ _).trans hall.read.input, hall.read.position, hall.read.skipped,
      hall.read.inFile, hall.read.skip_lt⟩, ⟨hall.seek.pending, hall.seek.done⟩, hall.eof, hall.io, hall.buffer,
      hall.data, htag, hall.stopped, hall.first⟩
  cases tag with
  | ok timestamp_ms => exact hworking.nextTag timestamp_ms hkept
  | cuePoints cue_points =>
    have hstored : Working config { s with
        buf_ := s.buf_.drop taken
        cue_points_ := some cue_points } := hworking.congr rfl
    have hsplitting := hstored.splitting
    rw [← hphase] at hsplitting
    exact ⟨_, rfl, hsplitting⟩
  | skip =>
    have hsplitting := hworking.splitting
    rw [← hphase] at hsplitting
    exact ⟨_, rfl, hsplitting⟩
  | noData => exact hworking.leaveLoop
  | corrupted => exact ⟨_, rfl, hworking.stopElement hkept⟩
  | eof => exact ⟨_, rfl, hworking.stopElement hkept⟩

/-- The callback returns. -/
theorem Inv.returned (h : Inv config s) (hkept : SeeksKept config s .returned) :
    ∃ s', s.returned config = some s' ∧ Inv config s' := by
  -- a tag is sent behind the first one only
  have hfirst : s.phase ≠ .idle → s.phase ≠ .splitting → s.phase ≠ .sourceEnded → s.phase ≠ .eosSent →
      s.is_first_tag_ = false := by
    intro hidle hsplitting hsource heos
    by_contra hyes
    rcases ((h.control.first (Bool.not_eq_false _ ▸ hyes)).2.2 hidle heos).2 with hsplits | hended
    · exact hsplitting hsplits
    · exact hsource hended
  rw [AioFile.returned]
  cases hphase : s.phase with
  | idle => exact ⟨s, rfl, h⟩
  | splitting => exact ⟨s, rfl, h⟩
  | bootstrapEnded timestamp_ms =>
    rw [hphase] at hfirst
    exact (h.working (by rw [hphase]; nofun) (by rw [hphase]; nofun)).checkSeek (hfirst nofun nofun nofun nofun) timestamp_ms
  | seekPerformed timestamp_ms =>
    have hworking := h.working (by rw [hphase]; nofun) (by rw [hphase]; nofun)
    have hperformed : Working config { s with
        in_tag_processing_ := false
        seek_pos_ms_ := -1 } := hworking.congr rfl
    rw [SeeksKept, hphase] at hkept
    rw [hphase] at hfirst
    exact ⟨_, rfl, hperformed.checkLimit (hfirst nofun nofun nofun nofun) hkept⟩
  | tagSent =>
    have hworking := h.working (by rw [hphase]; nofun) (by rw [hphase]; nofun)
    split_ifs with hpaused hseeking
    · exact hworking.leaveLoop
    · rw [hphase] at hfirst
      exact ⟨_, rfl, hworking.paused (Nat.ne_of_gt hpaused) (hfirst nofun nofun nofun nofun)⟩
    · exact ⟨_, rfl, hworking.splitting⟩
  | sourceEnded =>
    have hc := h.control
    have hio := hc.busy (by rw [hphase]; nofun)
    have hneg := hc.stopped (Or.inr hphase)
    refine ⟨_, rfl, h.read.congr rfl, ⟨h.seek.pending, h.seek.done⟩, ⟨hc.io, ?_, ?_, fun _ => hio, fun _ => hneg,
      fun _ => rfl, nofun,
        fun hyes => ⟨(hc.first hyes).1, nofun, fun _ hne => absurd rfl hne⟩⟩, h.eof⟩
    · rw [hc.data, hphase]
      rfl
    · rw [hc.tag, hphase]
      rfl
  | eosSent =>
    have hc := h.control
    have hio := hc.busy (by rw [hphase]; nofun)
    have hstop := hc.ended hphase
    refine ⟨_, rfl, h.read.congr rfl, ⟨h.seek.pending, h.seek.done⟩, ⟨hc.io, rfl, rfl, fun hne => absurd rfl hne,
        fun _ => hc.stopped (Or.inl hstop), nofun, fun _ hcontroller => ?_,
        fun hyes => ⟨(hc.first hyes).1, fun _ => hio.trans hstop.symm, fun hne => absurd rfl hne⟩⟩, h.eof⟩
    exact absurd (hstop.symm.trans hcontroller) (by decide)

/-- One step. -/
theorem Inv.step (h : Inv config s) (e : Event) (hkept : SeeksKept config s e) :
    ∃ s', s.step config e = some s' ∧ Inv config s' := by
  cases e with
  | seek seek_pos_ms =>
    rw [AioFile.step]
    split_ifs with hmay
    · obtain ⟨_, s', hseek, hinv⟩ := h.seeks hmay.1 hkept.1 hkept.2
      rw [hseek]
      exact ⟨s', rfl, hinv⟩
    · exact ⟨s, rfl, h⟩
  | pause on =>
    rw [AioFile.step]
    split_ifs with hmay
    · exact ⟨_, rfl, h.pause hmay.2.1 hmay.1 on⟩
    · exact ⟨s, rfl, h⟩
  | resume =>
    rw [AioFile.step]
    split_ifs with hmay
    · dsimp only
      split_ifs with hio
      · -- the read that is on its way goes on
        have hc := h.control
        refine ⟨_, rfl, h.read.congr rfl, ⟨h.seek.pending, h.seek.done⟩, ⟨hc.io, hc.data, hc.tag, hc.busy,
          hc.stopped, hc.ended,
            fun _ _ _ => Or.inl hio, fun hyes => ⟨rfl, (hc.first hyes).2⟩⟩, h.eof⟩
      · exact h.resume hmay.1 hmay.2 (Bool.eq_false_iff.2 hio)
    · exact ⟨s, rfl, h⟩
  | readCompleted =>
    rw [AioFile.step]
    split_ifs with hmay
    · exact h.processAioOperation hmay.1 hmay.2
    · exact ⟨s, rfl, h⟩
  | getNextTag taken tag =>
    rw [AioFile.step]
    split_ifs with hphase
    · exact h.getNextTag hphase taken hkept
    · exact ⟨s, rfl, h⟩
  | returned => exact h.returned hkept

/-! ## Runs -/

/-- In a run that keeps its seeks no check fails, and the splitter gets the bytes of the file behind the last seek. -/
theorem delivered_while_kept (config : AioFileConfig) (events : List Event)
    (hkept : Along (AioFile.step config) (SeeksKept config) opened events) :
    ∃ s, run (AioFile.step config) opened events = some s ∧ Delivered config s := by
  obtain ⟨s, hrun, hinv⟩ := run_along (I := Inv config) (fun s e h hkept => h.step e hkept) opened_inv hkept
  exact ⟨s, hrun, hinv.delivered⟩

/-- A seek while the first tag is sent goes into a later block. -/
theorem delivered_while_kept_seek :
    ∃ s, run (AioFile.step { file := List.range 20 |>.map (·.toUInt8), block_size := 8 }) opened
        [.readCompleted, .getNextTag 2 (.cuePoints [(0, 2), (1000, 12)]), .getNextTag 2 (.ok 0), .returned, .seek 1000,
          .returned, .getNextTag 0 .noData, .readCompleted, .getNextTag 3 (.ok 1000), .returned, .returned,
          .getNextTag 0 .noData, .readCompleted] = some s ∧
      Delivered { file := List.range 20 |>.map (·.toUInt8), block_size := 8 } s :=
  delivered_while_kept _ _ (by decide +kernel)

/-- A seek to an offset in the last block behind the end of the file fails a check, and one that comes with the last tag
is lost. -/
theorem seeks_not_kept :
    (¬∀ (config : AioFileConfig) (events : List Event), ∃ s, run (AioFile.step config) opened events = some s) ∧
      ¬∀ (config : AioFileConfig) (events : List Event) (s : AioFile),
        run (AioFile.step config) opened events = some s → Delivered config s := by
  constructor
  · intro hall
    obtain ⟨s, hrun⟩ := hall { file := replicate 10 0, block_size := 8 }
      [.readCompleted, .getNextTag 2 (.cuePoints [(0, 2), (1000, 12)]), .getNextTag 2 (.ok 0), .returned, .seek 1000,
        .returned, .getNextTag 0 .noData, .readCompleted]
    have habort : run (step { file := replicate 10 0, block_size := 8 }) opened
        [.readCompleted, .getNextTag 2 (.cuePoints [(0, 2), (1000, 12)]), .getNextTag 2 (.ok 0), .returned, .seek 1000,
          .returned, .getNextTag 0 .noData, .readCompleted] = none := by decide +kernel
    cases hrun
  · intro hall
    have hlost : ∃ s, run (step { file := replicate 10 0, block_size := 16 }) opened
        [.readCompleted, .getNextTag 2 (.cuePoints [(0, 2), (1000, 4)]), .getNextTag 8 (.ok 0), .returned, .seek 1000,
          .returned, .getNextTag 0 .eof, .returned] = some s ∧ s.controller = false ∧ s.seek_offset_ = 4 :=
      ⟨_, rfl, by decide +kernel, by decide +kernel⟩
    obtain ⟨s, hrun, hstop, hpending⟩ := hlost
    have hdelivered := (hall _ _ s hrun).stopped hstop
    rw [hpending] at hdelivered
    exact absurd hdelivered (by decide)

end AioFile

end Whispercast.Stream
