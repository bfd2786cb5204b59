import Mathlib.Data.PNat.Defs
import Whispercast.Io.DataBlock
import Whispercast.Library.Run

/-!
# Reading a media file

Model of `AioFileReadingStruct` (`elements/standard_library/aio_file/aio_file_element.cc`). Blocks of the file are read
one after another and put behind each other in `buf_`, from which the splitter takes tags; a tag is sent to a callback,
and while this runs, or while nothing runs, `Seek` and `Pause` may be called. A step goes up to the next place where
other code runs: the splitter, the callback, or the selector. What the splitter takes and returns comes with the event.
The buffer of a key has the bytes of the file at the offset in the key; a buffer is always found, and every read
succeeds. Left out: the end by the parent element, and `DCHECK`, which only debug builds check (a `Seek` while
`SeekPerformedTag` is sent has its `seek_pos_ms_` reset, and its `seek_offset_` is kept).
-/

namespace Whispercast.Stream

open Library
open Io (Bytes)

/-- `CuePointTag::GetCueForTime`: the loop; `r - l` is not larger than the fuel. -/
def cueLoop (cue_points : List (Int × Int)) (t : Int) : Nat → Nat → Nat → Nat
  | 0, l, _ => l
  | fuel + 1, l, r =>
    if l + 1 < r then
      match cue_points[(r + l) / 2]? with
      | some cue =>
        if cue.1 ≤ t then cueLoop cue_points t fuel ((r + l) / 2) r
        else cueLoop cue_points t fuel l ((r + l) / 2)
      | none => l
    else l

/-- `CuePointTag::GetCueForTime`; `none` is `-1`. -/
def getCueForTime (cue_points : List (Int × Int)) (t : Int) : Option Nat :=
  if cue_points = [] then none
  else if t < 0 then some 0
  else some (cueLoop cue_points t cue_points.length 0 cue_points.length)

/-- The file, the size of a buffer, and what the request asks for. -/
structure AioFileConfig where
  file : Bytes
  block_size : ℕ+
  disable_seek_ : Bool := false
  media_origin_pos_ms_ : Nat := 0
  seek_pos_ms_ : Nat := 0
  limit_ms_ : Int := -1

/-- Where other code runs: nothing runs (`idle`), the splitter (`splitting`), or the callback, which was sent the tags of
`EndBootstrapping`, `SeekPerformedTag`, a tag, `SourceEndedTag` or `EosTag`. -/
inductive AioPhase where
  | idle
  | splitting
  | bootstrapEnded (timestamp_ms : Int)
  | seekPerformed (timestamp_ms : Int)
  | tagSent
  | sourceEnded
  | eosSent
  deriving DecidableEq

/-- `AioFileReadingStruct`, with the offset in the key of `buffer_`, whether `unpause_alarm_` is set, and whether the
request has it as its controller. The last fields are the offset where the bytes that are put in `buf_` began, these
bytes, and the offset of the last seek. -/
structure AioFile where
  buf_ : Bytes := []
  is_first_tag_ : Bool := true
  pos_ : Nat := 0
  read_skip_ : Nat := 0
  seek_pos_ms_ : Int := -1
  seek_offset_ : Int := -1
  bootstrapping_ : Bool := true
  cue_points_ : Option (List (Int × Int)) := none
  in_io_operation_ : Bool := false
  in_data_processing_ : Bool := false
  in_tag_processing_ : Bool := false
  pause_count_ : Nat := 0
  is_eof_ : Bool := false
  buffer_ : Option Nat := none
  unpause_alarm_ : Bool := false
  controller : Bool := true
  phase : AioPhase := .idle
  start : Nat := 0
  appended : Bytes := []
  wanted : Int := 0

/-- What `GetNextTag` returns; a cue point tag with its cue points. -/
inductive TagRead where
  | ok (timestamp_ms : Int)
  | cuePoints (cue_points : List (Int × Int))
  | skip
  | noData
  | corrupted
  | eof

namespace AioFile

variable (config : AioFileConfig)

/-- The data of the buffer for an offset. -/
def block (offset : Nat) : Bytes := (config.file.drop offset).take config.block_size

def initiateAioRequest (s : AioFile) : Option AioFile := do
  guard (s.in_io_operation_ = false)
  if s.buffer_ ≠ none then some s
  else
    let s :=
      if 0 ≤ s.seek_offset_ then
        { s with
          read_skip_ := s.seek_offset_.toNat % config.block_size
          pos_ := s.seek_offset_.toNat / config.block_size * config.block_size
          seek_offset_ := -1
          buf_ := []
          start := s.seek_offset_.toNat
          appended := [] }
      else s
    some { s with
      buffer_ := some s.pos_
      in_io_operation_ := true }

/-- `StopElement`, up to the tag that it sends first. -/
def stopElement (s : AioFile) : AioFile :=
  if s.bootstrapping_ then
    { s with
      bootstrapping_ := false
      controller := false
      in_tag_processing_ := true
      phase := .eosSent }
  else
    { s with
      in_tag_processing_ := true
      phase := .sourceEnded }

/-- The start of `ProcessData`. -/
def processData (s : AioFile) : Option AioFile := do
  guard (s.in_io_operation_ = false)
  guard (s.in_tag_processing_ = false)
  some { s with
    in_data_processing_ := true
    phase := .splitting }

/-- `ProcessData` behind its loop. -/
def leaveLoop (s : AioFile) : Option AioFile :=
  if s.is_eof_ ∧ s.seek_offset_ < 0 then some s.stopElement
  else initiateAioRequest config { s with
    in_data_processing_ := false
    phase := .idle }

def processAioOperation (s : AioFile) : Option AioFile := do
  guard (s.in_io_operation_ = true)
  let s := { s with in_io_operation_ := false }
  let offset ← s.buffer_
  let data := block config offset
  if 0 ≤ s.seek_offset_ then initiateAioRequest config { s with buffer_ := none }
  else if data.length = 0 then
    processData { s with
      buffer_ := none
      is_eof_ := true }
  else do
    guard (s.buf_ = [] ∨ s.read_skip_ = 0)
    let s := { s with
      buf_ := s.buf_ ++ data
      pos_ := s.pos_ + data.length
      is_eof_ := data.length < config.block_size
      buffer_ := none
      appended := s.appended ++ data.drop s.read_skip_ }
    if 0 < s.read_skip_ then do
      guard (s.read_skip_ ≤ s.buf_.length)
      processData { s with
        buf_ := s.buf_.drop s.read_skip_
        read_skip_ := 0 }
    else processData s

/-- The offset of the cue point that `Seek` finds, if it may seek and there are cue points. -/
def cueOffset (s : AioFile) (seek_pos_ms : Nat) : Option Int :=
  if config.disable_seek_ then none
  else
    s.cue_points_.bind fun cue_points =>
      (getCueForTime cue_points (seek_pos_ms + config.media_origin_pos_ms_)).bind fun found =>
        cue_points[found]?.map Prod.snd

/-- `Seek`, with what it returns. -/
def seek (s : AioFile) (seek_pos_ms : Nat) : Option (Bool × AioFile) :=
  if config.disable_seek_ then some (false, s)
  else
    match s.cue_points_ with
    | some cue_points =>
      match getCueForTime cue_points (seek_pos_ms + config.media_origin_pos_ms_) with
      | none => some (false, s)
      | some found => do
          let cue ← cue_points[found]?
          let s := { s with
            seek_pos_ms_ := seek_pos_ms + config.media_origin_pos_ms_
            seek_offset_ := cue.2
            wanted := cue.2 }
          if s.in_data_processing_ = false ∧ s.in_io_operation_ = false then
            (initiateAioRequest config s).map fun s => (true, s)
          else some (true, s)
    | none =>
      some (true, { s with
        seek_pos_ms_ := seek_pos_ms + config.media_origin_pos_ms_
        seek_offset_ := 0
        wanted := 0 })

def pause (s : AioFile) (on : Bool) : AioFile :=
  if on then { s with pause_count_ := s.pause_count_ + 1 }
  else if 1 < s.pause_count_ then { s with pause_count_ := s.pause_count_ - 1 }
  else
    { s with
      pause_count_ := 0
      unpause_alarm_ := s.unpause_alarm_ || (!s.in_tag_processing_ && !s.in_io_operation_) }

/-- Whether a tag is at the limit of the request. -/
def atLimit (timestamp_ms : Int) : Bool :=
  0 ≤ config.limit_ms_ ∧ config.media_origin_pos_ms_ + config.limit_ms_ ≤ timestamp_ms

/-- `ProcessData`, from the check of the limit on. -/
def checkLimit (s : AioFile) (timestamp_ms : Int) : AioFile :=
  if atLimit config timestamp_ms then s.stopElement
  else
    { s with
      in_tag_processing_ := true
      phase := .tagSent }

/-- `ProcessData`, from the check of a pending seek on. -/
def checkSeek (s : AioFile) (timestamp_ms : Int) : Option AioFile :=
  if 0 ≤ s.seek_offset_ then leaveLoop config s
  else if 0 ≤ s.seek_pos_ms_ then
    if timestamp_ms < s.seek_pos_ms_ then some { s with phase := .splitting }
    else
      some { s with
        bootstrapping_ := false
        in_tag_processing_ := true
        phase := .seekPerformed timestamp_ms }
  else if s.bootstrapping_ then some { s with phase := .splitting }
  else some (checkLimit config s timestamp_ms)

/-- `ProcessData` behind `GetNextTag`. -/
def nextTag (s : AioFile) (timestamp_ms : Int) : Option AioFile :=
  if s.is_first_tag_ then
    let s := { s with is_first_tag_ := false }
    if 0 < config.media_origin_pos_ms_ ∨ 0 < config.seek_pos_ms_ then do
      let (found, s) ← s.seek config config.seek_pos_ms_
      if found then leaveLoop config s else some s.stopElement
    else
      some { s with
        bootstrapping_ := false
        in_tag_processing_ := true
        phase := .bootstrapEnded timestamp_ms }
  else checkSeek config s timestamp_ms

/-- `ProcessData`, behind one call of `GetNextTag`. -/
def getNextTag (s : AioFile) : TagRead → Option AioFile
  | .ok timestamp_ms => nextTag config s timestamp_ms
  | .cuePoints cue_points => some { s with cue_points_ := some cue_points }
  | .skip => some s
  | .noData => leaveLoop config s
  | .corrupted => some s.stopElement
  | .eof => some s.stopElement

/-- The callback returns. -/
def returned (s : AioFile) : Option AioFile :=
  let s' := { s with in_tag_processing_ := false }
  match s.phase with
  | .idle => some s
  | .splitting => some s
  | .bootstrapEnded timestamp_ms => checkSeek config s' timestamp_ms
  | .seekPerformed timestamp_ms => some (checkLimit config { s' with seek_pos_ms_ := -1 } timestamp_ms)
  | .tagSent =>
    if 0 < s.pause_count_ then
      if 0 ≤ s.seek_pos_ms_ then leaveLoop config s'
      else
        some { s' with
          in_data_processing_ := false
          phase := .idle }
    else some { s' with phase := .splitting }
  | .sourceEnded =>
    some { s with
      controller := false
      phase := .eosSent }
  | .eosSent =>
    some { s' with
      in_data_processing_ := false
      phase := .idle }

/-- What happens. -/
inductive Event where
  | seek (seek_pos_ms : Nat)
  | pause (on : Bool)
  /-- `ProcessDataResume`, by the alarm. -/
  | resume
  /-- `ProcessAioOperation`, when the buffer has its data. -/
  | readCompleted
  /-- `GetNextTag` takes some bytes and returns. -/
  | getNextTag (taken : Nat) (tag : TagRead)
  | returned

/-- One step; what does not happen in a state changes nothing. -/
def step (s : AioFile) : Event → Option AioFile
  | .seek seek_pos_ms =>
    if s.controller = true ∧ s.phase ≠ .splitting then (s.seek config seek_pos_ms).map Prod.snd else some s
  | .pause on =>
    if s.controller = true ∧ s.phase ≠ .splitting ∧ (on = true ∨ 0 < s.pause_count_) then some (s.pause on) else some s
  | .resume =>
    if s.unpause_alarm_ = true ∧ s.phase = .idle then
      let s := { s with unpause_alarm_ := false }
      if s.in_io_operation_ then some s else s.processData
    else some s
  | .readCompleted =>
    if s.in_io_operation_ = true ∧ s.phase = .idle then s.processAioOperation config else some s
  | .getNextTag taken tag =>
    if s.phase = .splitting then getNextTag config { s with buf_ := s.buf_.drop taken } tag else some s
  | .returned => s.returned config

/-- A new one, behind `AddRequest`. -/
def opened : AioFile where
  buffer_ := some 0
  in_io_operation_ := true

end AioFile

end Whispercast.Stream
