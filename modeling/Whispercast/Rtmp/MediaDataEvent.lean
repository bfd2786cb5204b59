import Whispercast.Flv.Serializer

/-!
# Media data events

Model of `MediaDataEvent` (`rtmp/events/rtmp_event.cc`): several tags in one event. A tag is written without the size of
the tag before it, which goes in front of the next one, so behind every tag there are four bytes that the decoder skips.
The timestamps are those that are given to `EncodeAddTag`; in the event they count from the first one, in 32 bits with a
sign. Sizes are natural numbers, and the header of the event is left out.
-/

namespace Whispercast.Rtmp

open Library Io Flv List Body NumStreamer

structure MediaDataEvent where
  data_ : Bytes := []
  first_tag_ts_ : Int := -1
  previous_tag_size_ : UInt32 := 0
  duration_ms_ : Int := 0

namespace MediaDataEvent

/-! ## The code -/

/-- What `EncodeAddTag` writes for a tag, with the time since the first one. -/
def element (tag : FlvTag) (ts : Int) : Bytes :=
  NumStreamer.writeByte tag.body_.type.toByte ++ (NumStreamer.writeUInt24 tag.body_.size.toNat .bigEndian ++
    (NumStreamer.writeUInt24 (ts % 2 ^ 24).toNat .bigEndian ++
      (NumStreamer.writeByte (UInt8.ofNat (ts / 2 ^ 24 % 256).toNat) ++
        (NumStreamer.writeUInt24 tag.stream_id_ .bigEndian ++ tag.body_.encode))))

def encodeAddTag (e : MediaDataEvent) (tag : FlvTag) (timestamp_ms : Int) : MediaDataEvent :=
  let first := if e.first_tag_ts_ = -1 then timestamp_ms else e.first_tag_ts_
  let ts := timestamp_ms - first
  let previous :=
    if 0 < e.previous_tag_size_ then NumStreamer.writeInt32 e.previous_tag_size_.toInt32 .bigEndian else []
  { data_ := e.data_ ++ (previous ++ element tag ts)
    first_tag_ts_ := first
    previous_tag_size_ := UInt32.ofNat (element tag ts).length
    duration_ms_ := ts }

/-- `EncodeAddTag` for each tag. -/
def encodeAddTags (e : MediaDataEvent) (tags : List (FlvTag × Int)) : MediaDataEvent :=
  tags.foldl (fun e t => e.encodeAddTag t.1 t.2) e

def encodeFinalize (e : MediaDataEvent) : MediaDataEvent :=
  { e with data_ := e.data_ ++ NumStreamer.writeInt32 0 .bigEndian }

/-- The fields in front of a body. -/
structure ElementHead where
  type : UInt8
  size : Nat
  timestamp_delta_low : Nat
  timestamp_delta_hi : UInt8
  stream_id : Nat

/-- The reads at the start of the loop of `DecodeTags`. -/
def readHead : TagReader ElementHead := do
  let type ← NumStreamer.readByte
  let size ← NumStreamer.readUInt24 .bigEndian
  let timestamp_delta_low ← NumStreamer.readUInt24 .bigEndian
  let timestamp_delta_hi ← NumStreamer.readByte
  let stream_id ← NumStreamer.readUInt24 .bigEndian
  pure ⟨type, size, timestamp_delta_low, timestamp_delta_hi, stream_id⟩

/-- The `int32` of the two parts of a timestamp. -/
def ElementHead.timestamp (h : ElementHead) : Int32 :=
  Int32.ofNat (h.timestamp_delta_low ||| (h.timestamp_delta_hi.toNat <<< 24))

/-- The loop of `DecodeTags`; every pass takes more than ten bytes. -/
def decodeLoop (timestamp_ms : Int) : Nat → Bytes → List FlvTag
  | 0, _ => []
  | fuel + 1, data =>
    if 11 < data.length then
      match readHead data with
      | (.error _, _) => []
      | (.ok head, data') =>
        match FlvFrameType.ofByte head.type with
        | none => []
        | some frame_type =>
          match Body.decode frame_type data' head.size with
          | ((.ok, body), data'') =>
            ⟨Attributes.none, timestamp_ms + head.timestamp.toInt, head.stream_id, body, none⟩ ::
              decodeLoop timestamp_ms fuel (data''.drop 4)
          | _ => []
    else []

/-- `DecodeTags`: the tags, and the event with its data as they were. -/
def decodeTags (e : MediaDataEvent) (timestamp_ms : Int) : List FlvTag × MediaDataEvent :=
  if e.data_ = [] then ([], e)
  else
    let marked := e.data_
    (decodeLoop timestamp_ms e.data_.length e.data_, { e with data_ := marked })

/-! ## Bodies -/

/-- The body of an AAC audio tag or of an AVC video tag is long enough for the flags that are read from it. -/
def hasFlags : Body → Bool
  | .audio a => a.flags_.format_ != flvFlagSoundFormatAac || decide (4 ≤ a.data_.length)
  | .video v => v.flags_.codec_ != flvFlagVideoCodecAvc || decide (5 ≤ v.data_.length)
  | .metadata _ => true

theorem audio_status {a : Audio} (h : 0 < a.data_.length) :
    (decodeAudioFlags AudioFlags.initial a.data_).1 = .ok ↔ hasFlags (.audio a) = true := by
  rcases a with ⟨data, -, rfl⟩
  cases data with
  | nil => exact absurd h (Nat.lt_irrefl 0)
  | cons fb rest =>
    change (decodeAudioFlags AudioFlags.initial (fb :: rest)).1 = .ok ↔
      ((decodeAudioFlags AudioFlags.initial (fb :: rest)).2.format_ != flvFlagSoundFormatAac ||
        decide (4 ≤ (fb :: rest).length)) = true
    rw [decodeAudioFlags.eq_def]
    dsimp only
    by_cases haac : (fb &&& 0xF0) >>> 4 = flvFlagSoundFormatAac
    · rw [if_pos haac]
      match rest with
      | [] => simp [haac]
      | [_] => simp [haac]
      | [_, _] => simp [haac]
      | _ :: _ :: _ :: _ => simp
    · rw [if_neg haac]
      simp [haac]

theorem video_status {v : Video} (h : 0 < v.data_.length) :
    (decodeVideoFlags VideoFlags.initial v.data_).1 = .ok ↔ hasFlags (.video v) = true := by
  rcases v with ⟨data, -, rfl⟩
  cases data with
  | nil => exact absurd h (Nat.lt_irrefl 0)
  | cons fb rest =>
    change (decodeVideoFlags VideoFlags.initial (fb :: rest)).1 = .ok ↔
      ((decodeVideoFlags VideoFlags.initial (fb :: rest)).2.codec_ != flvFlagVideoCodecAvc ||
        decide (5 ≤ (fb :: rest).length)) = true
    rw [decodeVideoFlags.eq_def]
    dsimp only
    by_cases havc : fb &&& 0x0F = flvFlagVideoCodecAvc
    · rw [if_pos havc]
      match rest with
      | [] => simp [havc]
      | [_] => simp [havc]
      | [_, _] => simp [havc]
      | [_, _, _] => simp [havc]
      | _ :: _ :: _ :: _ :: _ => simp
    · rw [if_neg havc]
      simp [havc]

/-- The encoding of a body is decoded to the body, and the status says whether it has its flags. -/
theorem decode_body {body : Body} (h : BodyEncodable body) (rest : Bytes) :
    ∃ status, Body.decode body.type (body.encode ++ rest) body.encode.length = ((status, body), rest) ∧
      (status = .ok ↔ hasFlags body = true) := by
  obtain ⟨hbody, hrest⟩ := body_decode_encode h rest
  refine ⟨(decode body.type (body.encode ++ rest) body.encode.length).1.1, ?_, ?_⟩
  · exact Prod.ext (Prod.ext rfl hbody) hrest
  · have hlen : ∀ data : Bytes, ¬ (data ++ rest).length < data.length := by
      intro data
      rw [length_append]
      omega
    cases body with
    | audio a =>
      rw [type, encode, decode, if_neg (hlen a.data_), take_left]
      exact audio_status h
    | video v =>
      rw [type, encode, decode, if_neg (hlen v.data_), take_left]
      exact video_status h
    | metadata m =>
      rw [type, encode, decode, metadata_decode_encode h]
      simp [hasFlags]

/-! ## Elements -/

/-- A difference of 32 bits with a sign, put together from its two fields. -/
theorem timestamp_of_parts {ts : Int} (hlow : -2 ^ 31 ≤ ts) (hhigh : ts < 2 ^ 31) :
    (Int32.ofNat ((ts % 2 ^ 24).toNat ||| ((UInt8.ofNat (ts / 2 ^ 24 % 256).toNat).toNat <<< 24))).toInt = ts := by
  have hparts := timestamp_parts (t := (ts % 2 ^ 32).toNat) (by omega)
  have hlow24 : (ts % 2 ^ 24).toNat = (ts % 2 ^ 32).toNat % 2 ^ 24 := by omega
  have hhigh8 : (ts / 2 ^ 24 % 256).toNat = (ts % 2 ^ 32).toNat / 2 ^ 24 % 256 := by omega
  rw [hlow24, hhigh8, hparts, Int32.toInt_ofNat']
  have hmod : (((ts % 2 ^ 32).toNat : Nat) : Int) = ts % 2 ^ 32 := Int.toNat_of_nonneg (by omega)
  rw [hmod]
  have hbmod : (ts % 2 ^ 32).bmod Int32.size = ts.bmod Int32.size := Int.emod_bmod ts Int32.size
  rw [hbmod]
  exact Int.bmod_eq_of_le (by exact hlow) (by exact hhigh)

/-- A tag that an event can hold, with its timestamp: its body is encodable and fits the size field, as does its stream
id, and the time since the first tag fits in 32 bits with a sign. -/
structure Holdable (first : Int) (t : FlvTag × Int) : Prop where
  body : BodyEncodable t.1.body_
  fits : FitsTag t.1
  stream : t.1.stream_id_ < 2 ^ 24
  nonneg : 0 ≤ t.2
  low : -2 ^ 31 ≤ t.2 - first
  high : t.2 - first < 2 ^ 31

/-- What is decoded for a tag: its body and its stream id, under its timestamp. -/
def received (t : FlvTag × Int) : FlvTag := ⟨Attributes.none, t.2, t.1.stream_id_, t.1.body_, none⟩

variable {first : Int} {t : FlvTag × Int}

theorem readHead_element (h : Holdable first t) (rest : Bytes) : readHead (element t.1 (t.2 - first) ++ rest) =
      (.ok ⟨t.1.body_.type.toByte, t.1.body_.encode.length, ((t.2 - first) % 2 ^ 24).toNat,
        UInt8.ofNat ((t.2 - first) / 2 ^ 24 % 256).toNat, t.1.stream_id_⟩, t.1.body_.encode ++ rest) := by
  have hsize : t.1.body_.size.toNat = t.1.body_.encode.length := body_size_toNat h.body h.fits
  have hfits : t.1.body_.encode.length < 2 ^ 24 := h.fits
  have hlow : ((t.2 - first) % 2 ^ 24).toNat < 2 ^ 24 := by omega
  rw [element, hsize]
  simp only [append_assoc, writeByte]
  rw [readHead, Reader.bind_ok (readByte_gets _ _), Reader.bind_ok (readUInt24_gets _ hfits _),
    Reader.bind_ok (readUInt24_gets _ hlow _), Reader.bind_ok (readByte_gets _ _),
    Reader.bind_ok (readUInt24_gets _ h.stream _)]
  rfl

theorem element_length (tag : FlvTag) (ts : Int) : (element tag ts).length = 11 + tag.body_.encode.length := by
  simp only [element, writeByte, writeUInt24, length_append, writeNumber_length,
    length_singleton]
  omega

/-- One pass of the loop: a tag whose body has its flags is decoded, and another one ends the loop. -/
theorem decodeLoop_element (h : Holdable first t) (fuel : Nat) {trailer : Bytes} (htrailer : trailer.length = 4)
    (rest : Bytes) :
    decodeLoop first (fuel + 1) (element t.1 (t.2 - first) ++ (trailer ++ rest)) =
      if hasFlags t.1.body_ = true then received t :: decodeLoop first fuel rest else [] := by
  have hmore : 11 < (element t.1 (t.2 - first) ++ (trailer ++ rest)).length := by
    rw [length_append, length_append, element_length, htrailer]
    omega
  obtain ⟨_, hdecode, hstatus⟩ := decode_body h.body (trailer ++ rest)
  rw [decodeLoop, if_pos hmore, readHead_element h]
  dsimp only
  rw [FlvFrameType.ofByte_toByte]
  dsimp only
  rw [hdecode]
  by_cases hflags : hasFlags t.1.body_ = true
  · obtain rfl := hstatus.2 hflags
    have hts : first + (t.2 - first) = t.2 := by omega
    rw [if_pos hflags]
    dsimp only
    rw [← htrailer, drop_left, ElementHead.timestamp]
    rw [timestamp_of_parts h.low h.high, hts]
    rfl
  · rw [if_neg hflags]
    split
    · next heq =>
        cases heq
        exact absurd (hstatus.1 rfl) hflags
    · rfl

/-! ## The whole event -/

/-- The data of an event: behind every tag there are four more bytes. -/
inductive Elements (first : Int) : List (FlvTag × Int) → Bytes → Prop where
  | nil : Elements first [] []
  | cons (t : FlvTag × Int) {tags : List (FlvTag × Int)} {trailer rest : Bytes} (htrailer : trailer.length = 4)
      (hrest : Elements first tags rest) :
      Elements first (t :: tags) (element t.1 (t.2 - first) ++ (trailer ++ rest))

/-- The tags before the first one whose body does not have its flags. -/
def decodable (tags : List (FlvTag × Int)) : List (FlvTag × Int) := tags.takeWhile fun t => hasFlags t.1.body_

/-- Elements are decoded up to the first body that does not have its flags. -/
theorem Elements.decode {tags : List (FlvTag × Int)} {data : Bytes} (h : Elements first tags data)
    (htags : ∀ t ∈ tags, Holdable first t) {fuel : Nat} (hfuel : data.length ≤ fuel) :
    decodeLoop first fuel data = (decodable tags).map received := by
  induction h generalizing fuel with
  | nil =>
    cases fuel with
    | zero => rfl
    | succ fuel => rfl
  | cons t htrailer hrest ih =>
    rw [length_append, length_append, element_length] at hfuel
    cases fuel with
    | zero => exact absurd hfuel (by omega)
    | succ fuel =>
      rw [decodeLoop_element (htags t mem_cons_self) fuel htrailer, decodable, takeWhile_cons]
      by_cases hflags : hasFlags t.1.body_ = true
      · rw [if_pos hflags, if_pos hflags, ih (fun t' ht' => htags t' (mem_cons_of_mem _ ht')) (by omega)]
        rfl
      · rw [if_neg hflags, if_neg hflags]
        rfl

theorem previous_pos {n : Nat} (h : n < 2 ^ 24) : 0 < UInt32.ofNat (11 + n) := by
  rw [UInt32.lt_iff_toNat_lt, UInt32.toNat_ofNat', Nat.mod_eq_of_lt (by omega)]
  exact Nat.lt_of_lt_of_le (by decide) (Nat.le_add_right 11 n)

/-- Behind a first tag, every tag puts the size of the one before it in front. -/
theorem encodeAddTags_elements {e : MediaDataEvent} (tags : List (FlvTag × Int)) (hfirst : e.first_tag_ts_ = first)
    (hstarted : first ≠ -1) (hprevious : 0 < e.previous_tag_size_) (htags : ∀ t ∈ tags, Holdable first t) :
    ∃ trailer rest : Bytes, (e.encodeAddTags tags).encodeFinalize.data_ = e.data_ ++ (trailer ++ rest) ∧
      trailer.length = 4 ∧ Elements first tags rest := by
  induction tags generalizing e with
  | nil =>
    refine ⟨writeInt32 0 .bigEndian, [], ?_, writeNumber_length _ _ _, .nil⟩
    rw [append_nil]
    rfl
  | cons t tags ih =>
    have ht := htags t mem_cons_self
    have hfits : t.1.body_.encode.length < 2 ^ 24 := ht.fits
    have hadd : e.encodeAddTag t.1 t.2 =
        { data_ := e.data_ ++ (writeInt32 e.previous_tag_size_.toInt32 .bigEndian ++
            element t.1 (t.2 - first))
          first_tag_ts_ := first
          previous_tag_size_ := UInt32.ofNat (11 + t.1.body_.encode.length)
          duration_ms_ := t.2 - first } := by
      rw [encodeAddTag, hfirst, if_neg hstarted, if_pos hprevious, element_length]
    have hsize : 0 < UInt32.ofNat (11 + t.1.body_.encode.length) := previous_pos hfits
    obtain ⟨trailer, rest, hdata, htrailer, hrest⟩ := ih (e := e.encodeAddTag t.1 t.2) (by rw [hadd])
      (by rw [hadd]; exact hsize) fun t' ht' => htags t' (mem_cons_of_mem _ ht')
    refine ⟨writeInt32 e.previous_tag_size_.toInt32 .bigEndian,
      element t.1 (t.2 - first) ++ (trailer ++ rest), ?_, writeNumber_length _ _ _,
      .cons t htrailer hrest⟩
    have hstep : (e.encodeAddTags (t :: tags)) = (e.encodeAddTag t.1 t.2).encodeAddTags tags := rfl
    rw [hstep, hdata, hadd]
    simp only [append_assoc]

/-- The data of an event that is finalized: the elements, or four bytes where there is no tag. -/
theorem encoded_elements {tags : List (FlvTag × Int)} (hne : tags ≠ []) (hfirst : ∀ t ∈ tags.head?, t.2 = first)
    (htags : ∀ t ∈ tags, Holdable first t) :
    Elements first tags (({} : MediaDataEvent).encodeAddTags tags).encodeFinalize.data_ := by
  cases tags with
  | nil => exact absurd rfl hne
  | cons t tags =>
    have ht := htags t mem_cons_self
    have hts : t.2 = first := hfirst t rfl
    have hnonneg : 0 ≤ first := hts ▸ ht.nonneg
    have hfits : t.1.body_.encode.length < 2 ^ 24 := ht.fits
    have hadd : ({} : MediaDataEvent).encodeAddTag t.1 t.2 =
        { data_ := element t.1 (t.2 - first)
          first_tag_ts_ := first
          previous_tag_size_ := UInt32.ofNat (11 + t.1.body_.encode.length)
          duration_ms_ := t.2 - first } := by
      rw [encodeAddTag, if_pos rfl, if_neg (by decide), element_length, hts]
      rfl
    have hsize : 0 < UInt32.ofNat (11 + t.1.body_.encode.length) := previous_pos hfits
    obtain ⟨_, _, hdata, htrailer, hrest⟩ := encodeAddTags_elements
      (e := ({} : MediaDataEvent).encodeAddTag t.1 t.2) tags (by rw [hadd]) (by omega) (by rw [hadd]; exact hsize)
      fun t' ht' => htags t' (mem_cons_of_mem _ ht')
    have hstep : ({} : MediaDataEvent).encodeAddTags (t :: tags) =
        (({} : MediaDataEvent).encodeAddTag t.1 t.2).encodeAddTags tags := rfl
    rw [hstep, hdata, hadd]
    exact .cons t htrailer hrest

/-- The tags of an event are decoded as they were added, up to the first one whose body does not have its flags, and the
data of the event stay as they are. -/
theorem decodeTags_encoded (timestamp_ms : Int) (tags : List (FlvTag × Int))
    (hfirst : ∀ t ∈ tags.head?, t.2 = timestamp_ms) (htags : ∀ t ∈ tags, Holdable timestamp_ms t) :
    (({} : MediaDataEvent).encodeAddTags tags).encodeFinalize.decodeTags timestamp_ms =
      ((decodable tags).map received, (({} : MediaDataEvent).encodeAddTags tags).encodeFinalize) := by
  by_cases hnil : tags = []
  · subst hnil
    rfl
  · have helements := encoded_elements hnil hfirst htags
    have hne : (({} : MediaDataEvent).encodeAddTags tags).encodeFinalize.data_ ≠ [] := by
      rw [encodeFinalize]
      intro hempty
      exact cons_ne_nil _ _ (append_eq_nil_iff.1 hempty).2
    rw [decodeTags, if_neg hne]
    rw [helements.decode htags (Nat.le_refl _)]

/-- An audio tag of three bytes, and a key frame at an earlier time. -/
def twoTags : List (FlvTag × Int) :=
  [(⟨Attributes.none, 1000, 7, .audio (Audio.ofData [0x2F, 1, 2]), none⟩, 1000),
    (⟨Attributes.none, 990, 7, .video (Video.ofData [0x12, 0]), none⟩, 990)]

theorem twoTags_decoded : ((({} : MediaDataEvent).encodeAddTags twoTags).encodeFinalize.decodeTags 1000).1.map
      (fun tag => (tag.timestamp_ms_, tag.stream_id_, tag.data)) =
        [(1000, 7, some [0x2F, 1, 2]), (990, 7, some [0x12, 0])] := by
  have htags : ∀ t ∈ twoTags, Holdable 1000 t := by
    intro t ht
    rcases mem_cons.1 ht with rfl | ht
    · exact ⟨Nat.succ_pos 2, by rw [FitsTag]; decide, by decide, by decide, by decide, by decide⟩
    · rw [mem_singleton.1 ht]
      exact ⟨Nat.succ_pos 1, by rw [FitsTag]; decide, by decide, by decide, by decide, by decide⟩
  rw [decodeTags_encoded 1000 twoTags (fun t ht => by cases ht; rfl) htags]
  rfl

/-- An AAC audio tag of two bytes. -/
def shortAac : FlvTag × Int := (⟨Attributes.none, 0, 0, .audio (Audio.ofData [0xAF, 0x01]), none⟩, 0)

/-- An AAC tag of two bytes is not decoded: its body is read only up to the flags. -/
theorem shortAac_not_decoded :
    ¬ ∀ (timestamp_ms : Int) (tags : List (FlvTag × Int)), (∀ t ∈ tags.head?, t.2 = timestamp_ms) →
      (∀ t ∈ tags, Holdable timestamp_ms t) →
      (({} : MediaDataEvent).encodeAddTags tags).encodeFinalize.decodeTags timestamp_ms =
        (tags.map received, (({} : MediaDataEvent).encodeAddTags tags).encodeFinalize) := by
  intro h
  have htags : ∀ t ∈ [shortAac], Holdable 0 t := by
    intro t ht
    rw [mem_singleton.1 ht]
    exact ⟨Nat.succ_pos 1, by rw [FitsTag]; decide, by decide, by decide, by decide, by decide⟩
  have hall := congrArg (fun r => r.1.length) (h 0 [shortAac] (fun t ht => by cases ht; rfl) htags)
  exact absurd hall (by decide +kernel)

end MediaDataEvent

end Whispercast.Rtmp
