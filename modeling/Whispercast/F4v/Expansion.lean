import Whispercast.F4v.SampleTables

/-!
# Sample tables, expanded

What the sample tables say when they are written out: the place of a sample is its chunk and its number in it, and the
other tables have one entry for each sample. `ExtractFrames` walks over the compact tables with a cursor in each of them;
it builds the frames of the expansion, or none at all when `STSC` has more records than there are chunks
(`extractFrames_eq`).
-/

namespace Whispercast.F4v

open Library RunLength List SampleTables

namespace SampleTables

/-! ## The expansion -/

/-- The number of samples in a chunk: that of the last record that begins with it or before it. -/
def samplesPerChunk (stsc : List StscRecord) (chunk : Nat) : Nat :=
  ((stsc.filter fun r => r.firstChunk ≤ chunk).getLast?.map StscRecord.samplesPerChunk).getD 0

/-- The samples of chunks that are numbered from `first` on: the offset of the chunk, and the number in the chunk. -/
def placesFrom (stsc : List StscRecord) (first : Nat) (chunks : List Nat) : List (Nat × Nat) :=
  (chunks.zipIdx first).flatMap fun c => (List.range (samplesPerChunk stsc c.2)).map (Prod.mk c.1)

/-- The samples that the chunk runs reach. -/
def places (t : SampleTables) : List (Nat × Nat) := placesFrom t.stsc 1 t.stco

/-- The time of a sample, in clocks. -/
def clock (t : SampleTables) (i : Nat) : Nat := ((expand t.stts).take i).sum

/-- The offset of the composition of a sample, in clocks. -/
def composition (t : SampleTables) (i : Nat) : Int := (expand (t.ctts.getD [])).getD i 0

/-- Clocks in milliseconds. The product is an `int64`. -/
def milliseconds (t : SampleTables) (clocks : Nat) : Int := (toInt64 ((clocks : Int) * 1000)).tdiv t.timeScale

/-- The frame of sample `i`, which lies in a chunk at `place.1` behind `place.2` other samples. -/
def frameOf (t : SampleTables) (audio : Bool) (place : Nat × Nat) (i : Nat) : FrameHeader where
  offset := ((place.1 + ((t.stsz.take i).drop (i - place.2)).sum : Nat) : Int)
  size := (t.stsz.getD i 0 : Nat)
  decodingTimestamp := t.milliseconds (t.clock i)
  compositionOffsetMs := (t.composition i * 1000).tdiv t.timeScale
  duration := ((expand t.stts).getD i 0 * 1000 / t.timeScale : Nat)
  sampleIndex := t.clock i + t.composition i
  type := frameType audio
  isKeyframe := decide (i + 1 ∈ t.stss.getD [])

/-- One frame for each entry of `STSZ` that the chunk runs reach. -/
def expansion (t : SampleTables) (audio : Bool) : List FrameHeader :=
  (t.places.take t.stsz.length).zipIdx.map fun p => t.frameOf audio p.1 p.2

/-- The records of `STSC` begin with the first chunk, and each of them begins behind the one before. -/
structure Numbered (stsc : List StscRecord) : Prop where
  first : stsc.head?.map StscRecord.firstChunk = some 1
  increasing : stsc.Pairwise fun r r' => r.firstChunk < r'.firstChunk

/-! ## The records of chunks -/

/-- In front of a chunk the current record begins no later than the chunk, and those behind it no earlier. -/
structure Current (stsc : List StscRecord) (chunk : Nat) (record : StscRecord) (rest : List StscRecord) : Prop where
  split : ∃ pre, stsc = pre ++ record :: rest
  begun : record.firstChunk ≤ chunk
  ahead : ∀ r ∈ rest, chunk ≤ r.firstChunk

variable {rest : List StscRecord} {record : StscRecord}

theorem samplesPerChunk_eq {stsc pre : List StscRecord} {chunk : Nat}
    (hsplit : stsc = pre ++ record :: rest) (hbegun : record.firstChunk ≤ chunk)
    (hahead : ∀ r ∈ rest, chunk < r.firstChunk) : samplesPerChunk stsc chunk = record.samplesPerChunk := by
  have hrest : rest.filter (fun r => decide (r.firstChunk ≤ chunk)) = [] := by
    rw [filter_eq_nil_iff]
    intro r hr
    have hlt := hahead r hr
    simpa using hlt
  rw [samplesPerChunk, hsplit, filter_append, filter_cons_of_pos (by simpa using hbegun), hrest,
    getLast?_append]
  rfl

/-- The record that is taken for a chunk is the one that says its number of samples. -/
theorem nextStsc_eq {stsc : List StscRecord} (hstsc : Numbered stsc) {chunk : Nat} (h : Current stsc chunk record rest) :
    ∃ record' rest', nextStsc chunk record rest = some (record', rest') ∧
      record'.samplesPerChunk = samplesPerChunk stsc chunk ∧ Current stsc (chunk + 1) record' rest' := by
  obtain ⟨⟨pre, hsplit⟩, hbegun, hahead⟩ := h
  have hpairs := hstsc.increasing
  rw [hsplit, pairwise_append, pairwise_cons] at hpairs
  cases rest with
  | nil =>
    refine ⟨record, [], rfl, (samplesPerChunk_eq hsplit hbegun (by simp)).symm, ⟨pre, hsplit⟩, by omega, by simp⟩
  | cons next rest =>
    have hlt : record.firstChunk < next.firstChunk := hpairs.2.1.1 next mem_cons_self
    have hle : chunk ≤ next.firstChunk := hahead next mem_cons_self
    have hbehind : ∀ r ∈ rest, next.firstChunk < r.firstChunk := (pairwise_cons.1 hpairs.2.1.2).1
    rw [nextStsc, if_neg (by omega)]
    by_cases heq : next.firstChunk = chunk
    · have hsplit' : stsc = (pre ++ [record]) ++ next :: rest := by rw [hsplit, append_assoc]; rfl
      rw [if_pos heq]
      refine ⟨next, rest, rfl, (samplesPerChunk_eq hsplit' (by omega) fun r hr => ?_).symm, ⟨_, hsplit'⟩, by omega,
        fun r hr => ?_⟩
      · have hr := hbehind r hr
        omega
      · have hr := hbehind r hr
        omega
    · have hall : ∀ r ∈ next :: rest, chunk < r.firstChunk := by
        intro r hr
        rcases mem_cons.1 hr with rfl | hr
        · omega
        · have hr := hbehind r hr
          omega
      rw [if_neg heq]
      exact ⟨record, next :: rest, rfl, (samplesPerChunk_eq hsplit hbegun hall).symm, ⟨pre, hsplit⟩, by omega, hall⟩

/-! ## The samples -/

/-- The frame of a sample before the keyframes are known. -/
def plainFrame (t : SampleTables) (audio : Bool) (p : (Nat × Nat) × Nat) : FrameHeader :=
  { t.frameOf audio p.1 p.2 with isKeyframe := false }

/-- The samples at the places `done` have been walked over. -/
structure Walked (t : SampleTables) (audio : Bool) (done : List (Nat × Nat)) (s : Walk) : Prop where
  time : s.decodingTime = t.clock done.length
  stts : s.stts.expand = (expand t.stts).drop done.length
  ctts : s.ctts.expand = (expand (t.ctts.getD [])).drop done.length
  frames : s.frames = done.zipIdx.map (t.plainFrame audio)

variable (t : SampleTables)

theorem clock_succ (i : Nat) : t.clock (i + 1) = t.clock i + (expand t.stts).getD i 0 := by
  rw [clock, clock, take_add_one, sum_append, getD_eq_getElem?_getD]
  cases (expand t.stts)[i]? <;> simp

/-- As long as the product fits, the milliseconds are those of the clocks, rounded down. -/
theorem milliseconds_eq {clocks : Nat} (hfits : 1000 * clocks < 2 ^ 63) :
    t.milliseconds clocks = ((1000 * clocks / t.timeScale : Nat) : Int) := by
  have hproduct : toInt64 ((clocks : Int) * 1000) = ((1000 * clocks : Nat) : Int) := by
    rw [toInt64, Int.bmod_eq_of_le] <;> omega
  rw [milliseconds, hproduct, Int.ofNat_tdiv]

variable {done : List (Nat × Nat)}

/-- One sample is taken from every table. -/
theorem Walked.addSample {t : SampleTables} {audio : Bool} {s : Walk}
    (h : Walked t audio done s) {place : Nat × Nat} {offset size : Nat} (hsize : t.stsz[done.length]? = some size)
    (hoffset : offset = place.1 + ((t.stsz.take done.length).drop (done.length - place.2)).sum) :
    Walked t audio (done ++ [place]) (t.addSample audio s offset size) := by
  have hdelta : s.stts.next.1.getD 0 = (expand t.stts).getD done.length 0 := by
    rw [Cursor.next_fst, h.stts, List.head?_drop, getD_eq_getElem?_getD]
  have hcomposition : (if t.ctts.isSome then s.ctts.next else (none, s.ctts)).1.getD 0 = t.composition done.length := by
    cases hctts : t.ctts with
    | none => simp [composition, hctts]
    | some records =>
      rw [composition, getD_eq_getElem?_getD, ← List.head?_drop, ← h.ctts, ← Cursor.next_fst]
      rfl
  refine ⟨?_, ?_, ?_, ?_⟩
  · rw [length_append, List.length_singleton, clock_succ, ← hdelta, Int.natCast_add, ← h.time]
    rfl
  · rw [length_append, List.length_singleton, ← List.tail_drop, ← h.stts, ← Cursor.expand_next]
    rfl
  · rw [length_append, List.length_singleton, ← List.tail_drop, ← h.ctts]
    cases hctts : t.ctts with
    | none =>
      have hnil : s.ctts.expand = [] := by rw [h.ctts, hctts]; exact List.drop_nil
      simp [SampleTables.addSample, hctts, hnil]
    | some records => simp [SampleTables.addSample, hctts, Cursor.expand_next]
  · rw [List.zipIdx_append, List.map_append, ← h.frames]
    simp only [SampleTables.addSample, hdelta, hcomposition, h.time]
    simp only [List.zipIdx_singleton, map_cons, map_nil, plainFrame, frameOf, milliseconds, Nat.zero_add,
      getD_eq_getElem?_getD, hsize, Option.getD_some, hoffset]
/-- The samples of a chunk, as long as there are sizes. -/
theorem Walked.addChunk {t : SampleTables} {audio : Bool} (chunk : Nat) (sizes : List Nat)
    {n k : Nat} {s : Walk} {offset : Nat} (h : Walked t audio done s)
    (hsizes : sizes = t.stsz.drop done.length) (hk : k ≤ done.length)
    (hoffset : offset = chunk + ((t.stsz.take done.length).drop (done.length - k)).sum) :
    let ps := ((range n).map fun j => (chunk, k + j)).take sizes.length
    Walked t audio (done ++ ps) (t.addChunk audio sizes n offset s).2 ∧
      (t.addChunk audio sizes n offset s).1 = t.stsz.drop (done ++ ps).length := by
  induction sizes generalizing n k done s offset with
  | nil =>
    simp only [length_nil, take_zero, append_nil, addChunk]
    exact ⟨h, hsizes⟩
  | cons size sizes ih =>
    cases n with
    | zero =>
      simp only [range_zero, map_nil, take_nil, append_nil, addChunk]
      exact ⟨h, hsizes⟩
    | succ n =>
      have hlt : done.length < t.stsz.length := by
        by_contra hge
        rw [drop_eq_nil_of_le (Nat.le_of_not_lt hge)] at hsizes
        cases hsizes
      rw [drop_eq_getElem_cons hlt, List.cons.injEq] at hsizes
      obtain ⟨hsize, hrest⟩ := hsizes
      have hget : t.stsz[done.length]? = some size := by rw [getElem?_eq_getElem hlt, hsize]
      have hplaced : offset = (chunk, k).1 + ((t.stsz.take done.length).drop (done.length - (chunk, k).2)).sum :=
        hoffset
      have hstep := h.addSample hget hplaced
      have hlen : (done ++ [(chunk, k)]).length = done.length + 1 := by simp
      have hsum : ((t.stsz.take (done.length + 1)).drop (done.length + 1 - (k + 1))).sum =
          ((t.stsz.take done.length).drop (done.length - k)).sum + size := by
        rw [take_add_one, hget, Nat.add_sub_add_right, drop_append_of_le_length (by simp; omega)]
        simp
      have hoffset' : offset + size = chunk + ((t.stsz.take (done ++ [(chunk, k)]).length).drop
          ((done ++ [(chunk, k)]).length - (k + 1))).sum := by
        rw [hlen, hsum, hoffset]
        omega
      have hih := ih (n := n) (k := k + 1) hstep (by rw [hlen]; exact hrest) (by rw [hlen]; omega) hoffset'
      have hps : ((range (n + 1)).map fun j => (chunk, k + j)).take (size :: sizes).length =
          (chunk, k) :: ((range n).map fun j => (chunk, k + 1 + j)).take sizes.length := by
        rw [range_succ_eq_map, map_cons, map_map, length_cons, take_succ_cons]
        simp only [Nat.add_zero, Function.comp_def, Nat.add_succ, Nat.succ_add]
      dsimp only
      rw [hps, append_cons, addChunk]
      exact hih

/-! ## The chunks -/

theorem placesFrom_cons (stsc : List StscRecord) (first chunk : Nat) (chunks : List Nat) :
    placesFrom stsc first (chunk :: chunks) =
      (List.range (samplesPerChunk stsc first)).map (Prod.mk chunk) ++ placesFrom stsc (first + 1) chunks := by
  rw [placesFrom, zipIdx_cons, flatMap_cons]
  rfl

/-- The loop over the chunks walks over the samples of all of them, as long as there are sizes. -/
theorem Walked.addChunks {t : SampleTables} {audio : Bool} (hstsc : Numbered t.stsc)
    (chunks : List Nat) {chunkIndex : Nat}
    {s : Walk} (hcurrent : Current t.stsc chunkIndex record rest) (h : Walked t audio done s) :
    ∃ s', t.addChunks audio chunks chunkIndex record rest (t.stsz.drop done.length) s = some s' ∧
      Walked t audio (done ++ (placesFrom t.stsc chunkIndex chunks).take (t.stsz.length - done.length)) s' := by
  induction chunks generalizing chunkIndex record rest done s with
  | nil =>
    refine ⟨s, rfl, ?_⟩
    rw [placesFrom, zipIdx_nil, flatMap_nil, take_nil, append_nil]
    exact h
  | cons chunk chunks ih =>
    obtain ⟨record', _, hnext, hsamples, hcurrent'⟩ := nextStsc_eq hstsc hcurrent
    have hoffset : chunk = chunk + ((t.stsz.take done.length).drop (done.length - 0)).sum := by
      rw [Nat.sub_zero, drop_eq_nil_of_le (length_take_le _ _)]
      rfl
    obtain ⟨hwalked, hleft⟩ := h.addChunk (n := record'.samplesPerChunk) chunk _ rfl (Nat.zero_le _) hoffset
    simp only [Nat.zero_add, length_drop] at hwalked hleft
    obtain ⟨s', hrun, hwalked'⟩ := ih hcurrent' hwalked
    refine ⟨s', ?_, ?_⟩
    · rw [addChunks, hnext]
      dsimp only
      rw [hleft]
      exact hrun
    · rw [placesFrom_cons, ← hsamples, take_append, ← append_assoc]
      rw [length_append, length_take, length_map, length_range] at hwalked'
      rw [length_map, length_range]
      have hleft' : t.stsz.length - (done.length + min (t.stsz.length - done.length) record'.samplesPerChunk) =
          t.stsz.length - done.length - record'.samplesPerChunk := by omega
      rw [hleft'] at hwalked'
      exact hwalked'

/-! ## Keyframes -/

theorem getElem?_setKeyframes (keyframes : List Nat) (frames : List FrameHeader) (i : Nat) :
    (setKeyframes frames keyframes)[i]? =
      frames[i]?.map fun f => { f with isKeyframe := f.isKeyframe || decide (i + 1 ∈ keyframes) } := by
  induction keyframes generalizing frames with
  | nil => cases hf : frames[i]? <;> simp [setKeyframes, hf]
  | cons keyframe keyframes ih =>
    rw [setKeyframes, List.foldl_cons]
    refine (ih _).trans ?_
    by_cases hillegal : keyframe < 1 ∨ frames.length < keyframe
    · -- The number is that of no frame.
      rw [if_pos hillegal]
      cases hf : frames[i]? with
      | none => rfl
      | some f =>
        have hlt : i < frames.length := (List.getElem?_eq_some_iff.1 hf).1
        have hne : i + 1 ≠ keyframe := by omega
        simp [hne]
    · rw [if_neg hillegal, List.getElem?_modify]
      cases hf : frames[i]? with
      | none => rfl
      | some f =>
        by_cases heq : keyframe - 1 = i
        · have hmem : i + 1 = keyframe := by omega
          simp [heq, hmem]
        · have hne : i + 1 ≠ keyframe := by omega
          simp [heq, hne]

/-- The keyframes are those of the expansion. -/
theorem setKeyframes_plain (audio : Bool) (done : List (Nat × Nat)) :
    setKeyframes (done.zipIdx.map (t.plainFrame audio)) (t.stss.getD []) =
      done.zipIdx.map fun p => t.frameOf audio p.1 p.2 := by
  refine ext_getElem? fun i => ?_
  rw [getElem?_setKeyframes, getElem?_map, getElem?_map, getElem?_zipIdx]
  cases done[i]? with
  | none => rfl
  | some place => simp [plainFrame, frameOf]

/-! ## `ExtractFrames` -/

theorem buildFrames_eq (audio : Bool) (hscale : 0 < t.timeScale) (hstsc : Numbered t.stsc) :
    t.buildFrames audio = if t.stsc.length ≤ t.stco.length then some (t.expansion audio) else none := by
  rw [buildFrames]
  by_cases hle : t.stsc.length ≤ t.stco.length
  · rw [if_neg (Nat.not_lt.2 hle), if_pos hle]
    cases hrecords : t.stsc with
    | nil =>
      have hfirst := hstsc.first
      rw [hrecords] at hfirst
      cases hfirst
    | cons record rest =>
      have hfirst : record.firstChunk = 1 := by
        have hfirst := hstsc.first
        rw [hrecords] at hfirst
        exact Option.some.inj hfirst
      have hcurrent : Current t.stsc 1 record rest := by
        refine ⟨⟨[], hrecords⟩, by omega, fun r hr => ?_⟩
        have hpairs := hstsc.increasing
        rw [hrecords, pairwise_cons] at hpairs
        have hlt := hpairs.1 r hr
        omega
      have hstart : Walked t audio [] ⟨0, .start 0 t.stts, .start 0 (t.ctts.getD []), []⟩ :=
        ⟨rfl, Cursor.expand_start _ _, Cursor.expand_start _ _, rfl⟩
      obtain ⟨s, hrun, hwalked⟩ := hstart.addChunks hstsc t.stco hcurrent
      rw [length_nil, drop_zero] at hrun
      dsimp only
      rw [if_neg (by omega), hrun, Option.map_some, hwalked.frames, setKeyframes_plain]
      rfl
  · rw [if_pos (Nat.lt_of_not_le hle), if_neg hle]

end SampleTables

/-- Of tables whose `STSC` records begin with the first chunk and go up, whatever the other tables are, `ExtractFrames`
builds the frames of the expansion, with their times in milliseconds as long as these can be counted; if there are more
`STSC` records than chunks it builds none. -/
theorem extractFrames_eq (moov : MoovAtom) (audio : Bool) {t : SampleTables} (htables : moov.tables audio = some t)
    (hscale : 0 < t.timeScale) (hstsc : SampleTables.Numbered t.stsc) :
    extractFrames moov audio = (if t.stsc.length ≤ t.stco.length then t.expansion audio else []) ∧
      ∀ i, 1000 * t.clock i < 2 ^ 63 → t.milliseconds (t.clock i) = ((1000 * t.clock i / t.timeScale : Nat) : Int) := by
  refine ⟨?_, fun i hfits => t.milliseconds_eq hfits⟩
  rw [extractFrames, htables, Option.bind_some, t.buildFrames_eq audio hscale hstsc]
  split_ifs <;> rfl

/-- A track with the given tables. -/
def trackOf (volume : Nat) (t : SampleTables) : TrakAtom :=
  ⟨some volume, some ⟨some t.timeScale, some ⟨some
    ⟨some t.stsz, some t.stco, some t.stsc, some t.stts, t.ctts, t.stss⟩⟩⟩⟩

/-- Five samples in three chunks, of which the last has no room for all of its samples; the runs of `STTS` end early. -/
def fiveSamples : SampleTables where
  timeScale := 90000
  stsz := [10, 20, 30, 40, 50]
  stco := [1000, 2000, 3000]
  stsc := [⟨1, 2⟩, ⟨3, 3⟩]
  stts := [(1, 3600), (0, 7), (2, 1800)]
  ctts := some [(0, 5), (2, 900)]
  stss := some [1, 4, 9]

theorem extractFrames_fiveSamples : extractFrames ⟨[trackOf 0 fiveSamples]⟩ false =
        (if fiveSamples.stsc.length ≤ fiveSamples.stco.length then fiveSamples.expansion false else []) ∧
      ∀ i, 1000 * fiveSamples.clock i < 2 ^ 63 → fiveSamples.milliseconds (fiveSamples.clock i) =
        ((1000 * fiveSamples.clock i / fiveSamples.timeScale : Nat) : Int) :=
  extractFrames_eq ⟨[trackOf 0 fiveSamples]⟩ false rfl (by decide) ⟨rfl, by decide⟩

/-- Two records for one chunk: there is a sample to be reached, and no frame. -/
theorem not_extractFrames_eq :
    extractFrames ⟨[trackOf 0 { fiveSamples with stsz := [10], stco := [1000] }]⟩ false = [] ∧
      ({ fiveSamples with stsz := [10], stco := [1000] } : SampleTables).expansion false ≠ [] := by
  decide

end Whispercast.F4v
