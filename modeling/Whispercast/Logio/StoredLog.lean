import Whispercast.Logio.LogCursor

/-!
# A log of any blocks

What a new `LogReader` delivers from a log in which each block is sound or damaged, whatever chain of checksums it has
been written in. `GetNextRecord` gives what repeated calls of `ReadRecord` on the blocks give.
-/

namespace Whispercast.Logio

open Io Library RecordReader List LogReader

/-- A log of these blocks is on the disk, from file 0 on. There may be other files behind it. -/
structure StoredLog (p : LogParams) (d : Disk) (ss : List Stored) : Prop where
  ok : ∀ s ∈ ss, s.Ok p.toReaderParams
  pos : 0 < p.block_size_ * p.blocks_per_file_
  first : d.first = some 0
  file : ∀ n, n * (p.block_size_ * p.blocks_per_file_) ≤ (ss.flatMap (Stored.bytes p.toReaderParams)).length →
    d.file n = some (((ss.flatMap (Stored.bytes p.toReaderParams)).drop (n * (p.block_size_ * p.blocks_per_file_))).take
      (p.block_size_ * p.blocks_per_file_))
  diskSize : (ss.flatMap (Stored.bytes p.toReaderParams)).length ≤ LogReader.diskSize d

variable {p : LogParams} {d : Disk} {ss done todo : List Stored} {s : Stored} {f b n errors : Nat} {reader : RecordReader}
  {buf : Bytes}

/-! ## Blocks -/

namespace StoredLog

theorem blocks (h : StoredLog p d ss) : HoldsBlocks p d (ss.flatMap (Stored.bytes p.toReaderParams)) ss.length where
  pos := h.pos
  length := length_flatMap_bytes h.ok
  file := h.file

/-- The next block is read. -/
theorem readBlock_next (h : StoredLog p d ss) (hss : ss = done ++ s :: todo)
    (hpos : f * p.blocks_per_file_ + b = done.length) (hb : b ≤ p.blocks_per_file_) (hc : reader.content_ = []) :
    ∃ f' b', f' * p.blocks_per_file_ + b' = done.length + 1 ∧ b' ≤ p.blocks_per_file_ ∧
      LogReader.readBlock p d (logAt p f b 0 reader [] errors) =
        some (true, logAt p f' b' 0 reader (s.bytes p.toReaderParams) errors) := by
  have hs := Stored.Ok.length (h.ok s (hss ▸ mem_append_right _ mem_cons_self))
  have hle : f * p.blocks_per_file_ + b ≤ ss.length := by rw [hpos, hss, length_append]; omega
  obtain ⟨f', b', hpos', hb', hread⟩ := h.blocks.readBlock hle hb hc errors
  rw [hpos] at hpos' hle
  have hdone : (done.flatMap (Stored.bytes p.toReaderParams)).length = done.length * p.block_size_ :=
    length_flatMap_bytes fun s hs => h.ok s (hss ▸ mem_append_left _ hs)
  have hbytes : fileRead p d ⟨f', b' * p.block_size_⟩ = s.bytes p.toReaderParams := by
    rw [h.blocks.fileRead hle hpos' hb', hss, flatMap_append, drop_left' hdone, flatMap_cons]
    exact take_left' hs
  refine ⟨f', b' + 1, by omega, hb', ?_⟩
  rw [hread, readHere, logAt, Option.bind_some, if_neg (by simp), hbytes, if_neg (by omega), logAt, Nat.succ_mul]

end StoredLog

/-! ## Results -/

/-- The record reader, with what is in the buffer, is to give these results, and then those of the blocks that are not
read yet. -/
structure Stands (p : LogParams) (todo : List Stored) (reader : RecordReader) (buf : Bytes)
    (results : List (ReadResult × Bytes)) : Prop where
  drains : ∃ here a last, Drains p.toReaderParams reader buf here (between a last) [] ∧
    results = here ++ (readAll p.toReaderParams a last todo).1

/-- A result that is not the end of the data is given at once. -/
theorem nextLoop_result (d : Disk) (fuel f b n errors : Nat) {result : ReadResult} {data buf' : Bytes}
    {reader' : RecordReader} (h : Returns p.toReaderParams true reader buf (result, data, reader', buf'))
    (hresult : result ≠ .noData) :
    LogReader.nextLoop p d (fuel + 1) (logAt p f b n reader buf errors) =
      some (true, data, logAt p f b (n + 1) reader' buf' (if result ≠ .ok then errors + 1 else errors)) := by
  rw [nextLoop, readRecord_logAt f b n errors h, Option.bind_some]
  exact if_neg hresult

/-- The next result is given. -/
theorem StoredLog.nextLoop (h : StoredLog p d ss) {results : List (ReadResult × Bytes)} {fuel : Nat}
    (hss : ss = done ++ todo) (hpos : f * p.blocks_per_file_ + b = done.length) (hb : b ≤ p.blocks_per_file_)
    (hstands : Stands p todo reader buf results) (hfuel : todo.length < fuel) :
    (results = [] ∧ ∃ r, LogReader.nextLoop p d fuel (logAt p f b n reader buf errors) = some (false, [], r)) ∨
      ∃ result data results' f' b' n' errors' reader' buf' done' todo', results = (result, data) :: results' ∧
        LogReader.nextLoop p d fuel (logAt p f b n reader buf errors) =
          some (true, data, logAt p f' b' n' reader' buf' errors') ∧
        ss = done' ++ todo' ∧ f' * p.blocks_per_file_ + b' = done'.length ∧ b' ≤ p.blocks_per_file_ ∧
        Stands p todo' reader' buf' results' := by
  induction todo generalizing f b n reader buf done fuel with
  | nil =>
    obtain ⟨fuel, rfl⟩ : ∃ k, fuel = k + 1 := ⟨fuel - 1, by omega⟩
    obtain ⟨here, a, last, hdrains, rfl⟩ := hstands.drains
    cases hdrains with
    | done hreturns =>
      rw [append_nil] at hss
      obtain ⟨r, hblock⟩ := h.blocks.readBlock_end (hss ▸ hpos) hb (show (between a last).content_ = [] from rfl) errors
      refine Or.inl ⟨rfl, r, ?_⟩
      rw [nextLoop, readRecord_logAt f b n errors hreturns, Option.bind_some]
      exact congrArg (fun x => Option.bind x _) hblock
    | more hreturns hresult _ hrest =>
      exact Or.inr ⟨_, _, _, f, b, n + 1, _, _, _, done, [], rfl, nextLoop_result d fuel f b n errors hreturns hresult,
        hss, hpos, hb, ⟨_, a, last, hrest, rfl⟩⟩
  | cons s todo ih =>
    obtain ⟨fuel, rfl⟩ : ∃ k, fuel = k + 1 := ⟨fuel - 1, by omega⟩
    obtain ⟨here, a, last, hdrains, rfl⟩ := hstands.drains
    cases hdrains with
    | done hreturns =>
      obtain ⟨f', b', hpos', hb', hblock⟩ :=
        @readBlock_next p d ss done todo s f b errors (between a last) h hss hpos hb rfl
      have hs := h.ok s (hss ▸ mem_append_right _ mem_cons_self)
      have hend := @Drains.stored p.toReaderParams (between a last) _ [] [] s hs rfl [] h.blocks.size_pos
        (.done (Returns.noData rfl h.blocks.size_pos))
      rw [append_nil, append_nil] at hend
      have hnext := @ih (done ++ [s]) f' b' 0 (between a last) (s.bytes p.toReaderParams) fuel
        (by rw [hss, append_assoc]; rfl) (by rw [hpos', length_append]; rfl) hb'
        ⟨_, _, _, hend, rfl⟩ (Nat.lt_of_succ_lt_succ hfuel)
      -- The turn that finds no data goes on in the block.
      have hturn : nextLoop p d (fuel + 1) (logAt p f b n reader buf errors) =
          nextLoop p d fuel (logAt p f' b' 0 (between a last) (s.bytes p.toReaderParams) errors) := by
        rw [nextLoop, readRecord_logAt f b n errors hreturns, Option.bind_some]
        exact congrArg (fun x => Option.bind x _) hblock
      rw [hturn]
      exact hnext
    | more hreturns hresult _ hrest =>
      exact Or.inr ⟨_, _, _, f, b, n + 1, _, _, _, done, s :: todo, rfl, nextLoop_result d fuel f b n errors hreturns hresult,
        hss, hpos, hb, ⟨_, a, last, hrest, rfl⟩⟩

/-- The results that are to come are delivered. -/
theorem StoredLog.delivers_at (h : StoredLog p d ss) {results : List (ReadResult × Bytes)} (hss : ss = done ++ todo)
    (hpos : f * p.blocks_per_file_ + b = done.length) (hb : b ≤ p.blocks_per_file_)
    (hstands : Stands p todo reader buf results) {r : LogReader}
    (hr : getNextRecord p d r = LogReader.nextLoop p d (LogReader.diskSize d + 2) (logAt p f b n reader buf errors)) :
    Delivers p d r (results.map Prod.snd) := by
  have hfuel : ∀ todo done : List Stored, ss = done ++ todo → todo.length < LogReader.diskSize d + 2 := by
    intro todo done hss
    have hlen := h.blocks.length
    have hsize := h.diskSize
    have hle : ss.length * 1 ≤ ss.length * p.block_size_ := Nat.mul_le_mul_left _ h.blocks.size_pos
    have hcut := congrArg List.length hss
    rw [length_append] at hcut
    omega
  induction results generalizing f b n reader buf errors done todo r with
  | nil =>
    rcases h.nextLoop (n := n) hss hpos hb hstands (hfuel todo done hss) with ⟨-, _, hend⟩ | hmore
    · exact .done (hr.trans hend)
    · obtain ⟨result, data, results', -, -, -, -, -, -, -, -, heq, -⟩ := hmore
      cases heq
  | cons y results ih =>
    rcases h.nextLoop (n := n) hss hpos hb hstands (hfuel todo done hss) with ⟨heq, -⟩ | hmore
    · cases heq
    · obtain ⟨result, data, results', f', b', n', errors', reader', buf', _, _, heq, hnext, hss', hpos', hb',
        hstands'⟩ := hmore
      cases heq
      exact .more (hr.trans hnext) (ih hss' hpos' hb' hstands' (getNextRecord_logAt p d f' b' n' reader' buf' errors'))

/-- A new reader delivers what the blocks give. -/
theorem StoredLog.delivers (h : StoredLog p d ss) :
    Delivers p d {} ((readAll p.toReaderParams {} 0 ss).1.map Prod.snd) := by
  have hstands : Stands p ss {} [] (readAll p.toReaderParams {} 0 ss).1 :=
    ⟨[], {}, 0, .done (Returns.noData rfl h.blocks.size_pos), rfl⟩
  have hrewind : LogReader.rewind d {} = { file_num_ := 0 } := by
    rw [LogReader.rewind, h.first]
    rfl
  have hopen : LogReader.openFile d 0 { file_num_ := 0 } = some (true, logAt p 0 0 0 {} [] 0) :=
    h.blocks.openFile (f := 0) (by simp) { file_num_ := 0 }
  have hnext : getNextRecord p d {} =
      LogReader.nextLoop p d (LogReader.diskSize d + 2) (logAt p 0 0 0 {} [] 0) := by
    rw [getNextRecord, if_pos rfl, hrewind]
    rw [if_neg (by decide), if_pos rfl, hopen]
    rfl
  exact h.delivers_at (show ss = [] ++ ss from rfl) (by simp) (Nat.zero_le _) hstands hnext

end Whispercast.Logio
