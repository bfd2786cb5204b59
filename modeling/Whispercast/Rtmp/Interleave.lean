import Mathlib.Algebra.BigOperators.Group.Finset.Piecewise
import Whispercast.Rtmp.Sending

/-!
# Chunks of several channels in one stream

The chunks of different channels may come in any order as long as each channel keeps its own. A chunk
changes its channel and the account of the memory only, so every channel goes its own way, and the account
is the total size of the partial bodies at every time (`chain_of_channels`).
-/

namespace Whispercast.Rtmp

open Library Io Amf Function Finset

/-! ## The account of the memory -/

/-- The total over all channels. -/
def total (held : UInt32 → Nat) : Nat := ∑ i ∈ Finset.range 32, held (UInt32.ofNat i)

theorem total_update {id : UInt32} (hid : id < kMaxNumChannels) (held : UInt32 → Nat) (n : Nat) :
    total (Function.update held id n) + held id = total held + n := by
  have hlt : id.toNat < 32 := UInt32.lt_iff_toNat_lt.1 hid
  have hcongr : ∀ i ∈ range 32, update held id n (UInt32.ofNat i) =
      update (fun j => held (UInt32.ofNat j)) id.toNat n i := by
    intro i hi
    by_cases heq : i = id.toNat
    · rw [heq, UInt32.ofNat_toNat, update_self, update_self]
    · have hne : UInt32.ofNat i ≠ id := by
        intro hbad
        apply heq
        rw [← hbad, UInt32.toNat_ofNat', Nat.mod_eq_of_lt (Nat.lt_trans (mem_range.1 hi) (by decide))]
      rw [update_of_ne hne, update_of_ne heq]
  have hself : held (UInt32.ofNat id.toNat) = held id := by rw [UInt32.ofNat_toNat]
  rw [total, total, sum_congr rfl hcongr, sum_update_of_mem (mem_range.2 hlt),
    ← add_sum_erase _ _ (mem_range.2 hlt), sdiff_singleton_eq_erase, hself]
  omega

/-- How much of an unfinished body each channel holds after a chunk. -/
def hold (held : UInt32 → Nat) (k : WireChunk) : UInt32 → Nat :=
  Function.update held k.channel (if k.last then 0 else held k.channel + k.chunk.data.length)

/-- With each chunk, the unfinished bodies stay within the limit. -/
def WithinLimit (limit : Int) : (UInt32 → Nat) → List WireChunk → Prop
  | _, [] => True
  | held, k :: ks => (total held : Int) + k.chunk.data.length ≤ limit ∧ WithinLimit limit (hold held k) ks

/-- The sizes of the partial bodies. -/
def Coder.held (c : Coder) (id : UInt32) : Nat := (c.channel id).body.length

/-- `memory_used_` is the total size of the partial bodies. -/
def Coder.Accounted (c : Coder) : Prop := c.memory_used_ = total c.held

/-! ## Every channel goes its own way -/

/-- Chunks that are in order on every channel are taken by the reader in any order of the channels. -/
theorem chain_of_channels {size : Nat} {mix : List SentChunk} {r : Coder} {fin : UInt32 → ChannelState}
    (hchannels : ∀ id, Session.Chain (Takes size) (r.channel id)
      (mix.filter fun t => t.wire.channel = id) (fin id))
    (hids : ∀ t ∈ mix, t.wire.channel < kMaxNumChannels) (hsize : r.read_chunk_size_ = size)
    (hkeep : ∀ t ∈ mix, ∀ e, t.frame.out = some e → Coder.chunkSizeAfter size e.body = size)
    (hmem : r.Accounted) (hlimit : WithinLimit r.memory_limit_ r.held (mix.map SentChunk.wire)) :
    ∃ r', Session.Chain (Session.Steps Coder.decodeChunk) r (mix.map SentChunk.frame) r' ∧
      (∀ id, r'.channel id = fin id) ∧ r'.Accounted ∧ r'.read_chunk_size_ = size ∧
      r'.memory_limit_ = r.memory_limit_ := by
  induction mix generalizing r with
  | nil => exact ⟨r, .nil r, fun id => (hchannels id).nil_inv, hmem, hsize, rfl⟩
  | cons t mix ih =>
    have hid := hids t List.mem_cons_self
    -- The channel of the first chunk takes it.
    have hown := hchannels t.wire.channel
    rw [List.filter_cons_of_pos (by rw [decide_eq_true rfl])] at hown
    obtain ⟨s', ⟨hstep, hbody⟩, hrest⟩ := hown.cons_inv
    have hroom : r.memory_used_ + t.wire.chunk.data.length ≤ r.memory_limit_ := by
      rw [hmem]
      exact hlimit.1
    obtain ⟨r', htake⟩ := hstep r rfl hsize hroom
    have hheld : r'.held = hold r.held t.wire := by
      funext id
      by_cases heq : id = t.wire.channel
      · rw [heq, hold, update_self, Coder.held, htake.channel, hbody]
        rfl
      · rw [hold, update_of_ne heq, Coder.held, htake.others id heq]
        rfl
    have haccount : r'.Accounted := by
      have htotal := total_update hid r.held s'.body.length
      have hupdate : hold r.held t.wire = update r.held t.wire.channel s'.body.length := by
        rw [hold, hbody]
        rfl
      have hown : r.held t.wire.channel = (r.channel t.wire.channel).body.length := rfl
      rw [Coder.Accounted, htake.memory, hmem, hheld, hupdate]
      omega
    have hsize' : r'.read_chunk_size_ = size := by
      rw [htake.chunk_size]
      cases hout : t.frame.out with
      | none => exact hsize
      | some e =>
        rw [← hkeep t List.mem_cons_self e hout, ← hsize]
        rfl
    have hchannels' : ∀ id, Session.Chain (Takes size) (r'.channel id)
        (mix.filter fun t => t.wire.channel = id) (fin id) := by
      intro id
      by_cases heq : id = t.wire.channel
      · rw [heq, htake.channel]
        exact hrest
      · have hother := hchannels id
        rw [List.filter_cons_of_neg (by rw [decide_eq_true_iff]; exact fun h => heq h.symm)] at hother
        rw [htake.others id heq]
        exact hother
    obtain ⟨r'', hchain, hfin, hmem', hsize'', hlim⟩ := ih hchannels'
      (fun u hu => hids u (List.mem_cons_of_mem _ hu)) hsize'
      (fun u hu => hkeep u (List.mem_cons_of_mem _ hu)) haccount
      (by rw [htake.limit, hheld]; exact hlimit.2)
    exact ⟨r'', .cons htake.steps hchain, hfin, hmem', hsize'', hlim.trans htake.limit⟩

end Whispercast.Rtmp
