import Whispercast.Library.ByteOrder
import Whispercast.Library.Reader
import Whispercast.Io.DataBlock

/-!
# Numbers in streams

Model of `common/io/num_streaming.h` on the readable bytes of a stream. `ReadNumber` has a `CHECK` that
all bytes of the number are there, so its callers look at `Size()` first. The host is little-endian, and a
number in the other order has its bytes swapped.
-/

namespace Whispercast.Io

open Library Reader

/-- What ends a reading function without a value. -/
inductive Stop (σ : Type) where
  /-- The function returns this status. -/
  | status (s : σ)
  /-- A `CHECK` fails. -/
  | check
  /-- The bound on the recursion of the model is reached; no result of the source corresponds to it. -/
  | fuel
  deriving DecidableEq

/-- A reading function with statuses `σ` on the bytes of a stream. -/
abbrev StreamReader (σ α : Type) : Type := Reader UInt8 (Stop σ) α

/-- The byte order of a number in a stream. -/
inductive ByteOrder where
  | bigEndian
  | lilEndian

/-- An array of `n` bytes. -/
abbrev FixedBytes (n : Nat) : Type := { bs : Bytes // bs.length = n }

namespace NumStreamer

/-- `WriteNumber` of a number with `n` bytes. -/
def writeNumber (n : Nat) : ByteOrder → Nat → Bytes
  | .bigEndian, v => beBytes n v
  | .lilEndian, v => leBytes n v

def writeByte (b : UInt8) : Bytes := [b]
def writeInt16 (x : Int16) (order : ByteOrder) : Bytes := writeNumber 2 order x.toUInt16.toNat
def writeUInt24 (x : Nat) (order : ByteOrder) : Bytes := writeNumber 3 order x
def writeInt32 (x : Int32) (order : ByteOrder) : Bytes := writeNumber 4 order x.toUInt32.toNat
def writeUInt32 (x : UInt32) (order : ByteOrder) : Bytes := writeNumber 4 order x.toNat
def writeUInt16 (x : UInt16) (order : ByteOrder) : Bytes := writeNumber 2 order x.toNat
def writeUInt64 (x : UInt64) (order : ByteOrder) : Bytes := writeNumber 8 order x.toNat
def writeDouble (x : UInt64) (order : ByteOrder) : Bytes := writeNumber 8 order x.toNat

@[simp] theorem writeNumber_length (n : Nat) (order : ByteOrder) (v : Nat) : (writeNumber n order v).length = n := by
  cases order with
  | bigEndian => exact beBytes_length n v
  | lilEndian => exact leBytes_length n v

section

variable {σ : Type}

/-- The number that bytes in the given order stand for. -/
def numberOf : ByteOrder → Bytes → Nat
  | .bigEndian, bs => beValue bs
  | .lilEndian, bs => leValue bs

/-- `ReadNumber` of a number with `n` bytes. -/
def readNumber (n : Nat) (order : ByteOrder) : StreamReader σ Nat := do
  let bs ← Reader.take n .check
  pure (numberOf order bs)

def readByte : StreamReader σ UInt8 := do
  let v ← readNumber 1 .lilEndian
  pure (UInt8.ofNat v)

/-- `PeekByte`: the byte stays in the stream. -/
def peekByte : StreamReader σ UInt8 := Reader.lookahead readByte

def readUInt16 (order : ByteOrder) : StreamReader σ UInt16 := do
  let v ← readNumber 2 order
  pure (UInt16.ofNat v)

def readInt16 (order : ByteOrder) : StreamReader σ Int16 := do
  let v ← readNumber 2 order
  pure (UInt16.ofNat v).toInt16

def readUInt24 (order : ByteOrder) : StreamReader σ Nat := readNumber 3 order

def readInt32 (order : ByteOrder) : StreamReader σ Int32 := do
  let v ← readNumber 4 order
  pure (UInt32.ofNat v).toInt32

def readUInt32 (order : ByteOrder) : StreamReader σ UInt32 := do
  let v ← readNumber 4 order
  pure (UInt32.ofNat v)

def readUInt64 (order : ByteOrder) : StreamReader σ UInt64 := do
  let v ← readNumber 8 order
  pure (UInt64.ofNat v)

def readDouble (order : ByteOrder) : StreamReader σ UInt64 := do
  let v ← readNumber 8 order
  pure (UInt64.ofNat v)

/-- `Read` into an array of `n` bytes, all of which are there. -/
def readBytes (n : Nat) : StreamReader σ (FixedBytes n) := fun s =>
  if h : n ≤ s.length then (.ok ⟨s.take n, List.length_take_of_le h⟩, s.drop n) else (.error .check, s)

/-! ## Reading from a stream that is long enough -/

variable (order : ByteOrder)

theorem readNumber_run {n : Nat} {s : Bytes} (h : n ≤ s.length) :
    (readNumber n order : StreamReader σ Nat) s = (.ok (numberOf order (s.take n)), s.drop n) :=
  bind_ok (take_of_le _ h) _

theorem readByte_run (b : UInt8) (s : Bytes) : (readByte : StreamReader σ UInt8) (b :: s) = (.ok b, s) := by
  have hnum : (readNumber 1 .lilEndian : StreamReader σ Nat) (b :: s) = (.ok (b.toNat + 256 * 0), s) :=
    readNumber_run .lilEndian (Nat.le_add_left 1 _)
  have hread : (readByte : StreamReader σ UInt8) (b :: s) = (.ok (UInt8.ofNat (b.toNat + 256 * 0)), s) :=
    bind_ok hnum _
  rwa [Nat.mul_zero, Nat.add_zero, UInt8.ofNat_toNat] at hread

/-! ## What was written is read -/

theorem numberOf_writeNumber {n v : Nat} (h : v < 256 ^ n) : numberOf order (writeNumber n order v) = v := by
  cases order with
  | bigEndian => exact beValue_beBytes_of_lt h
  | lilEndian => exact leValue_leBytes_of_lt h

theorem readNumber_gets {n v : Nat} (h : v < 256 ^ n) :
    Reader.Gets (readNumber n order : StreamReader σ Nat) (writeNumber n order v) v := by
  have htake : Gets (take n .check : StreamReader σ Bytes) (writeNumber n order v) _ :=
    Gets.take _ (writeNumber_length n order v)
  have hget := htake.bind_pure (numberOf order)
  rwa [numberOf_writeNumber order h] at hget

theorem readByte_gets (b : UInt8) : Reader.Gets (readByte : StreamReader σ UInt8) [b] b := by
  intro rest
  exact readByte_run b rest

theorem readUInt24_gets {v : Nat} (h : v < 2 ^ 24) :
    Reader.Gets (readUInt24 order : StreamReader σ Nat) (writeUInt24 v order) v :=
  readNumber_gets order h

theorem readUInt16_gets {v : Nat} (h : v < 2 ^ 16) :
    Reader.Gets (readUInt16 order : StreamReader σ UInt16) (writeNumber 2 order v) (UInt16.ofNat v) :=
  (readNumber_gets order h).bind_pure UInt16.ofNat

theorem readUInt32_gets (x : UInt32) (order : ByteOrder) :
    Reader.Gets (readUInt32 order : StreamReader σ UInt32) (writeUInt32 x order) x := by
  have hlt : x.toNat < 256 ^ 4 := UInt32.toNat_lt x
  have hget : Gets (readUInt32 order : StreamReader σ UInt32) _ (UInt32.ofNat x.toNat) :=
    (readNumber_gets order hlt).bind_pure UInt32.ofNat
  rwa [UInt32.ofNat_toNat] at hget

theorem readUInt64_gets (x : UInt64) (order : ByteOrder) :
    Reader.Gets (readUInt64 order : StreamReader σ UInt64) (writeUInt64 x order) x := by
  have hlt : x.toNat < 256 ^ 8 := UInt64.toNat_lt x
  have hget : Gets (readUInt64 order : StreamReader σ UInt64) _ (UInt64.ofNat x.toNat) :=
    (readNumber_gets order hlt).bind_pure UInt64.ofNat
  rwa [UInt64.ofNat_toNat] at hget

theorem readInt16_gets (x : Int16) (order : ByteOrder) :
    Reader.Gets (readInt16 order : StreamReader σ Int16) (writeInt16 x order) x := by
  have hlt : x.toUInt16.toNat < 256 ^ 2 := UInt16.toNat_lt x.toUInt16
  have hget : Gets (readInt16 order : StreamReader σ Int16) _
      (UInt16.ofNat x.toUInt16.toNat).toInt16 :=
    (readNumber_gets order hlt).bind_pure fun v => (UInt16.ofNat v).toInt16
  rw [UInt16.ofNat_toNat] at hget
  exact hget

theorem readInt32_gets (x : Int32) (order : ByteOrder) :
    Reader.Gets (readInt32 order : StreamReader σ Int32) (writeInt32 x order) x := by
  have hlt : x.toUInt32.toNat < 256 ^ 4 := UInt32.toNat_lt x.toUInt32
  have hget : Gets (readInt32 order : StreamReader σ Int32) _
      (UInt32.ofNat x.toUInt32.toNat).toInt32 :=
    (readNumber_gets order hlt).bind_pure fun v => (UInt32.ofNat v).toInt32
  rw [UInt32.ofNat_toNat] at hget
  exact hget

theorem readDouble_gets (x : UInt64) (order : ByteOrder) :
    Reader.Gets (readDouble order : StreamReader σ UInt64) (writeDouble x order) x := by
  have hlt : x.toNat < 256 ^ 8 := UInt64.toNat_lt x
  have hget : Gets (readDouble order : StreamReader σ UInt64) _ (UInt64.ofNat x.toNat) :=
    (readNumber_gets order hlt).bind_pure UInt64.ofNat
  rwa [UInt64.ofNat_toNat] at hget

end

end NumStreamer

end Whispercast.Io
