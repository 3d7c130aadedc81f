import Mathlib.Algebra.Ring.Nat
import Mathlib.Data.Int.Notation
import Mathlib.Data.List.Basic

/-!
# The buffers of the legacy RPC

A buffer is a vector with two indices. What counts is the part between them, `readable`; the
operations are described by what they do to it. To their callers it is a queue of bytes: where
they lie in the vector, and how long that is, does not show. All sizes are C ints, and one that
is none has no result.
-/

namespace DdeCooperation.Zrpc

open List

abbrev Bytes := List UInt8

structure TcpBuffer where
  buffer : Bytes
  readIndex : ℕ
  writeIndex : ℕ
  deriving DecidableEq

namespace TcpBuffer

def ofSize (size : ℕ) : TcpBuffer := ⟨List.replicate size 0, 0, 0⟩

def readAble (buf : TcpBuffer) : ℕ := buf.writeIndex - buf.readIndex

def writeAble (buf : TcpBuffer) : ℕ := buf.buffer.length - buf.writeIndex

def getSize (buf : TcpBuffer) : ℕ := buf.buffer.length

/-- The bytes to be read, moved to the front of a vector of zeros. -/
def moved (size count : ℕ) (buf : TcpBuffer) : Bytes :=
  let copied := (buf.buffer.drop buf.readIndex).take count
  copied ++ List.replicate (size - copied.length) 0

def resizeBuffer (size : ℕ) (buf : TcpBuffer) : Option TcpBuffer :=
  let c := min size buf.readAble
  if size < 2 ^ 31 then some { buffer := buf.moved size c, readIndex := 0, writeIndex := c }
  else none

def adjustBuffer (buf : TcpBuffer) : TcpBuffer :=
  if buf.readIndex > buf.buffer.length / 3 then
    { buffer := buf.moved buf.buffer.length buf.readAble, readIndex := 0, writeIndex := buf.readAble }
  else buf

/-- The bytes are put into the vector at the write index, which stays where it is. The vector
keeps its length: what does not fit in is not stored. -/
def store (bytes : Bytes) (buf : TcpBuffer) : TcpBuffer :=
  { buf with buffer := (buf.buffer.take buf.writeIndex ++ bytes ++
      buf.buffer.drop (buf.writeIndex + bytes.length)).take buf.buffer.length }

def writeToBuffer (bytes : Bytes) (buf : TcpBuffer) : Option TcpBuffer := do
  let buf ←
    if bytes.length > buf.writeAble then buf.resizeBuffer (3 * (buf.writeIndex + bytes.length) / 2)
    else some buf
  return { buf.store bytes with writeIndex := buf.writeIndex + bytes.length }

/-- What is read takes the place of `re`, which an empty buffer leaves as it is. -/
def readFromBuffer (re : Bytes) (size : ℕ) (buf : TcpBuffer) : Bytes × TcpBuffer :=
  if buf.readAble = 0 then (re, buf)
  else
    let readSize := if buf.readAble > size then size else buf.readAble
    ((buf.buffer.drop buf.readIndex).take readSize,
      adjustBuffer { buf with readIndex := buf.readIndex + readSize })

def clearBuffer (_ : TcpBuffer) : TcpBuffer := ⟨[], 0, 0⟩

def recycleRead (index : ℤ) (buf : TcpBuffer) : TcpBuffer :=
  let j := buf.readIndex + index
  if j > buf.buffer.length then buf else adjustBuffer { buf with readIndex := j.toNat }

def recycleWrite (index : ℕ) (buf : TcpBuffer) : TcpBuffer :=
  let j := buf.writeIndex + index
  if j > buf.buffer.length then buf else adjustBuffer { buf with writeIndex := j }

/-! ## What can be read -/

structure Valid (buf : TcpBuffer) : Prop where
  read : buf.readIndex ≤ buf.writeIndex
  write : buf.writeIndex ≤ buf.buffer.length
  size : buf.buffer.length < 2 ^ 31

def readable (buf : TcpBuffer) : Bytes := (buf.buffer.take buf.writeIndex).drop buf.readIndex

variable {buf : TcpBuffer} {bytes : Bytes} {size : ℕ}

theorem valid_ofSize (hsize : size < 2 ^ 31) : (ofSize size).Valid :=
  ⟨Nat.le_refl _, Nat.zero_le _, by rwa [ofSize, length_replicate]⟩

theorem valid_clearBuffer (buf : TcpBuffer) : buf.clearBuffer.Valid :=
  ⟨Nat.le_refl _, Nat.le_refl _, Nat.two_pow_pos 31⟩

@[simp] theorem readable_ofSize (size : ℕ) : (ofSize size).readable = [] := by
  simp [readable, ofSize]

variable (h : buf.Valid)

include h

theorem length_readable : buf.readable.length = buf.readAble := by
  have hwrite := h.write
  simp only [readable, readAble, length_drop, length_take]
  omega

/-- From the read index on, the vector holds what can be read and then what is left over. -/
theorem drop_readIndex :
    buf.buffer.drop buf.readIndex = buf.readable ++ buf.buffer.drop buf.writeIndex := by
  have hread := h.read
  have hwrite := h.write
  conv_lhs => rw [← take_append_drop buf.writeIndex buf.buffer]
  rw [drop_append_of_le_length, readable]
  rw [length_take]
  omega

theorem take_drop_readIndex : (buf.buffer.drop buf.readIndex).take buf.readAble = buf.readable := by
  rw [drop_readIndex h, ← length_readable h, take_left]

/-- Moving all that can be read to the front. -/
theorem readable_moved (hsize : buf.readAble ≤ size) (hint : size < 2 ^ 31) :
    (⟨buf.moved size buf.readAble, 0, buf.readAble⟩ : TcpBuffer).Valid ∧
      (⟨buf.moved size buf.readAble, 0, buf.readAble⟩ : TcpBuffer).readable = buf.readable ∧
      (buf.moved size buf.readAble).length = size := by
  have hlength := length_readable h
  have hmoved : buf.moved size buf.readAble =
      buf.readable ++ replicate (size - buf.readAble) 0 := by
    rw [moved, take_drop_readIndex h, hlength]
  have hsame : (buf.readable ++ replicate (size - buf.readAble) 0).length = size := by
    rw [length_append, length_replicate, hlength]
    omega
  rw [hmoved]
  refine ⟨⟨Nat.zero_le _, by rwa [hsame], by rwa [hsame]⟩, ?_, hsame⟩
  rw [readable, ← hlength, take_left, drop_zero]

theorem readAble_le_length : buf.readAble ≤ buf.buffer.length := by
  have hwrite := h.write
  rw [readAble]
  omega

theorem adjustBuffer_spec :
    buf.adjustBuffer.Valid ∧ buf.adjustBuffer.readable = buf.readable ∧
      buf.adjustBuffer.buffer.length = buf.buffer.length := by
  rw [adjustBuffer]
  split_ifs
  · exact readable_moved h (readAble_le_length h) h.size
  · exact ⟨h, rfl, rfl⟩

omit h

theorem readAble_adjustBuffer (buf : TcpBuffer) : buf.adjustBuffer.readAble = buf.readAble := by
  rw [adjustBuffer]
  split_ifs
  · rfl
  · rfl

theorem resizeBuffer_spec (h : buf.Valid) (hsize : buf.readAble ≤ size) (hint : size < 2 ^ 31) :
    ∃ buf', buf.resizeBuffer size = some buf' ∧ buf'.Valid ∧ buf'.readable = buf.readable ∧
      buf'.buffer.length = size ∧ buf'.readIndex = 0 ∧ buf'.writeIndex = buf.readAble := by
  obtain ⟨hvalid, hreadable, hlength⟩ := readable_moved h hsize hint
  refine ⟨_, ?_, hvalid, hreadable, hlength, rfl, rfl⟩
  rw [resizeBuffer, Nat.min_eq_right hsize, if_pos hint]

theorem adjustBuffer_read_spec (h : buf.Valid) {n : ℕ} (hn : n ≤ buf.readAble) :
    (adjustBuffer { buf with readIndex := buf.readIndex + n }).Valid ∧
      (adjustBuffer { buf with readIndex := buf.readIndex + n }).readable = buf.readable.drop n := by
  have hread := h.read
  rw [readAble] at hn
  have hvalid : ({ buf with readIndex := buf.readIndex + n } : TcpBuffer).Valid :=
    ⟨by dsimp only; omega, h.write, h.size⟩
  obtain ⟨hadjusted, hreadable, -⟩ := adjustBuffer_spec hvalid
  refine ⟨hadjusted, hreadable.trans ?_⟩
  rw [readable, readable, drop_drop]

theorem recycleRead_spec (h : buf.Valid) {n : ℕ} (hn : n ≤ buf.readAble) :
    (buf.recycleRead n).Valid ∧ (buf.recycleRead n).readable = buf.readable.drop n := by
  have hwrite := h.write
  have hread := h.read
  have hspec := adjustBuffer_read_spec h hn
  rw [readAble] at hn
  rwa [recycleRead, if_neg (by omega)]

theorem readFromBuffer_spec (h : buf.Valid) (re : Bytes) (size : ℕ) :
    ((buf.readFromBuffer re size).2.Valid ∧
      (buf.readFromBuffer re size).2.readable = buf.readable.drop size) ∧
    (buf.readFromBuffer re size).1 = if buf.readable = [] then re else buf.readable.take size := by
  have hlength := length_readable h
  have hempty : buf.readable = [] ↔ buf.readAble = 0 := by rw [← hlength, length_eq_zero_iff]
  have hmin : (if buf.readAble > size then size else buf.readAble) = min size buf.readAble := by
    split_ifs <;> omega
  simp only [readFromBuffer, hempty, hmin]
  split_ifs with hnone
  · simp [hempty.mpr hnone, h]
  · obtain ⟨hvalid, hreadable⟩ := adjustBuffer_read_spec h (Nat.min_le_right size buf.readAble)
    refine ⟨⟨hvalid, hreadable.trans ?_⟩, ?_⟩
    · rw [← hlength, ← drop_eq_drop_min]
    · dsimp only
      rw [drop_readIndex h, take_append_of_le_length (by omega), ← hlength, ← take_eq_take_min]

theorem writeIndex_recycleRead_le (buf : TcpBuffer) (index : ℤ) :
    (buf.recycleRead index).writeIndex ≤ buf.writeIndex := by
  rw [recycleRead]
  split_ifs
  · exact Nat.le_refl _
  · rw [adjustBuffer]
    split_ifs
    · exact Nat.sub_le _ _
    · exact Nat.le_refl _

/-- Bytes that fit in behind the write index are what can be read last. -/
theorem store_spec (h : buf.Valid) (hroom : bytes.length ≤ buf.writeAble) :
    (buf.store bytes).buffer.length = buf.buffer.length ∧
      ({ buf.store bytes with writeIndex := buf.writeIndex + bytes.length } : TcpBuffer).Valid ∧
      ({ buf.store bytes with writeIndex := buf.writeIndex + bytes.length } : TcpBuffer).readable =
        buf.readable ++ bytes := by
  have hread := h.read
  have hwrite := h.write
  rw [writeAble] at hroom
  have hfront : (buf.buffer.take buf.writeIndex).length = buf.writeIndex := by
    rw [length_take]
    omega
  have hstore : (buf.store bytes).buffer = buf.buffer.take buf.writeIndex ++ bytes ++
      buf.buffer.drop (buf.writeIndex + bytes.length) := by
    rw [store, take_of_length_le]
    simp only [length_append, hfront, length_drop]
    omega
  have hlength : (buf.store bytes).buffer.length = buf.buffer.length := by
    simp only [hstore, length_append, hfront, length_drop]
    omega
  refine ⟨hlength, ⟨?_, ?_, hlength ▸ h.size⟩, ?_⟩
  · change buf.readIndex ≤ buf.writeIndex + bytes.length
    omega
  · rw [hlength]
    dsimp only
    omega
  · have htake : (buf.store bytes).buffer.take (buf.writeIndex + bytes.length) =
        buf.buffer.take buf.writeIndex ++ bytes := by
      have hboth : (buf.buffer.take buf.writeIndex ++ bytes).length = buf.writeIndex + bytes.length := by
        rw [length_append, hfront]
      rw [hstore, ← hboth, take_left]
    rw [readable]
    dsimp only
    rw [htake, drop_append_of_le_length (by rw [hfront]; exact hread)]
    rfl

/-- A buffer that has to grow must stay within the ints. -/
def Fits (bytes : Bytes) (buf : TcpBuffer) : Prop :=
  bytes.length > buf.writeAble → 3 * (buf.writeIndex + bytes.length) / 2 < 2 ^ 31

theorem writeToBuffer_spec (h : buf.Valid) (hfits : buf.Fits bytes) :
    ∃ buf', buf.writeToBuffer bytes = some buf' ∧ buf'.Valid ∧
      buf'.readable = buf.readable ++ bytes ∧ buf'.writeIndex ≤ buf.writeIndex + bytes.length := by
  rw [writeToBuffer]
  split_ifs with hroom
  · have hsize : buf.readAble ≤ 3 * (buf.writeIndex + bytes.length) / 2 := by
      rw [readAble]
      omega
    obtain ⟨grown, hgrown, hvalid, hreadable, hlength, -, hindex⟩ :=
      resizeBuffer_spec h hsize (hfits hroom)
    have hspace : bytes.length ≤ grown.writeAble := by
      rw [writeAble, hlength, hindex, readAble]
      omega
    obtain ⟨-, hstored, hread⟩ := store_spec hvalid hspace
    refine ⟨_, by rw [hgrown]; rfl, hstored, hread.trans (by rw [hreadable]), ?_⟩
    dsimp only
    rw [hindex, readAble]
    omega
  · obtain ⟨-, hstored, hread⟩ := store_spec h (Nat.not_lt.mp hroom)
    exact ⟨_, rfl, hstored, hread, Nat.le_refl _⟩

/-- Received bytes are stored and made readable. -/
theorem recycleWrite_store_spec (h : buf.Valid) (hroom : bytes.length ≤ buf.writeAble) :
    ((buf.store bytes).recycleWrite bytes.length).Valid ∧
      ((buf.store bytes).recycleWrite bytes.length).readable = buf.readable ++ bytes := by
  obtain ⟨hlength, hvalid, hreadable⟩ := store_spec h hroom
  have hwrite := h.write
  rw [writeAble] at hroom
  have hle : ¬ buf.writeIndex + bytes.length > (buf.store bytes).buffer.length := by
    rw [hlength]
    omega
  obtain ⟨hadjusted, hkept, -⟩ := adjustBuffer_spec hvalid
  have heq : (buf.store bytes).recycleWrite bytes.length =
      adjustBuffer { buf.store bytes with writeIndex := buf.writeIndex + bytes.length } := if_neg hle
  rw [heq]
  exact ⟨hadjusted, hkept.trans hreadable⟩

/-! ## The queue -/

/-- The operations on a buffer; `recycleWrite` comes with the bytes that were filled in. -/
inductive Operation where
  | writeToBuffer (bytes : Bytes)
  | readFromBuffer (size : ℕ)
  | recycleRead (size : ℕ)
  | recycleWrite (bytes : Bytes)
  | resizeBuffer (size : ℕ)
  | clearBuffer

def step (buf : TcpBuffer) : Operation → Option TcpBuffer
  | .writeToBuffer bytes => buf.writeToBuffer bytes
  | .readFromBuffer size => some (buf.readFromBuffer [] size).2
  | .recycleRead size => some (buf.recycleRead size)
  | .recycleWrite bytes => some ((buf.store bytes).recycleWrite bytes.length)
  | .resizeBuffer size => buf.resizeBuffer size
  | .clearBuffer => some buf.clearBuffer

/-- The sizes are positive ints and keep to what can be read and what can be written. -/
def Allowed (buf : TcpBuffer) : Operation → Prop
  | .writeToBuffer bytes => bytes ≠ [] ∧ buf.Fits bytes
  | .readFromBuffer size => 0 < size
  | .recycleRead size => 0 < size ∧ size ≤ buf.readAble
  | .recycleWrite bytes => bytes ≠ [] ∧ bytes.length ≤ buf.writeAble
  | .resizeBuffer size => 0 < size ∧ buf.readAble ≤ size ∧ size < 2 ^ 31
  | .clearBuffer => True

/-- Every operation of a run is allowed where it comes. -/
def AllowedRun (buf : TcpBuffer) : List Operation → Prop
  | [] => True
  | operation :: rest => buf.Allowed operation ∧ ∀ buf' ∈ buf.step operation, buf'.AllowedRun rest

/-- The operations on a queue. -/
def queueStep (queue : Bytes) : Operation → Bytes
  | .writeToBuffer bytes | .recycleWrite bytes => queue ++ bytes
  | .readFromBuffer size | .recycleRead size => queue.drop size
  | .resizeBuffer _ => queue
  | .clearBuffer => []

theorem step_spec (h : buf.Valid) {operation : Operation} (hallowed : buf.Allowed operation) :
    ∃ buf', buf.step operation = some buf' ∧ buf'.Valid ∧
      buf'.readable = queueStep buf.readable operation := by
  cases operation with
  | writeToBuffer bytes =>
    obtain ⟨buf', hstep, hvalid, hreadable, -⟩ := writeToBuffer_spec h hallowed.2
    exact ⟨buf', hstep, hvalid, hreadable⟩
  | readFromBuffer size => exact ⟨_, rfl, (readFromBuffer_spec h [] size).1⟩
  | recycleRead size => exact ⟨_, rfl, recycleRead_spec h hallowed.2⟩
  | recycleWrite bytes => exact ⟨_, rfl, recycleWrite_store_spec h hallowed.2⟩
  | resizeBuffer size =>
    obtain ⟨buf', hstep, hvalid, hreadable, -⟩ := resizeBuffer_spec h hallowed.2.1 hallowed.2.2
    exact ⟨buf', hstep, hvalid, hreadable⟩
  | clearBuffer => exact ⟨_, rfl, valid_clearBuffer buf, rfl⟩

theorem run_spec {operations : List Operation} (h : buf.Valid) (hallowed : buf.AllowedRun operations) :
    ∃ buf', operations.foldlM step buf = some buf' ∧ buf'.Valid ∧
      buf'.readable = operations.foldl queueStep buf.readable := by
  induction operations generalizing buf with
  | nil => exact ⟨buf, rfl, h, rfl⟩
  | cons operation operations ih =>
    obtain ⟨next, hstep, hvalid, hreadable⟩ := step_spec h hallowed.1
    obtain ⟨buf', hrun, hend⟩ := ih hvalid (hallowed.2 next hstep)
    rw [hreadable] at hend
    exact ⟨buf', by rw [foldlM_cons, hstep]; exact hrun, hend⟩

/-- Every run has a result, after which the indices are in order and the buffer holds and yields
what a queue does. -/
theorem refines_queue (size : ℕ) (operations : List Operation) (hsize : size < 2 ^ 31)
    (h : (ofSize size).AllowedRun operations) :
    ∃ buf, operations.foldlM step (ofSize size) = some buf ∧ buf.Valid ∧
      buf.readable = operations.foldl queueStep [] ∧
      ∀ re n, (buf.readFromBuffer re n).1 =
        if operations.foldl queueStep [] = [] then re else (operations.foldl queueStep []).take n := by
  obtain ⟨buf, hrun, hvalid, hreadable⟩ := run_spec (valid_ofSize hsize) h
  rw [readable_ofSize] at hreadable
  refine ⟨buf, hrun, hvalid, hreadable, fun re n ↦ ?_⟩
  rw [← hreadable]
  exact (readFromBuffer_spec hvalid re n).2

/-- A buffer of two bytes grows for three. -/
theorem refines_queue_growing :
    ([.writeToBuffer [1, 2, 3], .readFromBuffer 2] : List Operation).foldlM step (ofSize 2) =
        some ⟨[3, 0, 0, 0], 0, 1⟩ ∧
      (⟨[3, 0, 0, 0], 0, 1⟩ : TcpBuffer).readable = [3] := by
  obtain ⟨buf, hrun, -, hreadable, -⟩ :=
    refines_queue 2 [.writeToBuffer [1, 2, 3], .readFromBuffer 2] (by decide)
      ⟨⟨cons_ne_nil _ _, fun _ ↦ by decide⟩, fun _ _ ↦ ⟨Nat.zero_lt_two, fun _ _ ↦ trivial⟩⟩
  cases hrun
  exact ⟨rfl, hreadable⟩

/-- A first write of 1431655766 bytes would need a vector of 2 ^ 31 + 1. -/
theorem not_writeToBuffer_huge :
    (ofSize 0).writeToBuffer (replicate 1431655766 0) = none := by
  have hroom : (replicate 1431655766 (0 : UInt8)).length > (ofSize 0).writeAble := by
    rw [length_replicate]
    decide
  have hsize : ¬ 3 * ((ofSize 0).writeIndex + (replicate 1431655766 (0 : UInt8)).length) / 2 < 2 ^ 31 := by
    rw [length_replicate]
    decide
  rw [writeToBuffer, if_pos hroom, resizeBuffer, if_neg hsize]
  rfl

end TcpBuffer

end DdeCooperation.Zrpc
