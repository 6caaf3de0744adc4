import Mathlib.Data.List.Rotate
import Rubo.Comm.Global

/-!
# RingBuff

The byte ring of `util/RingBuff.cpp`: a zeroed block `_buff` of `_len` bytes
with `_head` (next byte to write) and `_tail` (next byte to read). The stored
bytes run cyclically from `_tail` to `_head`; `_head == _tail` means empty, so
`add_data` keeps at least two cells free and grows the block when it must.

Sizes are natural numbers: every `size_t` expression below stays under the sum
of a buffer size and a request, which no address space can bring near `2^64`.
A copy outside a block is `Fault.outOfBounds`.
-/

namespace Rubo.Util

open Rubo.Foundation Rubo.Comm Memory

/-- The fields of a `RingBuff`. -/
structure RingBuff where
  buff : List UInt8
  len : ℕ
  head : ℕ
  tail : ℕ
  deriving DecidableEq, Repr

namespace RingBuff

/-- `DEFAULT_BUFF_SIZE` -/
def defaultBuffSize : ℕ := 4

/-- The constructor: an empty, zeroed ring. -/
def new : RingBuff where
  buff := List.replicate defaultBuffSize 0
  len := defaultBuffSize
  head := 0
  tail := 0

def leftSize (rb : RingBuff) : ℕ :=
  -- the free cells lie outside `[_tail, _head)`, or are `[_head, _tail)`
  if rb.tail ≤ rb.head then rb.len - (rb.head - rb.tail) else rb.tail - rb.head

def dataSize (rb : RingBuff) : ℕ :=
  rb.len - rb.leftSize

/-- Move the stored bytes to the start of a larger zeroed block. -/
def appendSize (rb : RingBuff) : Except Fault RingBuff := do
  let newLen := if rb.len > 1024 then rb.len + defaultBuffSize else rb.len * 2
  let newBuff := List.replicate newLen 0
  let dataLen := rb.dataSize
  let newBuff ←
    if rb.tail ≤ rb.head then
      stdcopy newBuff 0 rb.buff rb.tail (rb.head - rb.tail)
    else do
      let len1 := rb.len - rb.tail
      let newBuff ← stdcopy newBuff 0 rb.buff rb.tail len1
      stdcopy newBuff len1 rb.buff 0 rb.head
  return { buff := newBuff, len := newLen, head := dataLen, tail := 0 }

/-- Remove `len` bytes from the front and wipe their cells. -/
def delData (rb : RingBuff) (len : ℕ) : Except Fault (Bool × RingBuff) :=
  if rb.dataSize < len ∨ len = 0 then
    return (false, rb)
  else do
    let buff ←
      if rb.head > rb.tail then
        fillZero rb.buff rb.tail len
      else if rb.head < rb.tail then
        let len1 := rb.len - rb.tail
        if len1 ≥ len then
          fillZero rb.buff rb.tail len
        else do
          let buff ← fillZero rb.buff rb.tail len1
          fillZero buff 0 (len - len1)
      else
        -- LogError("_head == _tail")
        pure rb.buff
    return (true, { rb with buff := buff, tail := (rb.tail + len) % rb.len })

/-- The copy that `read_begin` and `read_del_begin` share: the first `len` bytes. -/
def copyBegin (rb : RingBuff) (len : ℕ) : Except Fault (List UInt8) :=
  if rb.head ≥ rb.tail then
    load rb.buff rb.tail len
  else
    -- the stored bytes wrap: up to the end of the block first
    let len1 := rb.len - rb.tail
    if len1 ≥ len then
      load rb.buff rb.tail len
    else do
      let dest1 ← load rb.buff rb.tail len1
      let dest2 ← load rb.buff 0 (len - len1)
      return dest1 ++ dest2

/-- The returned flag and the bytes written to `dest`. -/
def readBegin (rb : RingBuff) (len : ℕ) : Except Fault (Bool × List UInt8) :=
  if rb.dataSize < len then
    return (false, [])
  else do
    let dest ← rb.copyBegin len
    return (true, dest)

/-- The returned flag, the bytes written to `dest`, and the ring afterwards. -/
def readDelBegin (rb : RingBuff) (len : ℕ) : Except Fault ((Bool × List UInt8) × RingBuff) :=
  if rb.dataSize < len then
    return ((false, []), rb)
  else do
    let dest ← rb.copyBegin len
    let (ret, rb) ← rb.delData len
    return ((ret, dest), rb)

/-- `while(left_size() <= len + 1) append_size();` -/
def growLoop : ℕ → RingBuff → ℕ → Except Fault RingBuff
  | fuel, rb, len =>
    if rb.leftSize ≤ len + 1 then
      match fuel with
      | 0 => .error .outOfFuel
      | fuel + 1 => do
        let rb ← rb.appendSize
        growLoop fuel rb len
    else
      return rb

/-- Append `data` behind the stored bytes. -/
def addData (rb : RingBuff) (data : List UInt8) : Except Fault (Bool × RingBuff) := do
  let len := data.length
  let rb ← growLoop (len + 2) rb len
  if rb.head ≥ rb.tail then
    -- the free cells run to the end of the block and go on at its start
    if rb.len - rb.head ≥ len then
      let buff ← stdcopy rb.buff rb.head data 0 len
      return (true, { rb with buff := buff, head := (rb.head + len) % rb.len })
    else
      -- up to the end of the block, the rest at its start
      let len1 := rb.len - rb.head
      let buff ← stdcopy rb.buff rb.head data 0 len1
      let buff ← stdcopy buff 0 data len1 (len - len1)
      return (true, { rb with buff := buff, head := len - len1 })
  else
    -- the free cells are one run below `_tail`
    let buff ← stdcopy rb.buff rb.head data 0 len
    return (true, { rb with buff := buff, head := (rb.head + len) % rb.len })

/-! ## The class invariant -/

/-- What holds of every `RingBuff` between calls. -/
structure Inv (rb : RingBuff) : Prop where
  length_buff : rb.buff.length = rb.len
  four_le_len : defaultBuffSize ≤ rb.len
  head_lt : rb.head < rb.len
  tail_lt : rb.tail < rb.len
  /-- The ring is never full, so `_head == _tail` means empty. -/
  margin : rb.dataSize + 2 ≤ rb.len

/-- The stored bytes, from `_tail` cyclically up to `_head`. -/
def contents (rb : RingBuff) : List UInt8 :=
  (rb.buff.rotate rb.tail).take rb.dataSize

theorem inv_new : Inv new where
  length_buff := rfl
  four_le_len := Nat.le_refl _
  head_lt := by decide
  tail_lt := by decide
  margin := by decide

@[simp] theorem contents_new : new.contents = [] := rfl

/-! ## Sizes and cells -/

theorem dataSize_of_le {rb : RingBuff} (hh : rb.head < rb.len) (h : rb.tail ≤ rb.head) :
    rb.dataSize = rb.head - rb.tail := by
  rw [dataSize, leftSize, if_pos h]
  omega

theorem dataSize_of_lt {rb : RingBuff} (ht : rb.tail < rb.len) (h : rb.head < rb.tail) :
    rb.dataSize = rb.len - rb.tail + rb.head := by
  rw [dataSize, leftSize, if_neg (by omega)]
  omega

theorem leftSize_add_dataSize {rb : RingBuff} (h : rb.Inv) :
    rb.leftSize + rb.dataSize = rb.len := by
  have := h.head_lt
  have := h.tail_lt
  unfold dataSize leftSize
  split <;> omega

theorem length_contents {rb : RingBuff} (h : rb.Inv) : rb.contents.length = rb.dataSize := by
  have := h.margin
  rw [contents, List.length_take, List.length_rotate, h.length_buff]
  omega

/-- The `i`-th stored byte lies `i` cells after `_tail`, wrapping once. -/
theorem getElem?_contents {rb : RingBuff} (h : rb.Inv) (i : ℕ) :
    rb.contents[i]? =
      if i < rb.dataSize then
        (if rb.tail + i < rb.len then rb.buff[rb.tail + i]? else rb.buff[rb.tail + i - rb.len]?)
      else none := by
  have hm := h.margin
  have hl := h.length_buff
  have ht := h.tail_lt
  by_cases hi : i < rb.dataSize
  · rw [contents, if_pos hi, List.getElem?_take_of_lt hi, List.getElem?_rotate (by omega), hl]
    split
    · -- before the wrap
      rw [Nat.mod_eq_of_lt (by omega), Nat.add_comm]
    · -- after it
      rw [Nat.mod_eq_sub_mod (by omega), Nat.mod_eq_of_lt (by omega), Nat.add_comm]
  · rw [if_neg hi, List.getElem?_eq_none]
    rw [length_contents h]
    omega

end RingBuff

end Rubo.Util
