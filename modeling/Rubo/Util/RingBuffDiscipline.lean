import Mathlib.Algebra.Ring.Nat
import Rubo.Foundation.SizeT
import Rubo.Util.RingBuffQueue

/-!
# RingBuff: Memory Discipline

`RingBuff` once more, with everything checked that the source leaves unchecked:
`size_t` arithmetic has 64 bits and a subtraction below zero is a breach, and so
is a copy or fill outside its block, a write to a cell that holds a stored byte,
a growth loop that does not end, and the branch of `del_data` that logs
`_head == _tail`.

`ringBuff_discipline` says that no call breaches, in any state that can be
reached while fewer than `2^63` bytes are stored. On blocks of at most `2^63`
cells the checked operations are those of `RingBuff` (`call_eq_checked`).
-/

namespace Rubo.Util.RingBuff

open Rubo.Foundation Rubo.Comm Memory

/-- What must not happen in an operation of a ring. -/
inductive Breach where
  /-- A copy or a fill outside its block, or a growth loop that does not end. -/
  | memory (fault : Fault)
  /-- A `size_t` subtraction below zero. -/
  | underflow
  /-- A write to a cell that holds a stored byte. -/
  | overwrite
  /-- `LogError("_head == _tail")` -/
  | headEqTail
  deriving DecidableEq, Repr

/-- Cell `i` holds a stored byte. -/
def Holds (rb : RingBuff) (i : ℕ) : Prop :=
  ∃ k < rb.dataSize, (rb.tail + k) % rb.len = i

instance (rb : RingBuff) : DecidablePred rb.Holds := fun i =>
  inferInstanceAs (Decidable (∃ k < rb.dataSize, (rb.tail + k) % rb.len = i))

/-! ## The operations, checked -/

namespace Checked

/-- `a - b` in `size_t`, where it does not wrap. -/
def sub (a b : ℕ) : Except Breach ℕ :=
  if b ≤ a then .ok (a - b) else .error .underflow

/-- A bounded access among checked steps. -/
def checked {α : Type} : Except Fault α → Except Breach α := Except.mapError .memory

def leftSize (rb : RingBuff) : Except Breach ℕ :=
  if rb.tail ≤ rb.head then do
    let used ← sub rb.head rb.tail
    sub rb.len used
  else
    sub rb.tail rb.head

def dataSize (rb : RingBuff) : Except Breach ℕ := do
  let left ← leftSize rb
  sub rb.len left

def appendSize (rb : RingBuff) : Except Breach RingBuff := do
  let newLen := if rb.len > 1024 then SizeT.add rb.len defaultBuffSize else SizeT.mul rb.len 2
  let newBuff := List.replicate newLen 0
  let dataLen ← dataSize rb
  let newBuff ←
    if rb.tail ≤ rb.head then do
      let used ← sub rb.head rb.tail
      checked (stdcopy newBuff 0 rb.buff rb.tail used)
    else do
      let len1 ← sub rb.len rb.tail
      let newBuff ← checked (stdcopy newBuff 0 rb.buff rb.tail len1)
      checked (stdcopy newBuff len1 rb.buff 0 rb.head)
  return { buff := newBuff, len := newLen, head := dataLen, tail := 0 }

def delData (rb : RingBuff) (len : ℕ) : Except Breach (Bool × RingBuff) := do
  let size ← dataSize rb
  if size < len ∨ len = 0 then
    return (false, rb)
  else
    let buff ←
      if rb.head > rb.tail then
        checked (fillZero rb.buff rb.tail len)
      else if rb.head < rb.tail then do
        let len1 ← sub rb.len rb.tail
        if len1 ≥ len then
          checked (fillZero rb.buff rb.tail len)
        else do
          let buff ← checked (fillZero rb.buff rb.tail len1)
          let rest ← sub len len1
          checked (fillZero buff 0 rest)
      else
        .error .headEqTail
    return (true, { rb with buff := buff, tail := SizeT.add rb.tail len % rb.len })

/-- The copies of `read_begin` and `read_del_begin`, to a `dest` of `len` cells. -/
def copyBegin (rb : RingBuff) (len : ℕ) : Except Breach (List UInt8) :=
  let dest := List.replicate len 0
  if rb.head ≥ rb.tail then
    checked (stdcopy dest 0 rb.buff rb.tail len)
  else do
    let len1 ← sub rb.len rb.tail
    if len1 ≥ len then
      checked (stdcopy dest 0 rb.buff rb.tail len)
    else do
      let dest ← checked (stdcopy dest 0 rb.buff rb.tail len1)
      let rest ← sub len len1
      checked (stdcopy dest len1 rb.buff 0 rest)

def readBegin (rb : RingBuff) (len : ℕ) : Except Breach (Bool × List UInt8) := do
  let size ← dataSize rb
  if size < len then
    return (false, [])
  else
    let dest ← copyBegin rb len
    return (true, dest)

def readDelBegin (rb : RingBuff) (len : ℕ) : Except Breach ((Bool × List UInt8) × RingBuff) := do
  let size ← dataSize rb
  if size < len then
    return ((false, []), rb)
  else
    let dest ← copyBegin rb len
    let (ret, rb) ← delData rb len
    return ((ret, dest), rb)

/-- `while(left_size() <= len + 1) append_size();` -/
def growLoop : ℕ → RingBuff → ℕ → Except Breach RingBuff
  | fuel, rb, len => do
    let left ← leftSize rb
    if left ≤ SizeT.add len 1 then
      match fuel with
      | 0 => .error (.memory .outOfFuel)
      | fuel + 1 => do
        let rb ← appendSize rb
        growLoop fuel rb len
    else
      return rb

/-- A copy into the block of `rb` that must leave the stored bytes alone. -/
def copyFree (rb : RingBuff) (buff : List UInt8) (doff : ℕ) (src : List UInt8) (soff len : ℕ) :
    Except Breach (List UInt8) :=
  if ∃ i ∈ List.range' doff len, rb.Holds i then .error .overwrite
  else checked (stdcopy buff doff src soff len)

def addData (rb : RingBuff) (data : List UInt8) : Except Breach (Bool × RingBuff) := do
  let len := data.length
  let rb ← growLoop (len + 2) rb len
  if rb.head ≥ rb.tail then
    let room ← sub rb.len rb.head
    if room ≥ len then
      let buff ← copyFree rb rb.buff rb.head data 0 len
      return (true, { rb with buff := buff, head := SizeT.add rb.head len % rb.len })
    else
      let len1 ← sub rb.len rb.head
      let buff ← copyFree rb rb.buff rb.head data 0 len1
      let rest ← sub len len1
      let buff ← copyFree rb buff 0 data len1 rest
      let head ← sub len len1
      return (true, { rb with buff := buff, head := head })
  else
    let buff ← copyFree rb rb.buff rb.head data 0 len
    return (true, { rb with buff := buff, head := SizeT.add rb.head len % rb.len })

/-- One call on a ring. -/
def call (rb : RingBuff) : Call → Except Breach (Answer × RingBuff)
  | .addData data => do
    let (ret, rb) ← addData rb data
    return (.flag ret, rb)
  | .delData len => do
    let (ret, rb) ← delData rb len
    return (.flag ret, rb)
  | .readBegin len => do
    let (ret, dest) ← readBegin rb len
    return (.bytes ret dest, rb)
  | .readDelBegin len => do
    let ((ret, dest), rb) ← readDelBegin rb len
    return (.bytes ret dest, rb)
  | .dataSize => do
    let size ← dataSize rb
    return (.size size, rb)

/-- Fewer than `2^63` bytes are stored after the call. -/
def Fits (rb : RingBuff) : Call → Prop
  | .addData data => rb.dataSize + data.length < 2 ^ 63
  | _ => True

instance (rb : RingBuff) : DecidablePred (Fits rb)
  | .addData data => inferInstanceAs (Decidable (rb.dataSize + data.length < 2 ^ 63))
  | .delData _ | .readBegin _ | .readDelBegin _ | .dataSize => .isTrue trivial

/-- The states a new ring can get to. -/
inductive Reachable : RingBuff → Prop where
  | new : Reachable RingBuff.new

  /-- Any call, as long as the stored bytes stay below `2^63`. -/
  | call {rb rb' : RingBuff} {c : Call} {a : Answer} :
      Reachable rb → Fits rb c → call rb c = .ok (a, rb') → Reachable rb'

/-! ## Checked steps that succeed -/

@[simp] theorem checked_ok {α : Type} (a : α) : checked (.ok a) = .ok a := rfl

theorem sub_ok {a b : ℕ} (h : b ≤ a) : sub a b = .ok (a - b) := if_pos h

/-- What holds of every ring between calls, while fewer than `2^63` bytes are stored:
the class invariant, and a bound on the block. The last growth starts from at most
`2^63` cells. -/
structure Bounds (rb : RingBuff) : Prop extends rb.Inv where
  len_le : rb.len ≤ 2 ^ 63 + 4
  size_lt : rb.dataSize < 2 ^ 63

theorem bounds_new : Bounds RingBuff.new where
  toInv := inv_new
  len_le := by decide
  size_lt := by decide

variable {rb : RingBuff}

theorem leftSize_eq (h : rb.Inv) : leftSize rb = .ok rb.leftSize := by
  have hh := h.head_lt
  have ht := h.tail_lt
  unfold leftSize RingBuff.leftSize
  by_cases hht : rb.tail ≤ rb.head
  · rw [if_pos hht, if_pos hht, sub_ok hht]
    exact sub_ok (by omega)
  · rw [if_neg hht, if_neg hht]
    exact sub_ok (by omega)

theorem dataSize_eq (h : rb.Inv) : dataSize rb = .ok rb.dataSize := by
  have hsum := leftSize_add_dataSize h
  rw [dataSize, leftSize_eq h]
  exact sub_ok (by omega)

/-! ## Growing -/

/-- The length of the new block. -/
def grownLen (len : ℕ) : ℕ :=
  if len > 1024 then len + defaultBuffSize else len * 2

theorem appendSize_eq (h : rb.Inv) (hlen : rb.len ≤ 2 ^ 63) :
    appendSize rb = checked rb.appendSize := by
  have hh := h.head_lt
  have ht := h.tail_lt
  -- the new length does not wrap
  have hnew : (if rb.len > 1024 then SizeT.add rb.len defaultBuffSize else SizeT.mul rb.len 2) =
      if rb.len > 1024 then rb.len + defaultBuffSize else rb.len * 2 := by
    unfold SizeT.add SizeT.mul defaultBuffSize
    split_ifs <;> omega
  unfold appendSize RingBuff.appendSize
  rw [hnew, dataSize_eq h]
  generalize (if rb.len > 1024 then rb.len + defaultBuffSize else rb.len * 2) = newLen
  by_cases hht : rb.tail ≤ rb.head
  · simp only [bind, Except.bind, if_pos hht, sub_ok hht]
    cases stdcopy (List.replicate newLen 0) 0 rb.buff rb.tail (rb.head - rb.tail) <;> rfl
  · simp only [bind, Except.bind, if_neg hht, sub_ok (Nat.le_of_lt ht)]
    cases stdcopy (List.replicate newLen 0) 0 rb.buff rb.tail (rb.len - rb.tail) with
    | error fault => rfl
    | ok newBuff =>
        simp only [checked_ok]
        cases stdcopy newBuff (rb.len - rb.tail) rb.buff 0 rb.head <;> rfl

theorem len_appendSize (h : rb.Inv) {rb' : RingBuff} (hgrow : rb.appendSize = .ok rb') :
    rb'.len = grownLen rb.len := by
  obtain ⟨buff, hcall, -⟩ := appendSize_cells h rfl
  obtain rfl := Except.ok.inj (hcall.symm.trans hgrow)
  rfl

/-- The growth loop runs as its unchecked form does: while it grows, the block has no
more cells than bytes are to be stored, and one. -/
theorem growLoop_eq (h : rb.Inv) {fuel n : ℕ} (htotal : rb.dataSize + n < 2 ^ 63)
    (hlen : rb.len ≤ 2 ^ 63 + 4) (hfuel : n + 2 ≤ rb.leftSize + fuel) :
    growLoop fuel rb n = checked (RingBuff.growLoop fuel rb n) ∧
      ∀ rb', RingBuff.growLoop fuel rb n = .ok rb' → rb'.len ≤ 2 ^ 63 + 4 := by
  have hsum := leftSize_add_dataSize h
  have hadd : SizeT.add n 1 = n + 1 := SizeT.add_eq (by omega)
  induction fuel generalizing rb with
  | zero =>
      have hroom : ¬ rb.leftSize ≤ n + 1 := by omega
      rw [growLoop, RingBuff.growLoop, leftSize_eq h, if_neg hroom]
      simp only [bind, Except.bind, hadd, if_neg hroom]
      refine ⟨rfl, ?_⟩
      rintro rb' hrb'
      obtain rfl : rb = rb' := by simpa [pure, Except.pure] using hrb'
      exact hlen
  | succ fuel ih =>
      rw [growLoop, RingBuff.growLoop, leftSize_eq h]
      simp only [bind, Except.bind, hadd]
      by_cases hsmall : rb.leftSize ≤ n + 1
      · -- the block is at most as large as what is to be stored
        have hle : rb.len ≤ 2 ^ 63 := by omega
        obtain ⟨rb₁, hrb₁, hinv₁, hcont₁, hleft₁⟩ := appendSize_ok h
        have hsize₁ : rb₁.dataSize = rb.dataSize := by
          rw [← length_contents hinv₁, ← length_contents h, hcont₁]
        have hlen₁ : rb₁.len ≤ 2 ^ 63 + 4 := by
          rw [len_appendSize h hrb₁]
          unfold grownLen defaultBuffSize
          split_ifs <;> omega
        have hfour : defaultBuffSize = 4 := rfl
        have hrest := ih hinv₁ (by omega) hlen₁ (by omega) (leftSize_add_dataSize hinv₁)
        simp only [if_pos hsmall, appendSize_eq h hle, hrb₁, checked_ok]
        exact hrest
      · simp only [if_neg hsmall]
        refine ⟨rfl, ?_⟩
        rintro rb' hrb'
        obtain rfl : rb = rb' := by simpa [pure, Except.pure] using hrb'
        exact hlen

/-! ## Appending -/

/-- The cells that hold something are those `left_size` does not count. -/
theorem Holds.between (h : rb.Inv) {i : ℕ} (hi : rb.Holds i) :
    if rb.tail ≤ rb.head then rb.tail ≤ i ∧ i < rb.head
    else (i < rb.head ∨ rb.tail ≤ i) ∧ i < rb.len := by
  have hh := h.head_lt
  have ht := h.tail_lt
  have hm := h.margin
  obtain ⟨k, hk, rfl⟩ := hi
  rw [mod_of_lt_two_mul (by omega)]
  by_cases hht : rb.tail ≤ rb.head
  · have hd := dataSize_of_le hh hht
    split_ifs <;> omega
  · have hd := dataSize_of_lt ht (Nat.lt_of_not_le hht)
    split_ifs <;> omega

theorem copyFree_eq {buff src : List UInt8} {doff soff n : ℕ}
    (hfree : ∀ i, doff ≤ i → i < doff + n → ¬ rb.Holds i) :
    copyFree rb buff doff src soff n = checked (stdcopy buff doff src soff n) := by
  refine if_neg ?_
  rintro ⟨i, hi, hheld⟩
  obtain ⟨hle, hlt⟩ := List.mem_range'_1.mp hi
  exact hfree i hle hlt hheld

/-- `add_data` writes free cells only, and its sums do not wrap. -/
theorem addData_eq (h : Bounds rb) {data : List UInt8}
    (hfits : rb.dataSize + data.length < 2 ^ 63) :
    addData rb data = checked (rb.addData data) := by
  have hfuel : data.length + 2 ≤ rb.leftSize + (data.length + 2) := Nat.le_add_left ..
  obtain ⟨rb₁, hgrow, h₁, hcont, hroom⟩ := growLoop_ok h.toInv hfuel
  obtain ⟨hcheck, hlen⟩ := growLoop_eq h.toInv hfits h.len_le hfuel
  have hlen₁ := hlen rb₁ hgrow
  unfold addData RingBuff.addData
  simp only [hcheck, hgrow, bind, Except.bind, checked_ok]
  have hh := h₁.head_lt
  have ht := h₁.tail_lt
  by_cases hht : rb₁.tail ≤ rb₁.head
  · -- behind `_head` everything is free
    have hbehind : ∀ i, rb₁.head ≤ i → ¬ rb₁.Holds i := by
      intro i hi hheld
      have hbetween := Holds.between h₁ hheld
      rw [if_pos hht] at hbetween
      omega
    simp only [ge_iff_le, hht, if_true, sub_ok (Nat.le_of_lt hh)]
    by_cases hfit : data.length ≤ rb₁.len - rb₁.head
    · simp only [hfit, if_true, copyFree_eq fun i hi _ => hbehind i hi,
        SizeT.add_eq (show rb₁.head + data.length < 2 ^ 64 by omega)]
      cases stdcopy rb₁.buff rb₁.head data 0 data.length <;> rfl
    · -- the bytes wrap, and end below `_tail`
      have hbelow : ∀ i, 0 ≤ i → i < 0 + (data.length - (rb₁.len - rb₁.head)) → ¬ rb₁.Holds i := by
        intro i _ hi hheld
        have hbetween := Holds.between h₁ hheld
        rw [if_pos hht] at hbetween
        rw [RingBuff.leftSize, if_pos hht] at hroom
        omega
      simp only [hfit, if_false, copyFree_eq fun i hi _ => hbehind i hi, copyFree_eq hbelow,
        sub_ok (show rb₁.len - rb₁.head ≤ data.length by omega)]
      cases stdcopy rb₁.buff rb₁.head data 0 (rb₁.len - rb₁.head) with
      | error fault => rfl
      | ok buff =>
          simp only [checked_ok]
          cases stdcopy buff 0 data (rb₁.len - rb₁.head)
            (data.length - (rb₁.len - rb₁.head)) <;> rfl
  · -- the free cells are one run below `_tail`
    rw [RingBuff.leftSize, if_neg hht] at hroom
    have hrun : ∀ i, rb₁.head ≤ i → i < rb₁.head + data.length → ¬ rb₁.Holds i := by
      intro i hle hlt hheld
      have hbetween := Holds.between h₁ hheld
      rw [if_neg hht] at hbetween
      omega
    simp only [ge_iff_le, hht, if_false, copyFree_eq hrun,
      SizeT.add_eq (show rb₁.head + data.length < 2 ^ 64 by omega)]
    cases stdcopy rb₁.buff rb₁.head data 0 data.length <;> rfl

/-! ## Reading and removing -/

/-- What is copied to a block of just that size is the block. -/
theorem stdcopy_whole {src : List UInt8} {soff n : ℕ} (h : soff + n ≤ src.length) :
    stdcopy (List.replicate n 0) 0 src soff n = .ok ((src.drop soff).take n) := by
  have hlen : ((src.drop soff).take n).length = n := by
    rw [List.length_take, List.length_drop]
    omega
  have hnil : (List.replicate n (0 : UInt8)).drop n = [] := by simp
  rw [stdcopy_ok h (by simp), splice_zero, hlen, hnil, List.append_nil]

theorem copyBegin_eq (h : rb.Inv) {n : ℕ} (hn : n ≤ rb.dataSize) :
    copyBegin rb n = checked (rb.copyBegin n) := by
  have hl := h.length_buff
  have hh := h.head_lt
  have ht := h.tail_lt
  unfold copyBegin RingBuff.copyBegin
  by_cases hht : rb.tail ≤ rb.head
  · have hd := dataSize_of_le hh hht
    have hin : rb.tail + n ≤ rb.buff.length := by omega
    simp only [ge_iff_le, hht, if_true, stdcopy_whole hin, load_ok hin, checked_ok]
  · have hd := dataSize_of_lt ht (Nat.lt_of_not_le hht)
    simp only [ge_iff_le, hht, if_false, bind, Except.bind, sub_ok (Nat.le_of_lt ht)]
    by_cases hfit : n ≤ rb.len - rb.tail
    · have hin : rb.tail + n ≤ rb.buff.length := by omega
      simp only [hfit, if_true, stdcopy_whole hin, load_ok hin, checked_ok]
    · -- the second copy goes behind the first one
      have hin₁ : rb.tail + (rb.len - rb.tail) ≤ rb.buff.length := by omega
      have hin₂ : 0 + (n - (rb.len - rb.tail)) ≤ rb.buff.length := by omega
      have hlen₁ : ((rb.buff.drop rb.tail).take (rb.len - rb.tail)).length = rb.len - rb.tail := by
        rw [List.length_take, List.length_drop]
        omega
      simp only [hfit, if_false, load_ok hin₁, load_ok hin₂]
      rw [stdcopy_ok hin₁ (by simp; omega), splice_zero, hlen₁, List.drop_replicate]
      simp only [checked_ok, sub_ok (show rb.len - rb.tail ≤ n by omega)]
      generalize (rb.buff.drop rb.tail).take (rb.len - rb.tail) = dest1 at hlen₁ ⊢
      rw [stdcopy_ok hin₂ (by simp; omega), ← hlen₁, splice_append]
      have hnil : (List.replicate (n - dest1.length) (0 : UInt8)).drop
          ((rb.buff.drop 0).take (n - dest1.length)).length = [] := by
        rw [List.drop_eq_nil_iff]
        simp
        omega
      rw [hnil, List.append_nil]
      rfl

/-- `del_data` wipes what its unchecked form wipes; only the new `_tail` could differ,
for `_tail + len` is computed in `size_t`. -/
theorem delData_checked (h : rb.Inv) {n : ℕ} (hn : ¬ (rb.dataSize < n ∨ n = 0)) :
    delData rb n = (checked (rb.delData n)).map fun r =>
      (r.1, { r.2 with tail := SizeT.add rb.tail n % rb.len }) := by
  have hh := h.head_lt
  have ht := h.tail_lt
  unfold delData RingBuff.delData
  simp only [dataSize_eq h, bind, Except.bind, if_neg hn]
  by_cases hgt : rb.head > rb.tail
  · simp only [if_pos hgt]
    cases fillZero rb.buff rb.tail n <;> rfl
  · by_cases hlt : rb.head < rb.tail
    · simp only [if_neg hgt, if_pos hlt, sub_ok (Nat.le_of_lt ht)]
      by_cases hfit : rb.len - rb.tail ≥ n
      · simp only [if_pos hfit]
        cases fillZero rb.buff rb.tail n <;> rfl
      · simp only [if_neg hfit, sub_ok (show rb.len - rb.tail ≤ n by omega)]
        cases fillZero rb.buff rb.tail (rb.len - rb.tail) with
        | error fault => rfl
        | ok buff =>
            simp only [checked_ok]
            cases fillZero buff 0 (n - (rb.len - rb.tail)) <;> rfl
    · -- `_head == _tail` would mean nothing is stored
      have hd := dataSize_of_le hh (show rb.tail ≤ rb.head by omega)
      omega

/-- Both forms of `del_data`, over the cells they leave. -/
theorem delData_spec (h : rb.Inv) {n : ℕ} (hn : ¬ (rb.dataSize < n ∨ n = 0)) :
    ∃ buff, buff.length = rb.len ∧
      (∀ i < rb.len, buff[i]? =
        if rb.tail ≤ i ∧ i < rb.tail + n ∨ i + rb.len < rb.tail + n then some 0 else rb.buff[i]?) ∧
      rb.delData n = .ok (true, { rb with buff := buff, tail := (rb.tail + n) % rb.len }) ∧
      delData rb n = .ok (true, { rb with buff := buff, tail := SizeT.add rb.tail n % rb.len }) := by
  obtain ⟨buff, hplain, hlen, hcells⟩ := delData_cells h hn
  refine ⟨buff, hlen, hcells, hplain, ?_⟩
  rw [delData_checked h hn, hplain]
  rfl

/-- `del_data`, unless `_tail + len` wraps. -/
theorem delData_eq (h : rb.Inv) {n : ℕ} (hsum : rb.tail + rb.dataSize < 2 ^ 64) :
    delData rb n = checked (rb.delData n) := by
  by_cases hn : rb.dataSize < n ∨ n = 0
  · unfold delData RingBuff.delData
    simp only [dataSize_eq h, bind, Except.bind, if_pos hn]
    rfl
  · obtain ⟨buff, _, _, hplain, hcheck⟩ := delData_spec h hn
    rw [hplain, hcheck, SizeT.add_eq (by omega), checked_ok]

/-- Where `_tail + len` wraps, the ring had nearly all bytes of a block of `2^63` cells
and more: they wrap, and `_tail` comes to lie in one of the first cells. -/
theorem tail_wrapped (h : Bounds rb) {n : ℕ} (hn : n ≤ rb.dataSize)
    (hsum : ¬ rb.tail + n < 2 ^ 64) :
    SizeT.add rb.tail n % rb.len = rb.tail + n - 2 ^ 64 ∧ rb.head < rb.tail := by
  have hh := h.head_lt
  have ht := h.tail_lt
  have hle := h.len_le
  have hlt := h.size_lt
  have hadd : SizeT.add rb.tail n = rb.tail + n - 2 ^ 64 := by
    unfold SizeT.add
    omega
  refine ⟨by rw [hadd, Nat.mod_eq_of_lt (by omega)], ?_⟩
  by_contra hnot
  have hd := dataSize_of_le hh (Nat.le_of_not_lt hnot)
  omega

theorem bounds_wrapped (h : Bounds rb) {n : ℕ} (hn : n ≤ rb.dataSize)
    (hsum : ¬ rb.tail + n < 2 ^ 64) {buff : List UInt8} (hlen : buff.length = rb.len) :
    Bounds { rb with buff := buff, tail := SizeT.add rb.tail n % rb.len } := by
  have hh := h.head_lt
  have ht := h.tail_lt
  have hle := h.len_le
  have hlt := h.size_lt
  obtain ⟨htail, hwrap⟩ := tail_wrapped h hn hsum
  have hd := dataSize_of_lt ht hwrap
  have hd' : RingBuff.dataSize { rb with buff := buff, tail := SizeT.add rb.tail n % rb.len } =
      rb.head - (rb.tail + n - 2 ^ 64) := by
    rw [htail]
    exact dataSize_of_le hh (show rb.tail + n - 2 ^ 64 ≤ rb.head by omega)
  exact
    { length_buff := hlen
      four_le_len := h.four_le_len
      head_lt := hh
      tail_lt := Nat.mod_lt _ (by omega)
      margin := by rw [hd']; show _ ≤ rb.len; omega
      len_le := hle
      size_lt := by rw [hd']; omega }

/-! ## Every reachable state -/

/-- What a call leaves of a ring in bounds is in bounds. -/
theorem bounds_of_contents {rb' : RingBuff} (h : rb'.Inv) (hlen : rb'.len ≤ 2 ^ 63 + 4)
    (hsize : rb'.contents.length < 2 ^ 63) : Bounds rb' where
  toInv := h
  len_le := hlen
  size_lt := by rwa [length_contents h] at hsize

theorem delData_ok (h : Bounds rb) (n : ℕ) :
    ∃ ret rb', delData rb n = .ok (ret, rb') ∧ Bounds rb' := by
  by_cases hn : rb.dataSize < n ∨ n = 0
  · refine ⟨false, rb, ?_, h⟩
    simp only [delData, dataSize_eq h.toInv, bind, Except.bind, if_pos hn]
    rfl
  · obtain ⟨buff, hlen, _, hplain, hcheck⟩ := delData_spec h.toInv hn
    refine ⟨true, _, hcheck, ?_⟩
    by_cases hsum : rb.tail + n < 2 ^ 64
    · -- the ring is the one `RingBuff.delData` makes
      obtain ⟨rb', hok, hinv, hcont⟩ := RingBuff.delData_ok h.toInv n
      obtain rfl : _ = rb' := (Prod.mk.inj (Except.ok.inj (hplain.symm.trans hok))).2
      rw [SizeT.add_eq hsum]
      refine bounds_of_contents hinv h.len_le ?_
      have hle : rb.contents.length < 2 ^ 63 := by
        rw [length_contents h.toInv]
        exact h.size_lt
      rw [hcont]
      split_ifs
      · rw [List.length_drop]
        omega
      · exact hle
    · exact bounds_wrapped h (by omega) hsum hlen

theorem addData_ok (h : Bounds rb) {data : List UInt8}
    (hfits : rb.dataSize + data.length < 2 ^ 63) :
    ∃ ret rb', addData rb data = .ok (ret, rb') ∧ Bounds rb' := by
  obtain ⟨rb', hok, hinv, hcont⟩ := RingBuff.addData_ok h.toInv data
  obtain ⟨rb₁, buff, hgrow, -, -, -, hcells, -⟩ := addData_cells h.toInv data
  obtain rfl := (Prod.mk.inj (Except.ok.inj (hcells.symm.trans hok))).2
  have hfuel : data.length + 2 ≤ rb.leftSize + (data.length + 2) := Nat.le_add_left ..
  have hlen := (growLoop_eq h.toInv hfits h.len_le hfuel).2 rb₁ hgrow
  refine ⟨true, _, by rw [addData_eq h hfits, hok, checked_ok], ?_⟩
  refine bounds_of_contents hinv hlen ?_
  rw [hcont, List.length_append, length_contents h.toInv]
  exact hfits

theorem readBegin_eq (h : rb.Inv) (n : ℕ) : readBegin rb n = checked (rb.readBegin n) := by
  unfold readBegin RingBuff.readBegin
  simp only [dataSize_eq h, bind, Except.bind]
  by_cases hn : rb.dataSize < n
  · simp only [if_pos hn]
    rfl
  · simp only [if_neg hn, copyBegin_eq h (Nat.le_of_not_lt hn)]
    cases rb.copyBegin n <;> rfl

/-- A call that fits breaches nothing and keeps the bounds. -/
theorem call_ok (h : Bounds rb) {c : Call} (hfits : Fits rb c) :
    ∃ a rb', call rb c = .ok (a, rb') ∧ Bounds rb' := by
  cases c with
  | addData data =>
      obtain ⟨ret, rb', hok, hbounds⟩ := addData_ok h hfits
      exact ⟨.flag ret, rb', by rw [call, hok]; rfl, hbounds⟩
  | delData len =>
      obtain ⟨ret, rb', hok, hbounds⟩ := delData_ok h len
      exact ⟨.flag ret, rb', by rw [call, hok]; rfl, hbounds⟩
  | readBegin len =>
      obtain ⟨r, hok⟩ : ∃ r, readBegin rb len = .ok r :=
        ⟨_, by rw [readBegin_eq h.toInv, RingBuff.readBegin_ok h.toInv, checked_ok]⟩
      exact ⟨.bytes r.1 r.2, rb, by rw [call, hok]; rfl, h⟩
  | readDelBegin len =>
      unfold call readDelBegin
      simp only [dataSize_eq h.toInv, bind, Except.bind]
      by_cases hn : rb.dataSize < len
      · exact ⟨.bytes false [], rb, by simp only [if_pos hn]; rfl, h⟩
      · obtain ⟨ret, rb', hok, hbounds⟩ := delData_ok h len
        have hcopy := copyBegin_eq h.toInv (Nat.le_of_not_lt hn)
        rw [RingBuff.copyBegin_ok h.toInv (Nat.le_of_not_lt hn), checked_ok] at hcopy
        exact ⟨.bytes ret _, rb', by simp only [if_neg hn, hcopy, hok]; rfl, hbounds⟩
  | dataSize => exact ⟨.size rb.dataSize, rb, by rw [call, dataSize_eq h.toInv]; rfl, h⟩

theorem Reachable.bounds (h : Reachable rb) : Bounds rb := by
  induction h with
  | new => exact bounds_new
  | call _ hfits hcall ih =>
      -- the step is the one `call_ok` finds
      obtain ⟨_, _, hok, hbounds⟩ := call_ok ih hfits
      obtain ⟨rfl, rfl⟩ := Prod.mk.inj (Except.ok.inj (hok.symm.trans hcall))
      exact hbounds

/-- On a block of at most `2^63` cells a checked call is the call of `RingBuff`. -/
theorem call_eq_checked (h : Bounds rb) (hlen : rb.len ≤ 2 ^ 63) {c : Call} (hfits : Fits rb c) :
    call rb c = checked (rb.call c) := by
  have hsum : rb.tail + rb.dataSize < 2 ^ 64 := by
    have := h.tail_lt
    have := h.size_lt
    omega
  cases c with
  | addData data =>
      rw [call, RingBuff.call, addData_eq h hfits]
      cases rb.addData data <;> rfl
  | delData len =>
      rw [call, RingBuff.call, delData_eq h.toInv hsum]
      cases rb.delData len <;> rfl
  | readBegin len =>
      rw [call, RingBuff.call, readBegin_eq h.toInv]
      cases rb.readBegin len <;> rfl
  | readDelBegin len =>
      unfold call RingBuff.call readDelBegin RingBuff.readDelBegin
      simp only [dataSize_eq h.toInv, bind, Except.bind]
      by_cases hn : rb.dataSize < len
      · simp only [if_pos hn]
        rfl
      · simp only [if_neg hn, copyBegin_eq h.toInv (Nat.le_of_not_lt hn), delData_eq h.toInv hsum]
        cases rb.copyBegin len with
        | error fault => rfl
        | ok dest =>
            simp only [checked_ok]
            cases rb.delData len <;> rfl
  | dataSize => rw [call, RingBuff.call, dataSize_eq h.toInv]; rfl

/-- **Memory discipline**: in every state that can be reached while fewer than `2^63`
bytes are stored, the block has at least four cells, `_head` and `_tail` lie in it,
two cells are free, and any call that keeps to the limit runs without a breach. -/
theorem ringBuff_discipline (h : Reachable rb) :
    4 ≤ rb.len ∧ rb.head < rb.len ∧ rb.tail < rb.len ∧ rb.buff.length = rb.len ∧
      (∃ size, dataSize rb = .ok size ∧ size + 2 ≤ rb.len) ∧
      ∀ c, Fits rb c → ∃ a rb', call rb c = .ok (a, rb') := by
  have hb := h.bounds
  refine ⟨hb.four_le_len, hb.head_lt, hb.tail_lt, hb.length_buff,
    ⟨rb.dataSize, dataSize_eq hb.toInv, hb.margin⟩, ?_⟩
  intro c hfits
  obtain ⟨a, rb', hok, _⟩ := call_ok hb hfits
  exact ⟨a, rb', hok⟩

/-- Six bytes in a ring that has grown, of which two are removed: two more wrap. -/
theorem ringBuff_discipline_wraps :
    (∃ size, dataSize ⟨[0, 0, 3, 4, 5, 6, 0, 0], 8, 6, 2⟩ = .ok size ∧ size + 2 ≤ 8) ∧
      ∃ a rb', call ⟨[0, 0, 3, 4, 5, 6, 0, 0], 8, 6, 2⟩ (.addData [7, 8]) = .ok (a, rb') := by
  have h := ringBuff_discipline (.call (c := .delData 2)
    (.call (c := .addData [1, 2, 3, 4, 5, 6]) .new (by decide) rfl) (by decide) rfl)
  exact ⟨h.2.2.2.2.1, h.2.2.2.2.2 (.addData [7, 8]) (by decide)⟩

end Checked

end Rubo.Util.RingBuff
