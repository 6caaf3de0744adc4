import Mathlib.Algebra.Ring.Nat
import Rubo.Comm.Global
import Rubo.Util.RingBuffQueue

/-!
# LineBuffer

The growing scratch block of `util/LineBuffer.cpp`. `append_size` keeps the old
bytes and zeroes the rest; `clean_data` zeroes everything and keeps the size, so
the size a caller finds is whatever earlier callers left.
-/

namespace Rubo.Util

open Rubo.Foundation Rubo.Comm Memory

/-- The fields of a `LineBuffer`. -/
structure LineBuffer where
  buffSize : ℕ
  buff : List UInt8
  deriving DecidableEq, Repr

namespace LineBuffer

/-- `DEF_LINE_BUFF_SIZE` -/
def defLineBuffSize : ℕ := 256

def new : LineBuffer where
  buffSize := defLineBuffSize
  buff := List.replicate defLineBuffSize 0

/-- The `while(true)` of `append_size`: double `new_size` up to `need_size`. -/
def doubleLoop : ℕ → ℕ → ℕ → Except Fault ℕ
  | fuel, newSize, needSize =>
    if newSize < needSize then
      match fuel with
      | 0 => .error .outOfFuel
      | fuel + 1 => doubleLoop fuel (newSize * 2) needSize
    else
      return newSize

/-- The `new_size` of `append_size`, from the present size. -/
def grownSize (buffSize needSize : ℕ) : Except Fault ℕ :=
  if needSize = 0 then
    if buffSize ≥ 1024 * 512 then
      return buffSize + 1024 * 4
    else
      return buffSize * 2
  else
    doubleLoop needSize buffSize needSize

/-- `append_size(need_size)`; the default argument is `0`. -/
def appendSize (b : LineBuffer) (needSize : ℕ) : Except Fault LineBuffer := do
  let newSize ← grownSize b.buffSize needSize
  let newBuff := List.replicate newSize 0
  let newBuff ← stdcopy newBuff 0 b.buff 0 b.buffSize
  return { buffSize := newSize, buff := newBuff }

def cleanData (b : LineBuffer) : Except Fault LineBuffer := do
  let buff ← fillZero b.buff 0 b.buffSize
  return { b with buff := buff }

/-- What holds of every `LineBuffer` between calls. -/
structure Inv (b : LineBuffer) : Prop where
  length_buff : b.buff.length = b.buffSize
  size_pos : 0 < b.buffSize

theorem inv_new : Inv new := ⟨List.length_replicate, by decide⟩

/-- A non-zero size reaches every request by doubling, and does not go further
than it has to. -/
theorem doubleLoop_ok {fuel newSize needSize : ℕ} (hpos : 0 < newSize)
    (hfuel : needSize ≤ newSize + fuel) :
    ∃ k, doubleLoop fuel newSize needSize = .ok (newSize * 2 ^ k) ∧ needSize ≤ newSize * 2 ^ k ∧
      (k = 0 ∨ newSize * 2 ^ k < 2 * needSize) := by
  induction fuel generalizing newSize with
  | zero => exact ⟨0, by rw [doubleLoop, if_neg (by omega), pow_zero, Nat.mul_one]; rfl, by omega, .inl rfl⟩
  | succ fuel ih =>
    unfold doubleLoop
    by_cases h : newSize < needSize
    · have hpos' : 0 < newSize * 2 := by omega
      -- every doubling adds at least one, so the fuel lasts until `need_size`
      obtain ⟨k, hn, hneed, hleast⟩ := ih hpos' (by omega)
      have hpow : newSize * 2 * 2 ^ k = newSize * 2 ^ (k + 1) := by
        rw [Nat.pow_succ, Nat.mul_assoc, Nat.mul_comm 2]
      refine ⟨k + 1, by rw [if_pos h, ← hpow]; exact hn, hpow ▸ hneed, .inr ?_⟩
      rcases hleast with rfl | hlt
      · omega
      · exact hpow ▸ hlt
    · exact ⟨0, by rw [if_neg h, pow_zero, Nat.mul_one]; rfl, by omega, .inl rfl⟩

/-- Both growth policies give a size that is large enough. -/
theorem grownSize_ok {buffSize : ℕ} (hpos : 0 < buffSize) (needSize : ℕ) :
    ∃ n, grownSize buffSize needSize = .ok n ∧ needSize ≤ n ∧ buffSize ≤ n ∧
      (needSize = 0 → buffSize < n) := by
  unfold grownSize
  by_cases h0 : needSize = 0
  · rw [if_pos h0]
    -- without a request: one page more, or twice the size
    split_ifs
    · exact ⟨_, rfl, by omega, by omega, by omega⟩
    · exact ⟨_, rfl, by omega, by omega, by omega⟩
  · have hfuel : needSize ≤ buffSize + needSize := Nat.le_add_left ..
    obtain ⟨k, hn, hneed, _⟩ := doubleLoop_ok hpos hfuel
    have hle : buffSize ≤ buffSize * 2 ^ k := Nat.le_mul_of_pos_right _ (Nat.two_pow_pos k)
    exact ⟨_, by rw [if_neg h0, hn], hneed, hle, fun h => absurd h h0⟩

theorem appendSize_ok {b : LineBuffer} (h : b.Inv) (needSize : ℕ) :
    ∃ b', b.appendSize needSize = .ok b' ∧ b'.Inv ∧
      grownSize b.buffSize needSize = .ok b'.buffSize ∧ needSize ≤ b'.buffSize ∧
      b.buffSize ≤ b'.buffSize ∧ (needSize = 0 → b.buffSize < b'.buffSize) ∧
      b'.buff = b.buff ++ List.replicate (b'.buffSize - b.buffSize) 0 := by
  have hl := h.length_buff
  have hpos := h.size_pos
  obtain ⟨n, hn, hneed, hle, hlt⟩ := grownSize_ok hpos needSize
  -- all of the old block is copied
  have htake : (b.buff.drop 0).take b.buffSize = b.buff := by
    rw [List.drop_zero, ← hl, List.take_length]
  refine ⟨{ buffSize := n, buff := b.buff ++ List.replicate (n - b.buffSize) 0 }, ?_, ⟨?_, ?_⟩,
    hn, hneed, hle, hlt, rfl⟩
  · rw [appendSize, hn]
    simp only [bind, Except.bind]
    rw [stdcopy_ok (by omega) (by simp; omega), htake, splice_zero, List.drop_replicate, hl]
    rfl
  · rw [List.length_append, List.length_replicate, hl]
    show b.buffSize + (n - b.buffSize) = n
    omega
  · show 0 < n
    omega

theorem cleanData_ok {b : LineBuffer} (h : b.Inv) :
    b.cleanData = .ok { b with buff := List.replicate b.buffSize 0 } := by
  have hl := h.length_buff
  rw [cleanData, fillZero_ok (by omega), splice_zero, List.length_replicate,
    List.drop_eq_nil_of_le (by omega), List.append_nil]
  rfl

end LineBuffer

/-! ## Scratch buffers with their invariant -/

/-- `LineBufferPtr`: a scratch buffer other code holds. -/
structure LineBufferPtr where
  b : LineBuffer
  inv : b.Inv

namespace LineBufferPtr

/-- `LineBufferPtr(new LineBuffer())` -/
def new : LineBufferPtr := ⟨LineBuffer.new, LineBuffer.inv_new⟩

def buffSize (p : LineBufferPtr) : ℕ := p.b.buffSize

/-- The bytes behind `data()`. -/
def data (p : LineBufferPtr) : List UInt8 := p.b.buff

private theorem appendSize_isOk (p : LineBufferPtr) (needSize : ℕ) :
    ∃ r, p.b.appendSize needSize = .ok r :=
  let ⟨_, h, _⟩ := LineBuffer.appendSize_ok p.inv needSize
  ⟨_, h⟩

def appendSize (p : LineBufferPtr) (needSize : ℕ) : LineBufferPtr where
  b := okVal (p.b.appendSize needSize) (p.appendSize_isOk needSize)
  inv := by
    obtain ⟨b', h, hinv, _⟩ := LineBuffer.appendSize_ok p.inv needSize
    rw [okVal_eq h]
    exact hinv

def cleanData (p : LineBufferPtr) : LineBufferPtr where
  b := okVal p.b.cleanData ⟨_, LineBuffer.cleanData_ok p.inv⟩
  inv := by
    rw [okVal_eq (LineBuffer.cleanData_ok p.inv)]
    exact ⟨List.length_replicate, p.inv.size_pos⟩

/-- A write of `bs` to `data() + off`. The bound is an argument, so no caller
can be stated that writes past the block. -/
def write (p : LineBufferPtr) (off : ℕ) (bs : List UInt8) (h : off + bs.length ≤ p.buffSize) :
    LineBufferPtr where
  b := { p.b with buff := splice p.b.buff off bs }
  inv := by
    refine ⟨?_, p.inv.size_pos⟩
    rw [length_splice (by rw [p.inv.length_buff]; exact h)]
    exact p.inv.length_buff

@[simp] theorem length_data (p : LineBufferPtr) : p.data.length = p.buffSize := p.inv.length_buff

theorem buffSize_pos (p : LineBufferPtr) : 0 < p.buffSize := p.inv.size_pos

private theorem appendSize_spec (p : LineBufferPtr) (needSize : ℕ) :
    LineBuffer.grownSize p.buffSize needSize = .ok (p.appendSize needSize).buffSize ∧
      needSize ≤ (p.appendSize needSize).buffSize ∧ p.buffSize ≤ (p.appendSize needSize).buffSize ∧
      (needSize = 0 → p.buffSize < (p.appendSize needSize).buffSize) ∧
      (p.appendSize needSize).data =
        p.data ++ List.replicate ((p.appendSize needSize).buffSize - p.buffSize) 0 := by
  obtain ⟨b', h, _, hspec⟩ := LineBuffer.appendSize_ok p.inv needSize
  have hb : (p.appendSize needSize).b = b' := okVal_eq h
  unfold buffSize data
  rw [hb]
  exact hspec

theorem le_buffSize_appendSize (p : LineBufferPtr) (needSize : ℕ) :
    needSize ≤ (p.appendSize needSize).buffSize := (p.appendSize_spec needSize).2.1

theorem buffSize_le_appendSize (p : LineBufferPtr) (needSize : ℕ) :
    p.buffSize ≤ (p.appendSize needSize).buffSize := (p.appendSize_spec needSize).2.2.1

theorem buffSize_lt_appendSize_zero (p : LineBufferPtr) :
    p.buffSize < (p.appendSize 0).buffSize := (p.appendSize_spec 0).2.2.2.1 rfl

theorem data_appendSize (p : LineBufferPtr) (needSize : ℕ) :
    (p.appendSize needSize).data =
      p.data ++ List.replicate ((p.appendSize needSize).buffSize - p.buffSize) 0 :=
  (p.appendSize_spec needSize).2.2.2.2

private theorem b_cleanData (p : LineBufferPtr) :
    p.cleanData.b = { p.b with buff := List.replicate p.b.buffSize 0 } :=
  okVal_eq (LineBuffer.cleanData_ok p.inv)

@[simp] theorem buffSize_cleanData (p : LineBufferPtr) : p.cleanData.buffSize = p.buffSize := by
  rw [buffSize, b_cleanData]
  rfl

@[simp] theorem data_cleanData (p : LineBufferPtr) :
    p.cleanData.data = List.replicate p.buffSize 0 := by
  rw [data, b_cleanData]
  rfl

@[simp] theorem buffSize_write (p : LineBufferPtr) (off : ℕ) (bs : List UInt8) (h) :
    (p.write off bs h).buffSize = p.buffSize := rfl

@[simp] theorem data_write (p : LineBufferPtr) (off : ℕ) (bs : List UInt8) (h) :
    (p.write off bs h).data = splice p.data off bs := rfl

/-- The size `append_size` grows to depends on the present size only. -/
def grown (buffSize needSize : ℕ) : ℕ :=
  match LineBuffer.grownSize buffSize needSize with
  | .ok newSize => newSize
  | .error _ => buffSize

theorem buffSize_appendSize (p : LineBufferPtr) (needSize : ℕ) :
    (p.appendSize needSize).buffSize = grown p.buffSize needSize := by
  rw [grown, (p.appendSize_spec needSize).1]

/-- A request is met exactly when it is a doubling of the present size. -/
theorem grown_eq_iff {buffSize needSize : ℕ} (hpos : 0 < buffSize) (hneed : 0 < needSize) :
    grown buffSize needSize = needSize ↔ ∃ k, needSize = buffSize * 2 ^ k := by
  -- the loop stops at the least doubling that is large enough
  obtain ⟨k, hk, hle, hleast⟩ := LineBuffer.doubleLoop_ok hpos (Nat.le_add_left needSize buffSize)
  have hgrown : grown buffSize needSize = buffSize * 2 ^ k := by
    rw [grown, LineBuffer.grownSize, if_neg (by omega), hk]
  rw [hgrown]
  constructor
  · intro h
    exact ⟨k, h.symm⟩
  · rintro ⟨j, hj⟩
    rw [hj] at hle hleast ⊢
    have hjk : j ≤ k := (Nat.pow_le_pow_iff_right (by decide)).mp (Nat.le_of_mul_le_mul_left hle hpos)
    rcases Nat.eq_or_lt_of_le hjk with rfl | hlt
    · rfl
    · -- one doubling more than needed would not have been made
      rcases hleast with rfl | hleast
      · omega
      · have hpow : 2 ^ (j + 1) ≤ 2 ^ k := Nat.pow_le_pow_right (by decide) hlt
        have := Nat.mul_le_mul_left buffSize hpow
        rw [Nat.pow_succ, ← Nat.mul_assoc] at this
        omega

/-- A cleaned and grown buffer is all zeros. -/
theorem data_cleanData_appendSize (p : LineBufferPtr) (needSize : ℕ) :
    (p.cleanData.appendSize needSize).data =
      List.replicate (p.cleanData.appendSize needSize).buffSize 0 := by
  have h := p.cleanData.buffSize_le_appendSize needSize
  rw [data_appendSize, data_cleanData, List.replicate_append_replicate]
  congr 1
  rw [buffSize_cleanData] at h ⊢
  omega

/-- What `clean_data`, `append_size` and a copy to the front make of a buffer. -/
def hold (p : LineBufferPtr) (bs : List UInt8) : LineBufferPtr :=
  (p.cleanData.appendSize bs.length).write 0 bs (by
    rw [Nat.zero_add]
    exact p.cleanData.le_buffSize_appendSize bs.length)

theorem buffSize_hold (p : LineBufferPtr) (bs : List UInt8) :
    (p.hold bs).buffSize = grown p.buffSize bs.length := by
  rw [hold, buffSize_write, buffSize_appendSize, buffSize_cleanData]

theorem buffSize_le_hold (p : LineBufferPtr) (bs : List UInt8) : p.buffSize ≤ (p.hold bs).buffSize := by
  have hle := p.cleanData.buffSize_le_appendSize bs.length
  rwa [buffSize_cleanData] at hle

theorem length_le_buffSize_hold (p : LineBufferPtr) (bs : List UInt8) :
    bs.length ≤ (p.hold bs).buffSize :=
  p.cleanData.le_buffSize_appendSize bs.length

theorem data_hold (p : LineBufferPtr) (bs : List UInt8) :
    (p.hold bs).data = bs ++ List.replicate ((p.hold bs).buffSize - bs.length) 0 := by
  rw [hold, data_write, data_cleanData_appendSize, splice_zero, List.drop_replicate,
    buffSize_write]

/-- `ring->read_del_begin(scratch->data(), len)`: the flag is not looked at. -/
def readDelBegin (p : LineBufferPtr) (ring : RingBuffPtr) (len : ℕ) (h : len ≤ p.buffSize) :
    LineBufferPtr × RingBuffPtr :=
  let r := ring.readDelBegin len
  (p.write 0 r.1.2 (by
    rw [Nat.zero_add]
    exact (ring.length_readDelBegin_le len).trans h), r.2)

/-- The three calls that move the front of a ring into a scratch buffer. -/
theorem readDelBegin_cleanData_appendSize (p : LineBufferPtr) {ring : RingBuffPtr}
    {xs ys : List UInt8} (h : ring.toList = xs ++ ys) (hpos : 0 < xs.length) (hroom) :
    ∃ ring', ring'.toList = ys ∧
      (p.cleanData.appendSize xs.length).readDelBegin ring xs.length hroom = (p.hold xs, ring') := by
  obtain ⟨hread, hleft⟩ := RingBuffPtr.readDelBegin_append h rfl hpos
  refine ⟨_, hleft, ?_⟩
  simp only [readDelBegin, hread]
  rfl

end LineBufferPtr

end Rubo.Util
