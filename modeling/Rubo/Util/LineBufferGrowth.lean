import Rubo.Foundation.SizeT
import Rubo.Util.LineBuffer

/-!
# LineBuffer: Growth in 64 Bits

`append_size` with the arithmetic it has: sizes are `size_t`, so doubling can
wrap, and a size that has wrapped to zero is doubled for ever. `appendSize_grows`
says that this does not happen for requests of up to `2^63` bytes, whatever sizes
earlier calls have left; `appendSize_hangs` says that it does for every larger one
on a new buffer.
-/

namespace Rubo.Util.LineBuffer

open Rubo.Foundation Rubo.Comm Memory

namespace Word

/-- The `while(true)` of `append_size`. -/
def doubleLoop : ℕ → ℕ → ℕ → Except Fault ℕ
  | fuel, newSize, needSize =>
    if newSize < needSize then
      match fuel with
      | 0 => .error .outOfFuel
      | fuel + 1 => doubleLoop fuel (SizeT.mul newSize 2) needSize
    else
      return newSize

/-- The `new_size` of `append_size`, from the present size. -/
def grownSize (buffSize needSize : ℕ) : Except Fault ℕ :=
  if needSize = 0 then
    if buffSize ≥ 1024 * 512 then
      return SizeT.add buffSize (1024 * 4)
    else
      return SizeT.mul buffSize 2
  else
    doubleLoop needSize buffSize needSize

/-- `append_size(need_size)`; the default argument is `0`. -/
def appendSize (b : LineBuffer) (needSize : ℕ) : Except Fault LineBuffer := do
  let newSize ← grownSize b.buffSize needSize
  let newBuff := List.replicate newSize 0
  let newBuff ← stdcopy newBuff 0 b.buff 0 b.buffSize
  return { buffSize := newSize, buff := newBuff }

/-- The states of a buffer on which `append_size` and `clean_data` are called, and
whose block the caller writes to. -/
inductive Reachable : LineBuffer → Prop where
  | new : Reachable LineBuffer.new

  /-- A request of at most `2^63` bytes, or the default one. -/
  | appendSize {b b' : LineBuffer} {needSize : ℕ} :
      Reachable b → needSize ≤ 2 ^ 63 → appendSize b needSize = .ok b' → Reachable b'

  | cleanData {b b' : LineBuffer} : Reachable b → b.cleanData = .ok b' → Reachable b'

  /-- Bytes written to `data()`, within the block. -/
  | write {b : LineBuffer} {off : ℕ} {bs : List UInt8} :
      Reachable b → off + bs.length ≤ b.buffSize →
        Reachable { b with buff := splice b.buff off bs }

/-! ## Sizes -/

variable {b : LineBuffer} {buffSize needSize : ℕ}

/-- Up to `2^63` no doubling wraps. -/
theorem doubleLoop_eq (hneed : needSize ≤ 2 ^ 63) (fuel newSize : ℕ) :
    doubleLoop fuel newSize needSize = LineBuffer.doubleLoop fuel newSize needSize := by
  induction fuel generalizing newSize with
  | zero => rw [doubleLoop, LineBuffer.doubleLoop]
  | succ fuel ih =>
      rw [doubleLoop, LineBuffer.doubleLoop]
      split_ifs with hlt
      · -- the size doubled is below the request
        have hmul : SizeT.mul newSize 2 = newSize * 2 := SizeT.mul_eq (by omega)
        simp only [hmul, ih]
      · rfl

theorem grownSize_eq (hneed : needSize ≤ 2 ^ 63) (hdefault : needSize = 0 → buffSize < 2 ^ 63) :
    grownSize buffSize needSize = LineBuffer.grownSize buffSize needSize := by
  unfold grownSize LineBuffer.grownSize
  split_ifs with h0 hlarge
  · have hsmall := hdefault h0
    rw [SizeT.add_eq (by omega)]
  · rw [SizeT.mul_eq (by omega)]
  · exact doubleLoop_eq hneed _ _

theorem appendSize_eq (hneed : needSize ≤ 2 ^ 63) (hdefault : needSize = 0 → b.buffSize < 2 ^ 63) :
    appendSize b needSize = b.appendSize needSize := by
  rw [appendSize, LineBuffer.appendSize, grownSize_eq hneed hdefault]

/-- What is computed is a `size_t` again. -/
theorem grownSize_lt (hsize : buffSize < 2 ^ 64) {n : ℕ}
    (hn : grownSize buffSize needSize = .ok n) : n < 2 ^ 64 := by
  have hloop : ∀ fuel newSize, newSize < 2 ^ 64 → doubleLoop fuel newSize needSize = .ok n →
      n < 2 ^ 64 := by
    intro fuel
    induction fuel with
    | zero =>
        intro newSize hlt h
        rw [doubleLoop] at h
        split_ifs at h
        exact Except.ok.inj h ▸ hlt
    | succ fuel ih =>
        intro newSize hlt h
        rw [doubleLoop] at h
        split_ifs at h
        · exact ih _ (SizeT.mul_lt _ _) h
        · exact Except.ok.inj h ▸ hlt
  unfold grownSize at hn
  split_ifs at hn
  · exact Except.ok.inj hn ▸ SizeT.add_lt _ _
  · exact Except.ok.inj hn ▸ SizeT.mul_lt _ _
  · exact hloop _ _ hsize hn

/-! ## Every reachable buffer -/

/-- What holds of every buffer between calls. -/
structure Bounds (b : LineBuffer) : Prop extends b.Inv where
  size_lt : b.buffSize < 2 ^ 64

theorem bounds_new : Bounds LineBuffer.new where
  toInv := inv_new
  size_lt := by decide

/-- A call that returns has copied the old block, so the new one is no smaller. -/
theorem Bounds.appendSize (h : Bounds b) {b' : LineBuffer}
    (hcall : appendSize b needSize = .ok b') : Bounds b' := by
  have hl := h.length_buff
  have hpos := h.size_pos
  unfold Word.appendSize at hcall
  cases hn : grownSize b.buffSize needSize with
  | error fault =>
      rw [hn] at hcall
      cases hcall
  | ok n =>
      rw [hn] at hcall
      simp only [bind, Except.bind] at hcall
      by_cases hle : b.buffSize ≤ n
      · rw [stdcopy_ok (by omega) (by simp; omega)] at hcall
        obtain rfl := Except.ok.inj hcall
        refine ⟨⟨?_, Nat.lt_of_lt_of_le hpos hle⟩, grownSize_lt h.size_lt hn⟩
        exact (length_splice (by simp; omega)).trans (List.length_replicate ..)
      · -- the copy would leave the new block
        have hcopy : stdcopy (List.replicate n 0) 0 b.buff 0 b.buffSize = .error .outOfBounds := by
          rw [stdcopy, load_ok (by omega)]
          exact if_neg (by simp; omega)
        rw [hcopy] at hcall
        cases hcall

theorem Reachable.bounds (h : Reachable b) : Bounds b := by
  induction h with
  | new => exact bounds_new
  | appendSize _ _ hcall ih => exact ih.appendSize hcall
  | cleanData _ hcall ih =>
      rw [cleanData_ok ih.toInv] at hcall
      obtain rfl := Except.ok.inj hcall
      exact ⟨⟨List.length_replicate, ih.size_pos⟩, ih.size_lt⟩
  | @write b off bs _ hin ih =>
      have hl := ih.length_buff
      exact ⟨⟨(length_splice (by omega)).trans hl, ih.size_pos⟩, ih.size_lt⟩

/-- **Growth**: from every reachable buffer, `append_size` ends for requests of up to
`2^63` bytes and, below `2^63`, for the default one; no size wraps; the block is large
enough, begins with the old one and goes on with zeros. -/
theorem appendSize_grows (h : Reachable b) (hneed : needSize ≤ 2 ^ 63)
    (hdefault : needSize = 0 → b.buffSize < 2 ^ 63) :
    ∃ b', appendSize b needSize = .ok b' ∧
      -- the sizes are those of unbounded arithmetic
      b.appendSize needSize = .ok b' ∧ b'.buffSize < 2 ^ 64 ∧
      needSize ≤ b'.buffSize ∧ b.buffSize ≤ b'.buffSize ∧
      (needSize = 0 → b.buffSize < b'.buffSize) ∧
      b.buff.length = b.buffSize ∧ b'.buff.length = b'.buffSize ∧
      b'.buff.take b.buffSize = b.buff ∧
      b'.buff.drop b.buffSize = List.replicate (b'.buffSize - b.buffSize) 0 := by
  have hbounds := h.bounds
  have hl := hbounds.length_buff
  obtain ⟨b', hcall, hinv, -, hge, hle, hlt, hbuff⟩ := appendSize_ok hbounds.toInv needSize
  have hword : appendSize b needSize = .ok b' := (appendSize_eq hneed hdefault).trans hcall
  refine ⟨b', hword, hcall, (hbounds.appendSize hword).size_lt, hge, hle, hlt, hl,
    hinv.length_buff, ?_, ?_⟩
  · rw [hbuff, ← hl, List.take_left]
  · rw [hbuff, ← hl, List.drop_left]

/-- A buffer that has been written to, and a request it does not hold. -/
theorem appendSize_grows_written :
    ∃ b', appendSize { LineBuffer.new with buff := splice LineBuffer.new.buff 3 [1, 2] } 700 =
        .ok b' ∧
      700 ≤ b'.buffSize ∧ b'.buff.take 256 = splice LineBuffer.new.buff 3 [1, 2] := by
  have hwritten : Reachable { LineBuffer.new with buff := splice LineBuffer.new.buff 3 [1, 2] } :=
    .write .new (by decide)
  obtain ⟨b', hcall, -, -, hge, -, -, -, -, htake, -⟩ :=
    appendSize_grows hwritten (show 700 ≤ 2 ^ 63 by decide) (by decide)
  exact ⟨b', hcall, hge, htake⟩

/-! ## Larger requests -/

/-- What doubling makes of a power of two: the powers up to `2^63`, then zero. -/
def PowOrZero (newSize : ℕ) : Prop := newSize = 0 ∨ ∃ k ≤ 63, newSize = 2 ^ k

theorem PowOrZero.le {newSize : ℕ} (h : PowOrZero newSize) : newSize ≤ 2 ^ 63 := by
  rcases h with rfl | ⟨k, hk, rfl⟩
  · exact Nat.zero_le _
  · exact Nat.pow_le_pow_right (by decide) hk

/-- Twice `2^63` is zero, and so is twice zero. -/
theorem PowOrZero.mul_two {newSize : ℕ} (h : PowOrZero newSize) :
    PowOrZero (SizeT.mul newSize 2) := by
  rcases h with rfl | ⟨k, hk, rfl⟩
  · exact .inl rfl
  · rcases Nat.eq_or_lt_of_le hk with rfl | hlt
    · exact .inl (by decide)
    · refine .inr ⟨k + 1, hlt, ?_⟩
      rw [Nat.pow_succ]
      apply SizeT.mul_eq
      rw [← Nat.pow_succ]
      exact Nat.pow_lt_pow_right (by decide) (by omega)

/-- No such size reaches a request above `2^63`. -/
theorem doubleLoop_hangs (hneed : 2 ^ 63 < needSize) (fuel : ℕ) {newSize : ℕ}
    (hpow : PowOrZero newSize) :
    doubleLoop fuel newSize needSize = .error .outOfFuel := by
  induction fuel generalizing newSize with
  | zero =>
      have hlt : newSize < needSize := Nat.lt_of_le_of_lt hpow.le hneed
      rw [doubleLoop, if_pos hlt]
  | succ fuel ih =>
      have hlt : newSize < needSize := Nat.lt_of_le_of_lt hpow.le hneed
      rw [doubleLoop, if_pos hlt]
      exact ih hpow.mul_two

/-- **The bound is sharp**: on a new buffer every larger request is doubled for ever. -/
theorem appendSize_hangs (hneed : 2 ^ 63 < needSize) :
    appendSize LineBuffer.new needSize = .error .outOfFuel := by
  have hloop : grownSize LineBuffer.new.buffSize needSize = .error .outOfFuel := by
    rw [grownSize, if_neg (by omega)]
    exact doubleLoop_hangs hneed needSize (.inr ⟨8, by decide, rfl⟩)
  rw [Word.appendSize, hloop]
  rfl

end Word

end Rubo.Util.LineBuffer
