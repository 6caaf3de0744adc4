import Mathlib.Algebra.Ring.Nat
import Mathlib.Data.Nat.Basic
import Mathlib.Tactic.Common

/-!
# Integers in Memory

Fixed-width little-endian byte images of natural numbers and of `Int32`.
`ofBytes` reads however many bytes it is given, so reading the low four bytes of
a zeroed wider integer is the same function.
-/

namespace Rubo.Foundation.LittleEndian

/-- The low `w` bytes of `n`, least significant first. -/
def toBytes : ℕ → ℕ → List UInt8
  | 0, _ => []
  | w + 1, n => UInt8.ofNat n :: toBytes w (n / 256)

/-- The number whose bytes are `bs`, least significant first. -/
def ofBytes : List UInt8 → ℕ
  | [] => 0
  | b :: bs => b.toNat + 256 * ofBytes bs

@[simp] theorem length_toBytes (w n : ℕ) : (toBytes w n).length = w := by
  induction w generalizing n with
  | zero => rfl
  | succ w ih => rw [toBytes, List.length_cons, ih]

theorem ofBytes_toBytes {w n : ℕ} (h : n < 256 ^ w) : ofBytes (toBytes w n) = n := by
  induction w generalizing n with
  | zero => simp only [toBytes, ofBytes]; omega
  | succ w ih =>
    -- the bytes after the first are those of the quotient
    have hdiv : n / 256 < 256 ^ w := by
      rw [Nat.div_lt_iff_lt_mul (by decide)]
      rwa [Nat.pow_succ] at h
    rw [toBytes, ofBytes, ih hdiv, UInt8.toNat_ofNat']
    omega

theorem ofBytes_lt (bs : List UInt8) : ofBytes bs < 256 ^ bs.length := by
  induction bs with
  | nil => simp [ofBytes]
  | cons b bs ih =>
    have hb := b.toNat_lt
    rw [ofBytes, List.length_cons, Nat.pow_succ]
    omega

theorem toBytes_ofBytes (bs : List UInt8) : toBytes bs.length (ofBytes bs) = bs := by
  induction bs with
  | nil => rfl
  | cons b bs ih =>
    have hb := b.toNat_lt
    have hdiv : (b.toNat + 256 * ofBytes bs) / 256 = ofBytes bs := by omega
    -- the first byte is the remainder
    have hmod : UInt8.ofNat (b.toNat + 256 * ofBytes bs) = b := by
      apply UInt8.toNat_inj.mp
      rw [UInt8.toNat_ofNat']
      omega
    rw [List.length_cons, toBytes, ofBytes, hdiv, hmod, ih]

/-- The four bytes of an `int`. -/
def ofInt32 (x : Int32) : List UInt8 := toBytes 4 x.toUInt32.toNat

/-- The `int` with these bytes. -/
def toInt32 (bs : List UInt8) : Int32 := (UInt32.ofNat (ofBytes bs)).toInt32

@[simp] theorem length_ofInt32 (x : Int32) : (ofInt32 x).length = 4 := length_toBytes ..

@[simp] theorem toInt32_ofInt32 (x : Int32) : toInt32 (ofInt32 x) = x := by
  have hlt := x.toUInt32.toNat_lt
  rw [toInt32, ofInt32, ofBytes_toBytes (by omega), UInt32.ofNat_toNat, Int32.toInt32_toUInt32]

/-- Four bytes are the image of the `int` read from them. -/
theorem ofInt32_toInt32 {bs : List UInt8} (h : bs.length = 4) : ofInt32 (toInt32 bs) = bs := by
  have hlt := ofBytes_lt bs
  rw [h] at hlt
  -- four bytes stay under `2^32`, so nothing is cut off
  have hnat : (UInt32.ofNat (ofBytes bs)).toNat = ofBytes bs := by
    rw [UInt32.toNat_ofNat']
    exact Nat.mod_eq_of_lt hlt
  rw [ofInt32, toInt32, UInt32.toUInt32_toInt32, hnat, ← h]
  exact toBytes_ofBytes bs

end Rubo.Foundation.LittleEndian
