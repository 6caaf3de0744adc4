import Mathlib.Algebra.Ring.Nat
import Mathlib.Tactic.Common

/-!
# Unsigned 64-bit Arithmetic

The operators of `size_t` on natural numbers below `2^64`: sums, differences and
products are taken modulo `2^64`. Each has a lemma for the case in which it does
not wrap.
-/

namespace Rubo.Foundation.SizeT

/-- `a + b` -/
def add (a b : ℕ) : ℕ := (a + b) % 2 ^ 64

/-- `a - b`, for `b < 2^64` -/
def sub (a b : ℕ) : ℕ := (a + (2 ^ 64 - b)) % 2 ^ 64

/-- `a * b` -/
def mul (a b : ℕ) : ℕ := a * b % 2 ^ 64

variable {a b : ℕ}

theorem add_eq (h : a + b < 2 ^ 64) : add a b = a + b := Nat.mod_eq_of_lt h

theorem mul_eq (h : a * b < 2 ^ 64) : mul a b = a * b := Nat.mod_eq_of_lt h

theorem sub_eq (hle : b ≤ a) (ha : a < 2 ^ 64) : sub a b = a - b := by
  unfold sub
  omega

theorem mul_lt (a b : ℕ) : mul a b < 2 ^ 64 := Nat.mod_lt _ (by decide)

theorem add_lt (a b : ℕ) : add a b < 2 ^ 64 := Nat.mod_lt _ (by decide)

end Rubo.Foundation.SizeT
