import Mathlib.Algebra.Ring.Nat
import Mathlib.Tactic.Common

/-!
# Base-128 Numbers

Numbers as bytes of seven bits each, lowest first; every byte but the last has
its high bit set. The first argument bounds the number of bytes.
-/

namespace Rubo.Foundation.Varint

/-- The bytes of `n`, at most `w` of them. -/
def toBytes : ℕ → ℕ → List UInt8
  | 0, _ => []
  | w + 1, n =>
    if n < 128 then [UInt8.ofNat n] else UInt8.ofNat (n % 128 + 128) :: toBytes w (n / 128)

/-- The number at the front of a stream and what follows it. -/
def ofBytes : ℕ → List UInt8 → Option (ℕ × List UInt8)
  | 0, _ => none
  | _ + 1, [] => none
  | w + 1, b :: bs =>
    if b.toNat < 128 then some (b.toNat, bs)
    else
      match ofBytes w bs with
      | none => none
      | some (n, rest) => some (b.toNat - 128 + 128 * n, rest)

theorem length_toBytes_le (w n : ℕ) : (toBytes w n).length ≤ w := by
  induction w generalizing n with
  | zero => exact Nat.le_refl 0
  | succ w ih =>
      rw [toBytes]
      split_ifs
      · exact Nat.succ_le_succ (Nat.zero_le w)
      · exact Nat.succ_le_succ (ih _)

/-- What is written is read back, also by a reader that allows for more bytes. -/
theorem ofBytes_toBytes_of_le {u w n : ℕ} (hle : w ≤ u) (h : n < 128 ^ w) (hw : w ≠ 0)
    (rest : List UInt8) : ofBytes u (toBytes w n ++ rest) = some (n, rest) := by
  induction w generalizing u n with
  | zero => exact absurd rfl hw
  | succ w ih =>
      obtain ⟨u, rfl⟩ : ∃ k, u = k + 1 := ⟨u - 1, by omega⟩
      by_cases hn : n < 128
      · -- one byte, without the continuation bit
        have hbyte : (UInt8.ofNat n).toNat = n := by
          rw [UInt8.toNat_ofNat']
          omega
        simp only [toBytes, if_pos hn, List.singleton_append, ofBytes, hbyte]
      · have hrest : n / 128 < 128 ^ w := by
          apply Nat.div_lt_of_lt_mul
          rwa [Nat.mul_comm, ← pow_succ]
        have hw' : w ≠ 0 := by
          rintro rfl
          exact hn (by simpa using h)
        have hbyte : (UInt8.ofNat (n % 128 + 128)).toNat = n % 128 + 128 := by
          rw [UInt8.toNat_ofNat']
          omega
        have hbig : ¬ n % 128 + 128 < 128 := by omega
        rw [toBytes, if_neg hn, List.cons_append, ofBytes, hbyte, if_neg hbig,
          ih (Nat.le_of_succ_le_succ hle) hrest hw']
        simp only [Option.some.injEq, Prod.mk.injEq, and_true]
        omega

theorem ofBytes_toBytes {w n : ℕ} (h : n < 128 ^ (w + 1)) (rest : List UInt8) :
    ofBytes (w + 1) (toBytes (w + 1) n ++ rest) = some (n, rest) :=
  ofBytes_toBytes_of_le (Nat.le_refl _) h (Nat.succ_ne_zero w) rest

/-- Only the number zero is written with a zero byte. -/
theorem ne_zero_of_mem_toBytes {w n : ℕ} (hn : n ≠ 0) : ∀ b ∈ toBytes w n, b ≠ 0 := by
  induction w generalizing n with
  | zero => exact fun _ hb => absurd hb List.not_mem_nil
  | succ w ih =>
      intro b hb
      rw [toBytes] at hb
      split_ifs at hb with hsmall
      · -- the only byte is `n`
        rw [List.mem_singleton.mp hb, ne_eq, ← UInt8.toNat_inj, UInt8.toNat_ofNat']
        show ¬ n % 256 = 0
        omega
      · rcases List.mem_cons.mp hb with rfl | hb
        · -- a byte with the continuation bit is at least 128
          rw [ne_eq, ← UInt8.toNat_inj, UInt8.toNat_ofNat']
          show ¬ (n % 128 + 128) % 256 = 0
          omega
        · exact ih (by omega) b hb

theorem toBytes_ne_nil (w n : ℕ) : toBytes (w + 1) n ≠ [] := by
  rw [toBytes]
  split_ifs
  · exact List.cons_ne_nil _ _
  · exact List.cons_ne_nil _ _

/-- A number that is cut off is no number. -/
theorem ofBytes_of_prefix (u : ℕ) {w n : ℕ} {p : List UInt8} (hp : p <+: toBytes w n)
    (hne : p ≠ toBytes w n) : ofBytes u p = none := by
  induction w generalizing u n p with
  | zero => exact absurd (List.prefix_nil.mp hp) hne
  | succ w ih =>
      cases u with
      | zero => rfl
      | succ u =>
          cases p with
          | nil => rfl
          | cons b p =>
              rw [toBytes] at hp hne
              split_ifs at hp hne with hsmall
              · -- one byte is not cut
                obtain ⟨rfl, htail⟩ := List.cons_prefix_cons.mp hp
                rw [List.prefix_nil.mp htail] at hne
                exact absurd rfl hne
              · obtain ⟨rfl, htail⟩ := List.cons_prefix_cons.mp hp
                have hbyte : (UInt8.ofNat (n % 128 + 128)).toNat = n % 128 + 128 := by
                  rw [UInt8.toNat_ofNat']
                  omega
                have hbig : ¬ n % 128 + 128 < 128 := by omega
                rw [ofBytes, hbyte, if_neg hbig, ih u htail fun heq => hne (heq ▸ rfl)]

theorem zero_mem_toBytes {w n : ℕ} : 0 ∈ toBytes (w + 1) n ↔ n = 0 := by
  constructor
  · intro hmem
    by_contra hn
    exact ne_zero_of_mem_toBytes hn 0 hmem rfl
  · rintro rfl
    exact List.mem_singleton.mpr rfl

end Rubo.Foundation.Varint
