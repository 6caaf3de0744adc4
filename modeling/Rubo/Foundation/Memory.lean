import Mathlib.Data.List.Basic
import Mathlib.Tactic.Common

/-!
# Bounded Memory Blocks

A heap block is a list of cells of fixed length. Every access names an offset
and a length, and an access that leaves the block is a `Fault`: a program that
returns `.ok` has therefore touched no cell outside its blocks.

`splice` is the total list operation behind a store; `getElem?_splice` is the
only fact about it that later proofs need.
-/

namespace Rubo.Foundation

/-- What can go wrong in a program over bounded blocks with counted loops. -/
inductive Fault where
  /-- An access outside the block. -/
  | outOfBounds
  /-- A loop that did not end within its iteration bound. -/
  | outOfFuel
  deriving DecidableEq, Repr

/-- The value of a computation known to succeed. -/
def okVal {ε α : Type*} : (x : Except ε α) → (∃ a, x = .ok a) → α
  | .ok a, _ => a
  | .error _, h => absurd h (by simp)

/-- Two descriptions of a successful computation agree. -/
theorem okVal_eq {ε α : Type*} {x : Except ε α} {h : ∃ a, x = .ok a} {a : α} (ha : x = .ok a) :
    okVal x h = a := by
  subst ha
  rfl

namespace Memory

variable {α : Type*}

/-- `mem` with the cells from `off` on replaced by `bs`. -/
def splice (mem : List α) (off : ℕ) (bs : List α) : List α :=
  mem.take off ++ bs ++ mem.drop (off + bs.length)

/-- Read `len` cells from offset `off`. -/
def load (mem : List α) (off len : ℕ) : Except Fault (List α) :=
  if off + len ≤ mem.length then .ok ((mem.drop off).take len) else .error .outOfBounds

/-- Write `bs` at offset `off`. -/
def store (mem : List α) (off : ℕ) (bs : List α) : Except Fault (List α) :=
  if off + bs.length ≤ mem.length then .ok (splice mem off bs) else .error .outOfBounds

/-! ## Successful accesses -/

theorem load_ok {mem : List α} {off len : ℕ} (h : off + len ≤ mem.length) :
    load mem off len = .ok ((mem.drop off).take len) :=
  if_pos h

theorem store_ok {mem : List α} {off : ℕ} {bs : List α} (h : off + bs.length ≤ mem.length) :
    store mem off bs = .ok (splice mem off bs) :=
  if_pos h

/-! ## Splices -/

theorem length_splice {mem : List α} {off : ℕ} {bs : List α}
    (h : off + bs.length ≤ mem.length) : (splice mem off bs).length = mem.length := by
  simp only [splice, List.length_append, List.length_take, List.length_drop]
  omega

/-- A splice changes the cells it covers and no other. -/
theorem getElem?_splice {mem : List α} {off : ℕ} {bs : List α}
    (h : off + bs.length ≤ mem.length) (i : ℕ) :
    (splice mem off bs)[i]? =
      if off ≤ i ∧ i < off + bs.length then bs[i - off]? else mem[i]? := by
  have hoff : (mem.take off).length = off := by
    rw [List.length_take]
    omega
  rw [splice, List.append_assoc]
  by_cases h₁ : i < off
  · -- before the new cells
    rw [List.getElem?_append_left (by omega), List.getElem?_take_of_lt h₁, if_neg (by omega)]
  · rw [List.getElem?_append_right (by omega), hoff]
    by_cases h₂ : i < off + bs.length
    · -- among them
      rw [List.getElem?_append_left (by omega), if_pos ⟨by omega, h₂⟩]
    · -- behind them
      rw [List.getElem?_append_right (by omega), List.getElem?_drop, if_neg (by omega)]
      congr 1
      omega

/-- Storing at the start of a block. -/
theorem splice_zero (mem bs : List α) : splice mem 0 bs = bs ++ mem.drop bs.length := by
  simp [splice]

/-- Storing behind the first cells. -/
theorem splice_append (xs ys bs : List α) :
    splice (xs ++ ys) xs.length bs = xs ++ bs ++ ys.drop bs.length := by
  simp [splice]

/-- The cells below the end of a splice are those below its start, then the new ones. -/
theorem take_splice {mem : List α} {off : ℕ} {bs : List α} (h : off ≤ mem.length) :
    (splice mem off bs).take (off + bs.length) = mem.take off ++ bs := by
  have hlen : (mem.take off ++ bs).length = off + bs.length := by
    rw [List.length_append, List.length_take]
    omega
  rw [splice, ← hlen, List.take_left]

end Memory

end Rubo.Foundation
