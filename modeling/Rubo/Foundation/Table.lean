import Mathlib.Logic.Function.Basic
import Mathlib.Tactic.Common

/-!
# Keyed Tables

An associative table in the style of `std::map`, seen through what a lookup
answers. Insertion comes in two forms, as it does there: `set` overwrites
(`m[k] = a`), `insert` keeps an entry that is already present.
-/

namespace Rubo.Foundation

/-- A table from keys to values. -/
@[ext] structure Table (κ α : Type*) where
  /-- The value stored under a key, if any. -/
  find : κ → Option α

namespace Table

variable {κ α : Type*}

/-- The table without entries. -/
def empty : Table κ α := ⟨fun _ => none⟩

variable [DecidableEq κ] (t : Table κ α)

/-- `m[k] = a` -/
def set (k : κ) (a : α) : Table κ α := ⟨Function.update t.find k (some a)⟩

/-- `m.insert({k, a})` -/
def insert (k : κ) (a : α) : Table κ α :=
  match t.find k with
  | none => t.set k a
  | some _ => t

/-- `m.erase(k)` -/
def erase (k : κ) : Table κ α := ⟨Function.update t.find k none⟩

theorem find_set (k : κ) (a : α) (k' : κ) :
    (t.set k a).find k' = if k' = k then some a else t.find k' :=
  Function.update_apply ..

@[simp] theorem find_set_self (k : κ) (a : α) : (t.set k a).find k = some a :=
  Function.update_self ..

theorem find_erase (k k' : κ) : (t.erase k).find k' = if k' = k then none else t.find k' :=
  Function.update_apply ..

/-- What is stored after an erasure was stored before, under another key. -/
theorem find_erase_eq_some {t : Table κ α} {k k' : κ} {a : α} :
    (t.erase k).find k' = some a ↔ k' ≠ k ∧ t.find k' = some a := by
  rw [find_erase]
  split_ifs with h <;> simp [h]

/-- An insertion stores something under its key and changes no other entry. -/
theorem find_insert (k : κ) (a : α) (k' : κ) :
    (t.insert k a).find k' = if k' = k then some ((t.find k).getD a) else t.find k' := by
  unfold insert
  cases h : t.find k with
  | none => simp [find_set]
  | some b =>
      simp only [Option.getD_some]
      split_ifs with hk
      · rw [hk, h]
      · rfl

/-- What is stored after an insertion is the new value, or was stored before. -/
theorem find_insert_eq_some {t : Table κ α} {k k' : κ} {a b : α}
    (h : (t.insert k a).find k' = some b) : (k' = k ∧ b = a) ∨ t.find k' = some b := by
  rw [find_insert] at h
  split_ifs at h with hk
  · cases hold : t.find k with
    | none => exact .inl ⟨hk, by simpa [hold, eq_comm] using h⟩
    | some c => exact .inr (by simpa [hold, hk] using h)
  · exact .inr h

/-- An entry that is there stays. -/
theorem find_insert_of_find {t : Table κ α} {k k' : κ} {a b : α} (h : t.find k' = some b) :
    (t.insert k a).find k' = some b := by
  rw [find_insert]
  split_ifs with hk
  · rw [← hk, h]
    rfl
  · exact h

end Table

end Rubo.Foundation
