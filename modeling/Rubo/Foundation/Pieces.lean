import Mathlib.Algebra.Ring.Nat
import Mathlib.Data.List.Basic
import Mathlib.Tactic.Common

/-!
# Pieces and Separators

A list cut at its separators. `List.splitOnP` says which pieces there are;
`interleave` puts pieces and separators together again. The two are inverse to
each other (`interleave_splitOnP`, `splitOnP_interleave`), so three facts
determine the pieces: how many there are, that none holds a separator, and that
they rebuild the list.
-/

namespace Rubo.Foundation.Pieces

variable {α : Type*} {p : α → Bool}

/-- Each piece followed by its separator, the last one by nothing. -/
def interleave (pieces : List (List α)) (seps : List α) : List α :=
  (List.zipWith (· ++ ·) pieces (seps.map (fun x => [x]) ++ [[]])).flatten

@[simp] theorem interleave_singleton (piece : List α) : interleave [piece] [] = piece := by
  simp [interleave]

@[simp] theorem interleave_cons (piece : List α) (pieces : List (List α)) (sep : α)
    (seps : List α) :
    interleave (piece :: pieces) (sep :: seps) = piece ++ sep :: interleave pieces seps := by
  simp [interleave]

theorem interleave_splitOnP (xs : List α) :
    interleave (xs.splitOnP p) (xs.filter p) = xs := List.splitOnP_spec xs

/-- One piece more than there are separators. -/
theorem length_splitOnP (xs : List α) : (xs.splitOnP p).length = xs.countP p + 1 := by
  induction xs with
  | nil => rfl
  | cons x xs ih =>
      rw [List.splitOnP_cons_eq_if_modifyHead]
      split_ifs with hx
      · rw [List.length_cons, ih, List.countP_cons_of_pos hx]
      · rw [List.length_modifyHead, ih, List.countP_cons_of_neg hx]

theorem eq_false_of_mem_splitOnP {xs piece : List α} (h : piece ∈ xs.splitOnP p) :
    ∀ x ∈ piece, p x = false := by
  induction xs generalizing piece with
  | nil =>
      obtain rfl : piece = [] := by simpa using h
      simp
  | cons x xs ih =>
      rw [List.splitOnP_cons_eq_if_modifyHead] at h
      split_ifs at h with hx
      · rcases List.mem_cons.mp h with rfl | hmem
        · simp
        · exact ih hmem
      · -- the first piece gets one element more
        obtain ⟨first, rest, hxs⟩ := List.exists_cons_of_ne_nil (List.splitOnP_ne_nil p xs)
        rw [hxs] at h ih
        rcases List.mem_cons.mp h with rfl | hmem
        · intro y hy
          rcases List.mem_cons.mp hy with rfl | hfirst
          · simpa using hx
          · exact ih List.mem_cons_self y hfirst
        · exact ih (List.mem_cons_of_mem _ hmem)

/-- Pieces without separators are those of what they are put together to. -/
theorem splitOnP_interleave {pieces : List (List α)} {seps : List α}
    (hlen : pieces.length = seps.length + 1) (hpieces : ∀ piece ∈ pieces, ∀ x ∈ piece, p x = false)
    (hseps : ∀ x ∈ seps, p x = true) : (interleave pieces seps).splitOnP p = pieces := by
  induction seps generalizing pieces with
  | nil =>
      obtain ⟨piece, rfl⟩ := List.length_eq_one_iff.mp hlen
      rw [interleave_singleton]
      exact List.splitOnP_eq_singleton (hpieces piece List.mem_cons_self)
  | cons sep seps ih =>
      cases pieces with
      | nil => cases hlen
      | cons piece pieces =>
          rw [interleave_cons, List.splitOnP_append_cons_of_forall_mem
            (hpieces piece List.mem_cons_self) sep (hseps sep List.mem_cons_self)]
          congr 1
          exact ih (Nat.succ.inj hlen) (fun q hq => hpieces q (List.mem_cons_of_mem _ hq))
            fun x hx => hseps x (List.mem_cons_of_mem _ hx)

end Rubo.Foundation.Pieces
