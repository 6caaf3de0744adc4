import Mathlib.Logic.Function.Basic
import Mathlib.Tactic.Common

/-!
# Shared Objects

A heap of objects reached through pointers, for programs that keep the same
object in several tables: two tables agree on an object when they hold the same
pointer. Pointers are never reused.
-/

namespace Rubo.Foundation

/-- A pointer to an object of a heap. -/
abbrev Ptr := ℕ

/-- Objects by pointer; pointers from `next` on are not yet in use. -/
structure Heap (α : Type*) where
  next : Ptr
  obj : Ptr → α

namespace Heap

variable {α : Type*} (h : Heap α)

/-- No object yet; the argument is the value of an object never written. -/
def empty (a : α) : Heap α := ⟨0, fun _ => a⟩

/-- A new object. -/
def alloc (a : α) : Ptr × Heap α :=
  (h.next, { next := h.next + 1, obj := Function.update h.obj h.next a })

/-- Replace an object. -/
def set (p : Ptr) (a : α) : Heap α := { h with obj := Function.update h.obj p a }

theorem obj_alloc (a : α) (p : Ptr) :
    (h.alloc a).2.obj p = if p = h.next then a else h.obj p :=
  Function.update_apply ..

theorem obj_set (p : Ptr) (a : α) (q : Ptr) :
    (h.set p a).obj q = if q = p then a else h.obj q :=
  Function.update_apply ..

@[simp] theorem obj_set_self (p : Ptr) (a : α) : (h.set p a).obj p = a :=
  Function.update_self ..

theorem obj_set_of_ne {p q : Ptr} (hne : q ≠ p) (a : α) : (h.set p a).obj q = h.obj q :=
  Function.update_of_ne hne ..

end Heap

end Rubo.Foundation
