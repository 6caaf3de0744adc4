import Mathlib.Data.List.Basic
import Mathlib.Logic.Function.Basic
import Mathlib.Tactic.Common

/-!
# Merges

A merge of several lists has the items of each of them in their order, each once,
with those of the other lists in between. Any number of producers that append to
one shared list make it a merge of what each of them has appended
(`IsMerge.append`); taking from its front changes nothing as long as what was
taken is kept in view.
-/

namespace Rubo.Foundation

variable {ι α : Type*} [DecidableEq ι] {parts : ι → List α} {l : List α}

/-- The items of `l` can be labelled with the part they come from, so that those
labelled `i` are the list `parts i`. -/
def IsMerge (parts : ι → List α) (l : List α) : Prop :=
  ∃ labelled : List (ι × α), labelled.map Prod.snd = l ∧
    ∀ i, (labelled.filter fun x => x.1 = i).map Prod.snd = parts i

namespace IsMerge

theorem nil : IsMerge (fun _ : ι => ([] : List α)) [] := ⟨[], by simp⟩

/-- One producer appends. -/
theorem append (h : IsMerge parts l) (i : ι) (xs : List α) :
    IsMerge (Function.update parts i (parts i ++ xs)) (l ++ xs) := by
  obtain ⟨labelled, hl, hparts⟩ := h
  refine ⟨labelled ++ xs.map (Prod.mk i), by simp [hl, Function.comp_def], ?_⟩
  intro j
  rw [List.filter_append, List.map_append, hparts, Function.update_apply]
  split_ifs with hj
  · -- all of `xs` belongs to this part
    simp [hj, List.filter_map, Function.comp_def]
  · -- and nothing of it to the others
    have hne : ¬ i = j := fun h => hj h.symm
    simp [hne, List.filter_map, Function.comp_def]

end IsMerge

end Rubo.Foundation
