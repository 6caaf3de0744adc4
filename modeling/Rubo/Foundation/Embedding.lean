import Mathlib.Data.List.Forall2
import Mathlib.Tactic.Common

/-!
# Matching Lists in Order

`List.SublistForall₂ R as bs` says that each entry of `as` is matched by an entry
of `bs`, in order and without using an entry of `bs` twice. It is what a channel
promises that may lose entries, but neither makes up, doubles nor reorders them.
The rules here put such channels behind each other.
-/

namespace Rubo.Foundation

variable {α β γ : Type*}

/-- A channel that loses nothing. -/
theorem sublistForall₂_of_forall₂ {R : α → β → Prop} {as : List α} {bs : List β}
    (h : List.Forall₂ R as bs) : List.SublistForall₂ R as bs :=
  List.sublistForall₂_iff.mpr ⟨bs, h, List.Sublist.refl _⟩

/-- A channel that takes some entries and changes them. -/
theorem sublistForall₂_filterMap (f : α → Option β) (as : List α) :
    List.SublistForall₂ (fun b a => f a = some b) (as.filterMap f) as := by
  induction as with
  | nil => exact .nil
  | cons a as ih =>
      cases h : f a with
      | none =>
          rw [List.filterMap_cons_none h]
          exact .cons_right ih
      | some b =>
          rw [List.filterMap_cons_some h]
          exact .cons h ih

/-- Entries may be lost on the left. -/
theorem SublistForall₂.of_sublist_left {R : α → β → Prop} {as as' : List α} {bs : List β}
    (h : List.SublistForall₂ R as bs) (hs : as'.Sublist as) : List.SublistForall₂ R as' bs := by
  induction hs generalizing bs with
  | slnil => exact .nil
  | @cons as' as a hs ih =>
      -- the match of `a` is skipped
      obtain ⟨cs, hforall, hsub⟩ := List.sublistForall₂_iff.mp h
      obtain ⟨b, cs', _, hrest, rfl⟩ := List.forall₂_cons_left_iff.mp hforall
      exact ih (List.sublistForall₂_iff.mpr ⟨cs', hrest, (List.sublist_cons_self b cs').trans hsub⟩)
  | @cons_cons as' as a hs ih =>
      obtain ⟨cs, hforall, hsub⟩ := List.sublistForall₂_iff.mp h
      obtain ⟨b, cs', hab, hrest, rfl⟩ := List.forall₂_cons_left_iff.mp hforall
      have hih := ih (List.sublistForall₂_iff.mpr ⟨cs', hrest, List.Sublist.refl _⟩)
      obtain ⟨ds, hds, hsub'⟩ := List.sublistForall₂_iff.mp hih
      exact List.sublistForall₂_iff.mpr ⟨b :: ds, .cons hab hds, (hsub'.cons_cons b).trans hsub⟩

/-- Entries may be there on the right that match nothing. -/
theorem SublistForall₂.of_sublist_right {R : α → β → Prop} {as : List α} {bs bs' : List β}
    (h : List.SublistForall₂ R as bs) (hs : bs.Sublist bs') : List.SublistForall₂ R as bs' := by
  obtain ⟨cs, hforall, hsub⟩ := List.sublistForall₂_iff.mp h
  exact List.sublistForall₂_iff.mpr ⟨cs, hforall, hsub.trans hs⟩

theorem SublistForall₂.imp_mem {R S : α → β → Prop} {as : List α} {bs : List β}
    (h : List.SublistForall₂ R as bs) (hRS : ∀ a ∈ as, ∀ b ∈ bs, R a b → S a b) :
    List.SublistForall₂ S as bs := by
  induction h with
  | nil => exact .nil
  | @cons a b as bs hab _ ih =>
      refine .cons (hRS a (List.mem_cons_self ..) b (List.mem_cons_self ..) hab) (ih ?_)
      intro a' ha' b' hb'
      exact hRS a' (List.mem_cons_of_mem _ ha') b' (List.mem_cons_of_mem _ hb')
  | @cons_right b as bs _ ih =>
      exact .cons_right (ih fun a' ha' b' hb' => hRS a' ha' b' (List.mem_cons_of_mem _ hb'))

/-- **Two channels behind each other**: the entries in the middle drop out. -/
theorem SublistForall₂.comp {R : α → β → Prop} {S : β → γ → Prop} {as : List α} {bs : List β}
    {cs : List γ} (h : List.SublistForall₂ R as bs) (h' : List.SublistForall₂ S bs cs) :
    List.SublistForall₂ (fun a c => ∃ b, R a b ∧ S b c) as cs := by
  induction h' generalizing as with
  | nil =>
      cases h
      exact .nil
  | @cons b c bs cs hbc _ ih =>
      cases h with
      | nil => exact .nil
      | cons hab hrest => exact .cons ⟨b, hab, hbc⟩ (ih hrest)
      | cons_right hrest => exact .cons_right (ih hrest)
  | cons_right _ ih => exact .cons_right (ih h)

theorem SublistForall₂.append {R : α → β → Prop} {as as' : List α} {bs bs' : List β}
    (h : List.SublistForall₂ R as bs) (h' : List.SublistForall₂ R as' bs') :
    List.SublistForall₂ R (as ++ as') (bs ++ bs') := by
  obtain ⟨cs, hforall, hsub⟩ := List.sublistForall₂_iff.mp h
  obtain ⟨cs', hforall', hsub'⟩ := List.sublistForall₂_iff.mp h'
  exact List.sublistForall₂_iff.mpr ⟨cs ++ cs', List.rel_append hforall hforall',
    hsub.append hsub'⟩

end Rubo.Foundation
