import Rubo.Foundation.Machine

/-!
# Traces

What an abstract system may show: its steps are labelled, and several may be possible.
A trace is the labels of a row of steps.

- `Trace.exists_of_mem`: where a label stands in a trace, the invariants hold;
- `trace_logOf`: what a machine logs is a trace, when that is so for each step.
-/

namespace Rubo.Foundation

universe u v w

variable {σ : Type u} {ι : Type v} {ε : Type w} {τ δ : Type*} {Next : τ → δ → τ → Prop}

/-- From the first state to the second, with these labels. -/
inductive Trace (Next : τ → δ → τ → Prop) : τ → List δ → τ → Prop
  | nil (t : τ) : Trace Next t [] t
  | cons {t u v : τ} {e : δ} {es : List δ} :
      Next t e u → Trace Next u es v → Trace Next t (e :: es) v

theorem Trace.append {t u v : τ} {xs ys : List δ} (h : Trace Next t xs u)
    (h' : Trace Next u ys v) : Trace Next t (xs ++ ys) v := by
  induction h with
  | nil t => exact h'
  | cons hnext _ ih => exact .cons hnext (ih h')

theorem Trace.of_append {t v : τ} {xs ys : List δ} (h : Trace Next t (xs ++ ys) v) :
    ∃ u, Trace Next t xs u ∧ Trace Next u ys v := by
  induction xs generalizing t with
  | nil => exact ⟨t, .nil t, h⟩
  | cons x xs ih =>
      cases h with
      | cons hnext hrest =>
          obtain ⟨u, hxs, hys⟩ := ih hrest
          exact ⟨u, .cons hnext hxs, hys⟩

theorem Trace.invariant {I : τ → Prop} (hstep : ∀ t e u, Next t e u → I t → I u) {t u : τ}
    {es : List δ} (h : Trace Next t es u) (ht : I t) : I u := by
  induction h with
  | nil t => exact ht
  | cons hnext _ ih => exact ih (hstep _ _ _ hnext ht)

/-- A label is that of a step from a state where the invariant holds. -/
theorem Trace.exists_of_mem {I : τ → Prop} (hstep : ∀ t e u, Next t e u → I t → I u) {t v : τ}
    {es : List δ} (h : Trace Next t es v) (ht : I t) {e : δ} (he : e ∈ es) :
    ∃ u w, I u ∧ Next u e w := by
  induction h with
  | nil t => exact absurd he List.not_mem_nil
  | @cons t u v x xs hnext _ ih =>
      rcases List.mem_cons.mp he with rfl | hmem
      · exact ⟨t, u, ht, hnext⟩
      · exact ih (hstep _ _ _ hnext ht) hmem

/-- **Trace rule**: when what each step logs is a trace between related states, so is what
a run logs. What is logged may be taken to satisfy a condition. -/
theorem trace_logOf {step : σ → ι → σ} {emit : σ → ι → List ε} {R : σ → τ → Prop} {P : ε → Prop}
    {f : ε → δ}
    (hstep : ∀ s t i, R s t → (∀ e ∈ emit s i, P e) →
      ∃ u, Trace Next t ((emit s i).map f) u ∧ R (step s i) u)
    {s : σ} {t : τ} (hst : R s t) {is : List ι} (hlog : ∀ e ∈ logOf step emit s is, P e) :
    ∃ u, Trace Next t ((logOf step emit s is).map f) u ∧ R (run step s is) u := by
  induction is generalizing s t with
  | nil => exact ⟨t, .nil t, hst⟩
  | cons i is ih =>
      rw [logOf] at hlog
      obtain ⟨u, hfirst, hu⟩ := hstep s t i hst fun e he => hlog e (List.mem_append_left _ he)
      obtain ⟨v, hrest, hv⟩ := ih hu fun e he => hlog e (List.mem_append_right _ he)
      refine ⟨v, ?_, hv⟩
      rw [logOf, List.map_append]
      exact hfirst.append hrest

end Rubo.Foundation
