import Mathlib.Data.List.Basic
import Mathlib.Data.List.Infix
import Mathlib.Tactic.Common

/-!
# Input-Driven Machines

A deterministic machine is a step function `σ → ι → σ`; everything the
environment may choose (kernel results, arriving frames, the order of calls)
is in the input `ι`, so a theorem over all input lists is a theorem over all
schedules.

The rules developed here:

- `run_invariant`: what every step preserves holds after every run;
- `Along` and `run_invariant_of_along`: the same when a step preserves it only
  under a condition on the state before the step, and `always_iff_along`, which
  says that a condition exact for one step is exact for runs;
- `run_logged`: a log kept beside a machine does not change its runs;
- `run_simulates`: a machine whose steps stand for runs of another one logs what
  that one logs;
- `pairwise_logOf_iff`: when nothing is logged behind a final entry;
- `runE_refines`: a machine that can fault refines a total abstract machine;
- `mem_modify`, `map_modify`: one machine of a row takes a step.
-/

namespace Rubo.Foundation

universe u v w

section Runs

variable {σ : Type u} {ι : Type v}

/-- The state after a list of inputs. -/
def run (step : σ → ι → σ) (s : σ) (is : List ι) : σ :=
  is.foldl step s

@[simp] theorem run_nil (step : σ → ι → σ) (s : σ) : run step s [] = s := rfl

@[simp] theorem run_cons (step : σ → ι → σ) (s : σ) (i : ι) (is : List ι) :
    run step s (i :: is) = run step (step s i) is := rfl

theorem run_append (step : σ → ι → σ) (s : σ) (is js : List ι) :
    run step s (is ++ js) = run step (run step s is) js :=
  List.foldl_append

theorem run_concat (step : σ → ι → σ) (s : σ) (is : List ι) (i : ι) :
    run step s (is ++ [i]) = step (run step s is) i := by
  rw [run_append, run_cons, run_nil]

/-- **Invariant rule**: what one step preserves, a run preserves. -/
theorem run_invariant {step : σ → ι → σ} {I : σ → Prop}
    (hstep : ∀ s i, I s → I (step s i)) {s : σ} (hs : I s) (is : List ι) :
    I (run step s is) := by
  induction is generalizing s with
  | nil => exact hs
  | cons i is ih => exact ih (hstep s i hs)

/-- `Along step P s is`: every step of the run from `s` on `is` is taken in a
state where `P` admits its input. -/
def Along (step : σ → ι → σ) (P : σ → ι → Prop) : σ → List ι → Prop
  | _, [] => True
  | s, i :: is => P s i ∧ Along step P (step s i) is

instance decidableAlong (step : σ → ι → σ) (P : σ → ι → Prop) [∀ s i, Decidable (P s i)] :
    ∀ (s : σ) (is : List ι), Decidable (Along step P s is)
  | _, [] => .isTrue trivial
  | s, i :: is =>
    have := decidableAlong step P (step s i) is
    inferInstanceAs (Decidable (P s i ∧ Along step P (step s i) is))

theorem along_true {step : σ → ι → σ} (s : σ) (is : List ι) :
    Along step (fun _ _ => True) s is := by
  induction is generalizing s with
  | nil => trivial
  | cons i is ih => exact ⟨trivial, ih _⟩

theorem along_append {step : σ → ι → σ} {P : σ → ι → Prop} {s : σ} {is js : List ι} :
    Along step P s (is ++ js) ↔ Along step P s is ∧ Along step P (run step s is) js := by
  induction is generalizing s with
  | nil => simp [Along]
  | cons i is ih => simp only [List.cons_append, Along, run_cons, ih, and_assoc]

/-- A condition that holds along a run holds along its prefixes. -/
theorem Along.of_prefix {step : σ → ι → σ} {P : σ → ι → Prop} {s : σ} {is js : List ι}
    (h : Along step P s js) (hp : is <+: js) : Along step P s is := by
  obtain ⟨ks, rfl⟩ := hp
  exact (along_append.mp h).1

theorem Along.mono {step : σ → ι → σ} {P Q : σ → ι → Prop} (hPQ : ∀ s i, P s i → Q s i)
    {s : σ} {is : List ι} (h : Along step P s is) : Along step Q s is := by
  induction is generalizing s with
  | nil => trivial
  | cons i is ih => exact ⟨hPQ s i h.1, ih h.2⟩

theorem Along.and {step : σ → ι → σ} {P Q : σ → ι → Prop} {s : σ} {is : List ι}
    (h : Along step P s is) (h' : Along step Q s is) :
    Along step (fun s i => P s i ∧ Q s i) s is := by
  induction is generalizing s with
  | nil => trivial
  | cons i is ih => exact ⟨⟨h.1, h'.1⟩, ih h.2 h'.2⟩

/-- **Guarded invariant rule**: a step may rely on `P` in the state it starts from. -/
theorem run_invariant_of_along {step : σ → ι → σ} {P : σ → ι → Prop} {I : σ → Prop}
    (hstep : ∀ s i, I s → P s i → I (step s i)) {s : σ} (hs : I s) {is : List ι}
    (h : Along step P s is) : I (run step s is) := by
  induction is generalizing s with
  | nil => exact hs
  | cons i is ih => exact ih (hstep s i hs h.1) h.2

/-- What follows from an invariant holds at every step. -/
theorem along_of_invariant {step : σ → ι → σ} {P : σ → ι → Prop} {I : σ → Prop}
    (hstep : ∀ s i, I s → I (step s i)) (hP : ∀ s i, I s → P s i) {s : σ} (hs : I s)
    (is : List ι) : Along step P s is := by
  induction is generalizing s with
  | nil => trivial
  | cons i is ih => exact ⟨hP s i hs, ih (hstep s i hs)⟩

/-- **Exactness rule**: if `P` decides for each step from a good state whether
the next state is good, then every state of a run is good iff `P` holds along it. -/
theorem always_iff_along {step : σ → ι → σ} {P : σ → ι → Prop} {I : σ → Prop}
    (hstep : ∀ s i, I s → (I (step s i) ↔ P s i)) {s : σ} (hs : I s) (is : List ι) :
    (∀ js, js <+: is → I (run step s js)) ↔ Along step P s is := by
  constructor
  · -- the prefixes of the run are `[i]` and the prefixes that follow it
    intro h
    induction is generalizing s with
    | nil => trivial
    | cons i is ih =>
      have hnext : I (step s i) := h [i] (by simp)
      refine ⟨(hstep s i hs).mp hnext, ih hnext fun js hjs => ?_⟩
      exact h (i :: js) (List.cons_prefix_cons.mpr ⟨rfl, hjs⟩)
  · intro h js hjs
    exact run_invariant_of_along (fun s i hI hP => (hstep s i hI).mpr hP) hs (h.of_prefix hjs)

/-- Two conditions that agree in good states, where the second one keeps the state
good, hold along the same runs. -/
theorem along_congr {step : σ → ι → σ} {P Q : σ → ι → Prop} {I : σ → Prop}
    (hPQ : ∀ s i, I s → (P s i ↔ Q s i)) (hstep : ∀ s i, I s → Q s i → I (step s i)) {s : σ}
    (hs : I s) (is : List ι) : Along step P s is ↔ Along step Q s is := by
  induction is generalizing s with
  | nil => simp [Along]
  | cons i is ih =>
    simp only [Along, hPQ s i hs]
    exact and_congr_right fun hQ => ih (hstep s i hs hQ)

end Runs

/-! ## Machines with a log -/

section Logs

variable {σ : Type u} {ι : Type v} {ε : Type w}

/-- Keep a log beside a machine: what a step emits depends on the state before it. -/
def logged (step : σ → ι → σ) (emit : σ → ι → List ε) : σ × List ε → ι → σ × List ε :=
  fun s i => (step s.1 i, s.2 ++ emit s.1 i)

/-- The log of a run. -/
def logOf (step : σ → ι → σ) (emit : σ → ι → List ε) : σ → List ι → List ε
  | _, [] => []
  | s, i :: is => emit s i ++ logOf step emit (step s i) is

@[simp] theorem logOf_nil (step : σ → ι → σ) (emit : σ → ι → List ε) (s : σ) :
    logOf step emit s [] = [] := rfl

theorem logOf_append (step : σ → ι → σ) (emit : σ → ι → List ε) (s : σ) (is js : List ι) :
    logOf step emit s (is ++ js) = logOf step emit s is ++ logOf step emit (run step s is) js := by
  induction is generalizing s with
  | nil => rfl
  | cons i is ih => simp only [List.cons_append, logOf, ih, run_cons, List.append_assoc]

theorem logOf_concat (step : σ → ι → σ) (emit : σ → ι → List ε) (s : σ) (is : List ι) (i : ι) :
    logOf step emit s (is ++ [i]) = logOf step emit s is ++ emit (run step s is) i := by
  rw [logOf_append, logOf, logOf, List.append_nil]

/-- The machine does not see its log. -/
theorem run_logged (step : σ → ι → σ) (emit : σ → ι → List ε) (s : σ) (log : List ε)
    (is : List ι) :
    run (logged step emit) (s, log) is = (run step s is, log ++ logOf step emit s is) := by
  induction is generalizing s log with
  | nil => simp [logOf]
  | cons i is ih => rw [run_cons, logged, ih, run_cons, logOf, List.append_assoc]

/-- What holds of every entry emitted holds of every entry of the log. -/
theorem forall_mem_logOf {step : σ → ι → σ} {emit : σ → ι → List ε} {I : σ → Prop} {P : ε → Prop}
    (hstep : ∀ s i, I s → I (step s i)) (hemit : ∀ s i, I s → ∀ e ∈ emit s i, P e) {s : σ}
    (hs : I s) (is : List ι) : ∀ e ∈ logOf step emit s is, P e := by
  induction is generalizing s with
  | nil => exact fun e he => absurd he List.not_mem_nil
  | cons i is ih =>
    intro e he
    rcases List.mem_append.mp he with hnow | hlater
    · exact hemit s i hs e hnow
    · exact ih (hstep s i hs) e hlater

/-- **Final entries**: when a state is done as soon as a final entry has been emitted,
and no step emits anything behind one, then nothing is logged behind a final entry
iff no step emits anything from a state that is done. -/
theorem pairwise_logOf_iff {step : σ → ι → σ} {emit : σ → ι → List ε} {final : ε → Prop}
    {Done I : σ → Prop} (hstep : ∀ s i, I s → I (step s i))
    (hdone : ∀ s i, I s → (Done (step s i) ↔ Done s ∨ ∃ e ∈ emit s i, final e))
    (hlast : ∀ s i, I s → (emit s i).Pairwise fun e _ => ¬ final e) {s : σ} (hs : I s)
    (is : List ι) :
    ((logOf step emit s is).Pairwise fun e _ => ¬ final e) ∧ (Done s → logOf step emit s is = []) ↔
      Along step (fun s i => Done s → emit s i = []) s is := by
  induction is generalizing s with
  | nil => simp [logOf, Along]
  | cons i is ih =>
    -- what is logged later is nothing, or comes behind entries none of which is final
    have hcross : ∀ log : List ε, (∀ e ∈ emit s i, ∀ e' ∈ log, ¬ final e) ↔
        ((∃ e ∈ emit s i, final e) → log = []) := by
      intro log
      constructor
      · rintro h ⟨e, he, hfinal⟩
        exact List.eq_nil_iff_forall_not_mem.mpr fun e' he' => h e he e' he' hfinal
      · intro h e he e' he' hfinal
        rw [h ⟨e, he, hfinal⟩] at he'
        exact absurd he' List.not_mem_nil
    simp only [logOf, Along, ← ih (hstep s i hs), hdone s i hs, List.pairwise_append, hcross,
      List.append_eq_nil_iff, hlast s i hs, true_and]
    generalize (∃ e ∈ emit s i, final e) = finished
    constructor
    · rintro ⟨⟨hpair, hfinished⟩, hstart⟩
      exact ⟨fun hs => (hstart hs).1, hpair, fun h => h.elim (fun hs => (hstart hs).2) hfinished⟩
    · rintro ⟨hnow, hpair, hlater⟩
      exact ⟨⟨hpair, fun h => hlater (.inr h)⟩, fun hs => ⟨hnow hs, hlater (.inl hs)⟩⟩

/-- **Simulation rule**: when each step from related states stands for a run of the
other machine (of no steps, perhaps), ends in states that are related again and
logs what that run logs, then so does each run. -/
theorem run_simulates {τ κ δ : Type*} {step : σ → ι → σ} {emit : σ → ι → List ε}
    {step' : τ → κ → τ} {emit' : τ → κ → List δ} {R : σ → τ → Prop} {g : ι → List κ} {f : δ → ε}
    (hstep : ∀ s t i, R s t → R (step s i) (run step' t (g i)) ∧
      emit s i = (logOf step' emit' t (g i)).map f)
    {s : σ} {t : τ} (hst : R s t) (is : List ι) :
    R (run step s is) (run step' t (is.flatMap g)) ∧
      logOf step emit s is = (logOf step' emit' t (is.flatMap g)).map f := by
  induction is generalizing s t with
  | nil => exact ⟨hst, rfl⟩
  | cons i is ih =>
    -- one step and the run it stands for, then the rest of both
    obtain ⟨hnext, hemit⟩ := hstep s t i hst
    obtain ⟨hend, hlog⟩ := ih hnext
    rw [List.flatMap_cons, run_append, logOf_append, List.map_append, ← hlog, ← hemit]
    exact ⟨hend, rfl⟩

/-- A condition on the machine alone holds along both. -/
theorem along_logged {step : σ → ι → σ} {emit : σ → ι → List ε} {P : σ → ι → Prop} {s : σ}
    {log : List ε} {is : List ι} (h : Along step P s is) :
    Along (logged step emit) (fun s i => P s.1 i) (s, log) is := by
  induction is generalizing s log with
  | nil => trivial
  | cons i is ih => exact ⟨h.1, ih h.2⟩

end Logs

/-! ## Machines with observations, and refinement -/

section Refinement

variable {σ : Type u} {τ : Type v} {ι : Type w} {ο : Type*} {ε : Type*}

/-- The observations and the final state of a machine that can fault. -/
def runE (step : σ → ι → Except ε (ο × σ)) : σ → List ι → Except ε (List ο × σ)
  | s, [] => .ok ([], s)
  | s, i :: is => do
    let (o, s) ← step s i
    let (os, s) ← runE step s is
    return (o :: os, s)

/-- The observations and the final state of a total machine. -/
def runT (step : τ → ι → ο × τ) : τ → List ι → List ο × τ
  | t, [] => ([], t)
  | t, i :: is =>
    let (o, t) := step t i
    let (os, t) := runT step t is
    (o :: os, t)

/-- **Refinement rule**: if each step from related states succeeds, shows what
the abstract step shows and ends in related states, so does each run. -/
theorem runE_refines {step : σ → ι → Except ε (ο × σ)} {spec : τ → ι → ο × τ}
    {R : σ → τ → Prop}
    (hstep : ∀ s t i, R s t → ∃ s', step s i = .ok ((spec t i).1, s') ∧ R s' (spec t i).2)
    {s : σ} {t : τ} (hst : R s t) (is : List ι) :
    ∃ s', runE step s is = .ok ((runT spec t is).1, s') ∧ R s' (runT spec t is).2 := by
  induction is generalizing s t with
  | nil => exact ⟨s, rfl, hst⟩
  | cons i is ih =>
    -- one step of both machines, then the run from where they are
    obtain ⟨s₁, hs₁, hR₁⟩ := hstep s t i hst
    obtain ⟨s₂, hs₂, hR₂⟩ := ih hR₁
    refine ⟨s₂, ?_, hR₂⟩
    simp only [runE, hs₁, hs₂, bind, Except.bind, pure, Except.pure, runT]

end Refinement

/-! ## Rows of machines

One machine of the row moves, the others stay as they are. -/

section Rows

variable {α β : Type*} {f : α → α}

/-- Position `i` has moved, or stands as before. -/
theorem getElem?_modify_eq_some {as : List α} {i j : ℕ} {a : α}
    (h : (as.modify i f)[j]? = some a) : ∃ b, as[j]? = some b ∧ a = if i = j then f b else b := by
  rw [List.getElem?_modify] at h
  cases hb : as[j]? with
  | none => simp [hb] at h
  | some b =>
      rw [hb] at h
      refine ⟨b, rfl, ?_⟩
      split_ifs with hij <;> simpa [hij, eq_comm] using h

theorem mem_modify {as : List α} {i : ℕ} {a : α} (h : a ∈ as.modify i f) :
    a ∈ as ∨ ∃ b, as[i]? = some b ∧ a = f b := by
  obtain ⟨j, hj⟩ := List.mem_iff_getElem?.mp h
  obtain ⟨b, hb, rfl⟩ := getElem?_modify_eq_some hj
  split_ifs with hij
  · exact .inr ⟨b, hij ▸ hb, rfl⟩
  · exact .inl (List.mem_of_getElem? hb)

/-- What is seen of the row moves as the machine itself is seen to. -/
theorem map_modify {g : α → β} {k : β → β} (h : ∀ a, g (f a) = k (g a)) (as : List α) (i : ℕ) :
    (as.modify i f).map g = (as.map g).modify i k := by
  apply List.ext_getElem?
  intro j
  simp only [List.getElem?_map, List.getElem?_modify]
  cases as[j]? with
  | none => rfl
  | some a => by_cases hj : i = j <;> simp [hj, h]

theorem map_modify_eq {g : α → β} (h : ∀ a, g (f a) = g a) (as : List α) (i : ℕ) :
    (as.modify i f).map g = as.map g := by
  rw [map_modify (k := id) h, List.modify_id]

end Rows

end Rubo.Foundation
