import Rubo.Util.IThread

/-!
# The Life of a Thread

`thread_func()` of `util/IThread.cpp` as a program that can be interrupted anywhere:
other threads see `_quit` and `_over`, and `join()` sees whether the function has
returned. What `thread_loop()` and `unit()` do is up to the class of the thread;
`advance` makes the steps that are the same for all of them.
-/

namespace Rubo.Util

open Rubo.Foundation

/-- Where a thread is in `thread_func()`, with the place in its `thread_loop()`. -/
inductive Pos (β : Type*) where
  /-- `start()` has not been called. -/
  | idle
  /-- In front of `is_running()`. -/
  | check
  | loop (b : β)
  /-- Behind `thread_loop()`, in front of `timer_events()`. -/
  | timer
  /-- In `unit()`. -/
  | unit
  /-- In front of `tover()`. -/
  | tover
  /-- `_over` is set, and the function has not returned yet. -/
  | returning
  | ended
  deriving DecidableEq

structure Thread (β : Type*) where
  flags : IThread
  pos : Pos β
  deriving DecidableEq

namespace Pos

variable {β γ : Type*}

/-- What is left of `thread_func()` once `_quit` is set, when `rest` is left of the loop. -/
def left (rest : β → ℕ) : Pos β → ℕ
  | .idle => 0
  | .check => 4
  | .loop b => 6 + rest b
  | .timer => 5
  | .unit => 3
  | .tover => 2
  | .returning => 1
  | .ended => 0

/-- The thread does not look at `_quit` any more. -/
def Leaving : Pos β → Prop
  | .idle | .check | .loop _ | .timer => False
  | .unit | .tover | .returning | .ended => True

instance : (p : Pos β) → Decidable p.Leaving
  | .idle | .check | .loop _ | .timer => inferInstanceAs (Decidable False)
  | .unit | .tover | .returning | .ended => inferInstanceAs (Decidable True)

/-- `unit()` has been run. -/
def Done : Pos β → Prop
  | .idle | .check | .loop _ | .timer | .unit => False
  | .tover | .returning | .ended => True

theorem Done.leaving {p : Pos β} (h : p.Done) : p.Leaving := by
  cases p with
  | idle | check | loop | timer | unit => exact h.elim
  | tover | returning | ended => trivial

/-- `_over` as it should be here. -/
def isOver : Pos β → Bool
  | .idle | .returning | .ended => true
  | .check | .loop _ | .timer | .unit | .tover => false

end Pos

namespace Thread

variable {β : Type*} (z : ℤ)

def new : Thread β := ⟨.new, .idle⟩

/-- `start()` -/
def start (nowt : ℤ) (t : Thread β) : Thread β :=
  match t.flags.start z nowt with
  | none => t
  | some flags => ⟨flags, .check⟩

def stop (t : Thread β) : Thread β := { t with flags := t.flags.stop }

/-- A step of `thread_func()` outside of `thread_loop()` and `unit()`; `b` is where the
loop begins. -/
def advance (b : β) (nowt : ℤ) (t : Thread β) : Thread β :=
  match t.pos with
  | .check => { t with pos := if t.flags.isRunning then .loop b else .unit }
  | .timer => ⟨(t.flags.timerEvents z nowt).2, .check⟩
  | .tover => ⟨t.flags.tover, .returning⟩
  | .returning => { t with pos := .ended }
  | .idle | .loop _ | .unit | .ended => t

/-- A step in `thread_loop()` or `unit()`, which leaves the flags alone. -/
def goto (pos : Pos β) (t : Thread β) : Thread β := { t with pos := pos }

/-! ## What others see of it -/

/-- The flags agree with where the thread is. -/
structure Coherent (t : Thread β) : Prop where
  isOver : t.flags.isOver = t.pos.isOver
  quit : t.pos.Leaving → t.flags.quit = true

/-- What a thread does by itself. -/
structure Advanced (t t' : Thread β) : Prop where
  coherent : t.Coherent → t'.Coherent
  quit : t'.flags.quit = t.flags.quit
  isOver : t.flags.isOver = true → t'.flags.isOver = true
  idle : t'.pos = .idle ↔ t.pos = .idle
  leaving : t.pos.Leaving → t'.pos.Leaving
  ended : t.pos = .ended → t' = t

variable {z} {t : Thread β}

theorem Advanced.refl (t : Thread β) : Advanced t t :=
  ⟨id, rfl, id, Iff.rfl, id, fun _ => rfl⟩

theorem coherent_new : (new : Thread β).Coherent := ⟨rfl, fun h => h.elim⟩

theorem Coherent.stop (h : t.Coherent) : t.stop.Coherent := ⟨h.isOver, fun _ => rfl⟩

/-- A thread that is not yet told to stop can be started. -/
theorem start_of_quit (nowt : ℤ) (h : t.flags.quit = false) :
    (t.start z nowt).pos = .check ∧ (t.start z nowt).flags.quit = false ∧
      (t.start z nowt).Coherent := by
  have hrun : ¬ t.flags.isRunning = false := by
    rw [IThread.isRunning, h]
    decide
  unfold start IThread.start
  rw [if_neg hrun]
  exact ⟨rfl, h, rfl, fun hleaving => hleaving.elim⟩

theorem Coherent.start (h : t.Coherent) (nowt : ℤ) : (t.start z nowt).Coherent := by
  cases hq : t.flags.quit with
  | false => exact (start_of_quit nowt hq).2.2
  | true =>
      have hstopped : t.flags.isRunning = false := by rw [IThread.isRunning, hq]; rfl
      unfold Thread.start IThread.start
      rw [if_pos hstopped]
      exact h

theorem advanced_advance (b : β) (nowt : ℤ) (t : Thread β) : Advanced t (t.advance z b nowt) := by
  obtain ⟨flags, pos⟩ := t
  cases pos with
  | idle => exact .refl _
  | loop b => exact .refl _
  | unit => exact .refl _
  | ended => exact .refl _
  | check =>
      unfold advance
      simp only
      split_ifs with hrun
      · exact ⟨fun h => ⟨h.isOver, fun hl => hl.elim⟩, rfl, id, by simp, id, by simp⟩
      · have hquit : flags.quit = true := by simpa [IThread.isRunning] using hrun
        exact ⟨fun h => ⟨h.isOver, fun _ => hquit⟩, rfl, id, by simp, fun _ => trivial, by simp⟩
  | timer =>
      exact ⟨fun h => ⟨h.isOver, fun hl => hl.elim⟩, rfl, id, by simp [advance], id, by simp⟩
  | tover =>
      exact ⟨fun h => ⟨rfl, fun _ => h.quit trivial⟩, rfl, fun _ => rfl, by simp [advance],
        fun _ => trivial, by simp⟩
  | returning =>
      exact ⟨fun h => ⟨h.isOver, fun _ => h.quit trivial⟩, rfl, id, by simp [advance],
        fun _ => trivial, by simp⟩

/-- Neither `unit()` nor `thread_loop()` is part of it. -/
theorem done_advance (b : β) (nowt : ℤ) (t : Thread β) :
    (t.advance z b nowt).pos.Done ↔ t.pos.Done := by
  obtain ⟨flags, pos⟩ := t
  cases pos with
  | check =>
      unfold advance
      simp only
      split_ifs <;> exact Iff.rfl
  | idle | loop | timer | unit | tover | returning | ended => exact Iff.rfl

/-- The loop goes on, or comes to its end. -/
theorem advanced_goto {b : β} {pos : Pos β} (hloop : t.pos = .loop b)
    (hpos : pos = .timer ∨ ∃ b', pos = .loop b') : Advanced t (t.goto pos) := by
  obtain ⟨flags, _⟩ := t
  obtain rfl := hloop
  rcases hpos with rfl | ⟨b', rfl⟩
  · exact ⟨fun h => ⟨h.isOver, fun hl => hl.elim⟩, rfl, id, by simp [goto], id, by simp⟩
  · exact ⟨fun h => ⟨h.isOver, fun hl => hl.elim⟩, rfl, id, by simp [goto], id, by simp⟩

/-- The end of `unit()`. -/
theorem advanced_goto_over (hunit : t.pos = .unit) : Advanced t (t.goto .tover) := by
  obtain ⟨flags, _⟩ := t
  obtain rfl := hunit
  exact ⟨fun h => ⟨h.isOver, fun _ => h.quit trivial⟩, rfl, id, by simp [goto],
    fun _ => trivial, by simp⟩

/-- `is_over()` of a started thread: it has little left to do. -/
theorem Coherent.isOver_iff (h : t.Coherent) (hidle : t.pos ≠ .idle) :
    t.flags.isOver = true ↔ t.pos = .returning ∨ t.pos = .ended := by
  rw [h.isOver]
  cases hpos : t.pos <;> simp_all [Pos.isOver]

/-- Once `_quit` is set, every step outside of the loop brings the end nearer. -/
theorem left_advance (rest : β → ℕ) (b : β) (nowt : ℤ) (hquit : t.flags.quit = true)
    (hpos : t.pos = .check ∨ t.pos = .timer ∨ t.pos = .tover ∨ t.pos = .returning) :
    (t.advance z b nowt).pos.left rest < t.pos.left rest := by
  have hrun : t.flags.isRunning = false := by rw [IThread.isRunning, hquit]; rfl
  rcases hpos with h | h | h | h
  · simp [advance, h, hrun, Pos.left]
  · simp [advance, h, Pos.left]
  · simp [advance, h, Pos.left]
  · simp [advance, h, Pos.left]

/-! ## Rows of threads -/

/-- The threads at these places of a row. -/
def AllAt (ts : List (Thread β)) (is : Set ℕ) (P : Thread β → Prop) : Prop :=
  ∀ (i : ℕ) (t : Thread β), ts[i]? = some t → i ∈ is → P t

variable {ts : List (Thread β)} {is : Set ℕ} {P : Thread β → Prop}

theorem AllAt.forall_mem (h : AllAt ts Set.univ P) : ∀ t ∈ ts, P t := by
  intro t ht
  obtain ⟨i, hi⟩ := List.mem_iff_getElem?.mp ht
  exact h i t hi trivial

/-- One of them is changed from outside. -/
theorem allAt_modify {i : ℕ} {f : Thread β → Thread β}
    (hself : ∀ t, ts[i]? = some t → i ∈ is → P (f t))
    (hothers : ∀ (j : ℕ) (t : Thread β), ts[j]? = some t → j ≠ i → j ∈ is → P t) :
    AllAt (ts.modify i f) is P := by
  intro j t' ht' hj
  obtain ⟨t, ht, rfl⟩ := getElem?_modify_eq_some ht'
  split_ifs with hij
  · exact hself t (hij ▸ ht) (hij ▸ hj)
  · exact hothers j t ht (Ne.symm hij) hj

/-- One of them makes a step, which leaves the property. -/
theorem AllAt.set (h : AllAt ts is P) {i : ℕ} {t t' : Thread β} (ht : ts[i]? = some t)
    (hP : P t → P t') : AllAt (ts.set i t') is P := by
  intro j u hu hj
  rw [List.getElem?_set] at hu
  split_ifs at hu with hij hlt
  · obtain rfl := Option.some.inj hu
    subst hij
    exact hP (h _ t ht hj)
  · exact h j u hu hj

theorem AllAt.append (h : AllAt ts is P) {us : List (Thread β)} (hus : ∀ t ∈ us, P t) :
    AllAt (ts ++ us) is P := by
  intro i t ht hi
  rcases Nat.lt_or_ge i ts.length with hlt | hge
  · rw [List.getElem?_append_left hlt] at ht
    exact h i t ht hi
  · rw [List.getElem?_append_right hge] at ht
    exact hus t (List.mem_of_getElem? ht)

end Thread

end Rubo.Util
