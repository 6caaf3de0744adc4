import Mathlib.Data.Prod.Lex
import Rubo.Foundation.Fairness
import Rubo.Msgs.Framing
import Rubo.Msgs.Proto2
import Rubo.Server.GateIO
import Rubo.Util.ThreadFunc

/-!
# A Gate Process from Start to Stop

`Gate::run()` starts the thread of the `GateMngr`, which in turn starts a worker for
each Logic process that is verified. `Gate::stop()` stops that thread, and the
thread, in its `unit()`, stops its workers: `GateIO::stop()` tells all of them, polls
until all are over and joins them. Nobody waits on a condition here, so a pass of
`thread_loop()` is one step; that it comes to the end of what there is to read, and that
the database answers, is assumed. The two descriptors of `_tcp_op` that `unit()` closes
are no part of the model.

`stop_returns`: in every fair run `Gate::stop()` returns, however many workers there
are by then. `stop_clean` says how things stand when it has, and `data_passes` that
nothing but the passes made has touched the connections: what is open stays open.
-/

namespace Rubo.Server

open Rubo.Foundation Rubo.Msgs Rubo.Util

/-- Where the thread of the `GateMngr` is in `unit()`. -/
inductive GateStop where
  /-- In the first loop of `GateIO::stop()`, with these workers to come. -/
  | stop (is : List ℕ)
  /-- In the second, with these to be looked at before it sleeps or goes on. -/
  | poll (needWait : Bool) (is : List ℕ)
  | join (is : List ℕ)
  /-- In front of `GateIO::unit()`. -/
  | unit
  deriving DecidableEq

/-- Where the main thread is in `Gate::run()` and `Gate::stop()`. -/
inductive GateMain where
  | start
  | running
  | poll
  | join
  | returned
  deriving DecidableEq

/-- How often the main thread has still to move on. -/
def GateMain.left : GateMain → ℕ
  | .start => 4
  | .running => 3
  | .poll => 2
  | .join => 1
  | .returned => 0

/-- The threads of a Gate. The history says which workers have been joined, and which
passes have been made. -/
structure GateProcess where
  data : GateIO
  mngr : Thread Unit
  stopping : GateStop
  workers : List (Thread Unit)
  main : GateMain
  joined : List ℕ
  passes : List GateIO.Act

namespace GateProcess

/-- A step of a thread, with what it reads. -/
inductive Act where
  | main (nowt : ℤ)
  | mngr (r : IoRound) (nowt : ℤ)
  | worker (i : ℕ) (r : WorkerRound) (nowt : ℤ)

/-- A Gate that has been initialised and listens on `sockFd`. -/
def init (sockFd : Int32) : GateProcess where
  data := .init sockFd
  mngr := .new
  stopping := .stop []
  workers := []
  main := .start
  joined := []
  passes := []

variable (rt : Runtime) (z : ℤ) (s : GateProcess)

/-- The indices of the workers. -/
def indices : List ℕ := List.range s.workers.length

/-- A step of `Gate::run()` and `Gate::stop()`. The `is_over()` with which `stop()`
begins is left out, and its `else`: `start()` has cleared `_over`, and the thread sets it
only behind a loop that nothing but this `stop()` ends. -/
def mainStep (nowt : ℤ) : GateProcess :=
  match s.main with
  | .start => { s with mngr := s.mngr.start z nowt, main := .running }
  | .running => { s with mngr := s.mngr.stop, main := .poll }
  | .poll => if s.mngr.flags.isOver then { s with main := .join } else s
  | .join =>
    if s.mngr.pos = .ended then { s with main := .returned } else s
  | .returned => s

/-- A step of `unit()`. -/
def unitStep : GateProcess :=
  match s.stopping with
  | .stop (i :: is) => { s with workers := s.workers.modify i Thread.stop, stopping := .stop is }
  | .stop [] => { s with stopping := .poll false s.indices }
  | .poll needWait (i :: is) =>
    match s.workers[i]? with
    | none => { s with stopping := .poll needWait is }
    | some t =>
      -- `notify_all()`: a worker does not wait on its condition
      { s with stopping := .poll (needWait || !t.flags.isOver) is }
  | .poll true [] => { s with stopping := .poll false s.indices }
  | .poll false [] => { s with stopping := .join s.indices }
  | .join (i :: is) =>
    match s.workers[i]? with
    | none => s
    | some t =>
      if t.pos = .ended then { s with stopping := .join is, joined := s.joined ++ [i] } else s
  | .join [] => { s with stopping := .unit }
  | .unit => { s with mngr := s.mngr.goto .tover }

/-- The workers a pass has created, started. -/
def created (r : IoRound) (nowt : ℤ) : List (Thread Unit) :=
  List.replicate ((s.data.run rt r).wokers.length - s.data.wokers.length)
    (Thread.new.start z nowt)

/-- A step of the `GateMngr`. -/
def mngrStep (r : IoRound) (nowt : ℤ) : GateProcess :=
  match s.mngr.pos with
  | .loop _ =>
    { s with
      data := s.data.run rt r
      mngr := s.mngr.goto .timer
      workers := s.workers ++ s.created rt z r nowt
      passes := s.passes ++ [.io r] }
  | .check =>
    { s with mngr := s.mngr.advance z () nowt, stopping := .stop s.indices }
  | .unit => s.unitStep
  | .idle | .timer | .tover | .returning | .ended =>
    { s with mngr := s.mngr.advance z () nowt }

/-- A step of a worker. -/
def workerStep (i : ℕ) (r : WorkerRound) (nowt : ℤ) : GateProcess :=
  match s.workers[i]? with
  | none => s
  | some t =>
    match t.pos with
    | .loop _ =>
      { s with
        data := s.data.step rt (.worker i r)
        workers := s.workers.set i (t.goto .timer)
        passes := s.passes ++ [.worker i r] }
    | .unit => { s with workers := s.workers.set i (t.goto .tover) }
    | .idle | .check | .timer | .tover | .returning | .ended =>
      { s with workers := s.workers.set i (t.advance z () nowt) }

def step : Act → GateProcess
  | .main nowt => s.mainStep z nowt
  | .mngr r nowt => s.mngrStep rt z r nowt
  | .worker i r nowt => s.workerStep rt z i r nowt

/-! ## The connections -/

variable {rt z s} {s' : GateProcess}

theorem passes_step (rt : Runtime) (z : ℤ) (s : GateProcess) (a : Act) :
    ∃ made, (s.step rt z a).passes = s.passes ++ made ∧
      (s.step rt z a).data = run (·.step rt ·) s.data made := by
  have hnone : ∀ s' : GateProcess, s'.passes = s.passes → s'.data = s.data →
      ∃ made, s'.passes = s.passes ++ made ∧ s'.data = run (·.step rt ·) s.data made :=
    fun s' hp hd => ⟨[], hp.trans (List.append_nil _).symm, hd⟩
  cases a with
  | main nowt =>
      unfold step mainStep
      simp only
      split
      · exact hnone _ rfl rfl
      · exact hnone _ rfl rfl
      · split_ifs <;> exact hnone _ rfl rfl
      · split_ifs <;> exact hnone _ rfl rfl
      · exact hnone _ rfl rfl
  | mngr r nowt =>
      unfold step mngrStep unitStep
      simp only
      split
      · exact ⟨[.io r], rfl, rfl⟩
      · exact hnone _ rfl rfl
      · split
        · exact hnone _ rfl rfl
        · exact hnone _ rfl rfl
        · split <;> exact hnone _ rfl rfl
        · exact hnone _ rfl rfl
        · exact hnone _ rfl rfl
        · split
          · exact hnone _ rfl rfl
          · split_ifs <;> exact hnone _ rfl rfl
        · exact hnone _ rfl rfl
        · exact hnone _ rfl rfl
      all_goals exact hnone _ rfl rfl
  | worker i r nowt =>
      unfold step workerStep
      simp only
      split
      · exact hnone _ rfl rfl
      · split
        · exact ⟨[.worker i r], rfl, rfl⟩
        all_goals exact hnone _ rfl rfl

/-- The Gate is what the passes have made of it, and nothing else. -/
theorem data_passes (sockFd : Int32) (acts : List Act) :
    (run (step rt z) (init sockFd) acts).data =
      run (·.step rt ·) (.init sockFd) (run (step rt z) (init sockFd) acts).passes := by
  refine run_invariant (I := fun s : GateProcess =>
    s.data = run (·.step rt ·) (.init sockFd) s.passes) ?_ rfl acts
  intro s a hs
  obtain ⟨made, hpasses, hdata⟩ := passes_step rt z s a
  rw [hdata, hpasses, hs, run_append]

/-! ## What holds when -/

open Thread (AllAt)

/-- What holds while the `GateMngr` is at a place of `unit()`. -/
def Stopping (s : GateProcess) : GateStop → Prop
  | .stop is => AllAt s.workers {i | i ∉ is} (fun t => t.flags.quit = true) ∧ s.joined = []
  | .poll needWait is => AllAt s.workers Set.univ (fun t => t.flags.quit = true) ∧
      (needWait = false → AllAt s.workers {i | i ∉ is} (fun t => t.flags.isOver = true)) ∧
      s.joined = []
  | .join is => AllAt s.workers Set.univ (fun t => t.flags.isOver = true) ∧
      s.joined ++ is = s.indices ∧ AllAt s.workers {i | i ∈ s.joined} (fun t => t.pos = .ended)
  | .unit => AllAt s.workers Set.univ (fun t => t.pos = .ended) ∧ s.joined = s.indices

/-- What holds while it is at a place of `thread_func()`. -/
def MngrPhase (s : GateProcess) : Pos Unit → Prop
  | .idle | .check | .loop _ | .timer =>
    AllAt s.workers Set.univ (fun t => t.flags.quit = false) ∧ s.joined = []
  | .unit => s.Stopping s.stopping
  | .tover | .returning | .ended =>
    AllAt s.workers Set.univ (fun t => t.pos = .ended) ∧ s.joined = s.indices

/-- What holds while the main thread is at a place. -/
def MainPhase (s : GateProcess) : GateMain → Prop
  | .start => s.mngr.pos = .idle ∧ s.mngr.flags.quit = false
  | .running => s.mngr.pos ≠ .idle
  | .poll => s.mngr.pos ≠ .idle ∧ s.mngr.flags.quit = true
  | .join => s.mngr.pos ≠ .idle ∧ s.mngr.flags.quit = true ∧ s.mngr.flags.isOver = true
  | .returned => s.mngr.pos = .ended

/-- Where the threads and their flags fit together. -/
structure Sane (s : GateProcess) : Prop where
  mngr : s.mngr.Coherent
  workers : AllAt s.workers Set.univ (fun t => t.Coherent ∧ t.pos ≠ .idle)
  mngrPhase : s.MngrPhase s.mngr.pos
  mainPhase : s.MainPhase s.main

/-- A step of the `GateMngr` is nothing the main thread would have to undo. -/
theorem mainPhase_of_advanced {pc : GateMain} (h : s.MainPhase pc)
    (hadv : s.mngr.Advanced s'.mngr) (hidle : pc = .start → s'.mngr = s.mngr) :
    s'.MainPhase pc := by
  have hstarted : s.mngr.pos ≠ .idle → s'.mngr.pos ≠ .idle := fun hp heq => hp (hadv.idle.mp heq)
  cases pc with
  | start =>
      show s'.mngr.pos = .idle ∧ s'.mngr.flags.quit = false
      rw [hidle rfl]
      exact h
  | running => exact hstarted h
  | poll => exact ⟨hstarted h.1, hadv.quit.trans h.2⟩
  | join => exact ⟨hstarted h.1, hadv.quit.trans h.2.1, hadv.isOver h.2.2⟩
  | returned =>
      show s'.mngr.pos = .ended
      rw [hadv.ended h]
      exact h

theorem sane_mainStep (h : Sane s) (nowt : ℤ) : Sane (s.mainStep z nowt) := by
  have hmain := h.mainPhase
  have hmngr := h.mngrPhase
  unfold mainStep
  split
  · next hpc =>
    rw [hpc] at hmain
    obtain ⟨hidle, hquit⟩ := hmain
    obtain ⟨hpos, hquit', hcoherent⟩ := Thread.start_of_quit (z := z) nowt hquit
    rw [hidle] at hmngr
    refine ⟨hcoherent, h.workers, ?_, ?_⟩
    · show MngrPhase _ (s.mngr.start z nowt).pos
      rw [hpos]
      exact hmngr
    · show (s.mngr.start z nowt).pos ≠ .idle
      rw [hpos]
      decide
  · next hpc =>
    rw [hpc] at hmain
    exact ⟨h.mngr.stop, h.workers, hmngr, hmain, rfl⟩
  · next hpc =>
    rw [hpc] at hmain
    split_ifs with hover
    · exact ⟨h.mngr, h.workers, hmngr, hmain.1, hmain.2, hover⟩
    · exact h
  · split_ifs with hended
    · exact ⟨h.mngr, h.workers, hmngr, hended⟩
    · exact h
  · exact h

/-! ### Workers -/

/-- A step of a worker takes nothing back. -/
theorem mngrPhase_set {i : ℕ} {t t' : Thread Unit} (ht : s.workers[i]? = some t)
    (hadv : t.Advanced t') (hworkers : s'.workers = s.workers.set i t')
    (hjoined : s'.joined = s.joined) (hstopping : s'.stopping = s.stopping) {pos : Pos Unit}
    (h : s.MngrPhase pos) : s'.MngrPhase pos := by
  have hindices : s'.indices = s.indices := by
    rw [indices, indices, hworkers, List.length_set]
  have hquit : ∀ {is b}, AllAt s.workers is (fun t => t.flags.quit = b) →
      AllAt s'.workers is (fun t => t.flags.quit = b) := by
    intro is b hall
    rw [hworkers]
    exact hall.set ht fun hq => hadv.quit.trans hq
  have hover : ∀ {is}, AllAt s.workers is (fun t => t.flags.isOver = true) →
      AllAt s'.workers is (fun t => t.flags.isOver = true) := by
    intro is hall
    rw [hworkers]
    exact hall.set ht hadv.isOver
  have hended : ∀ {is}, AllAt s.workers is (fun t => t.pos = .ended) →
      AllAt s'.workers is (fun t => t.pos = .ended) := by
    intro is hall
    rw [hworkers]
    exact hall.set ht fun hp => by rw [hadv.ended hp]; exact hp
  cases pos with
  | idle | check | loop | timer => exact ⟨hquit h.1, hjoined.trans h.2⟩
  | tover | returning | ended => exact ⟨hended h.1, by rw [hjoined, h.2, hindices]⟩
  | unit =>
      show s'.Stopping s'.stopping
      rw [hstopping]
      have hs : s.Stopping s.stopping := h
      cases hpc : s.stopping with
      | stop is => rw [hpc] at hs; exact ⟨hquit hs.1, hjoined.trans hs.2⟩
      | poll needWait is =>
          rw [hpc] at hs
          exact ⟨hquit hs.1, fun hb => hover (hs.2.1 hb), hjoined.trans hs.2.2⟩
      | join is =>
          rw [hpc] at hs
          refine ⟨hover hs.1, by rw [hjoined, hs.2.1, hindices], ?_⟩
          rw [hjoined]
          exact hended hs.2.2
      | unit => rw [hpc] at hs; exact ⟨hended hs.1, by rw [hjoined, hs.2, hindices]⟩

/-- What a worker does to the row of workers. -/
theorem workerStep_cases (rt : Runtime) (z : ℤ) (s : GateProcess) (i : ℕ) (r : WorkerRound)
    (nowt : ℤ) :
    s.workers[i]? = none ∧ s.workerStep rt z i r nowt = s ∨
    ∃ t t', s.workers[i]? = some t ∧ t.Advanced t' ∧
      (t.flags.quit = true → t.pos ≠ .idle → t.pos ≠ .ended →
        t'.pos.left (fun _ => 0) < t.pos.left (fun _ => 0)) ∧
      (t.pos = .ended → t' = t) ∧
      (s.workerStep rt z i r nowt).workers = s.workers.set i t' ∧
      (s.workerStep rt z i r nowt).mngr = s.mngr ∧
      (s.workerStep rt z i r nowt).stopping = s.stopping ∧
      (s.workerStep rt z i r nowt).main = s.main ∧
      (s.workerStep rt z i r nowt).joined = s.joined := by
  cases ht : s.workers[i]? with
  | none =>
      refine .inl ⟨rfl, ?_⟩
      unfold workerStep
      rw [ht]
  | some t =>
      right
      unfold workerStep
      rw [ht]
      simp only
      split
      · next hloop =>
        refine ⟨t, t.goto .timer, rfl, Thread.advanced_goto hloop (.inl rfl), fun _ _ _ => ?_,
          fun hended => ?_, rfl, rfl, rfl, rfl, rfl⟩
        · rw [hloop]
          exact Nat.lt_succ_self 5
        · rw [hloop] at hended
          cases hended
      · next hunit =>
        refine ⟨t, t.goto .tover, rfl, Thread.advanced_goto_over hunit, fun _ _ _ => ?_,
          fun hended => ?_, rfl, rfl, rfl, rfl, rfl⟩
        · rw [hunit]
          exact Nat.lt_succ_self 2
        · rw [hunit] at hended
          cases hended
      all_goals
        next hpos =>
        refine ⟨t, t.advance z () nowt, rfl, Thread.advanced_advance .., fun hquit hi he => ?_,
          (Thread.advanced_advance (z := z) () nowt t).ended, rfl, rfl, rfl, rfl, rfl⟩
        first
        | exact absurd hpos hi
        | exact absurd hpos he
        | exact Thread.left_advance _ () nowt hquit (by simp [hpos])

theorem sane_workerStep (h : Sane s) (i : ℕ) (r : WorkerRound) (nowt : ℤ) :
    Sane (s.workerStep rt z i r nowt) := by
  rcases workerStep_cases rt z s i r nowt with ⟨-, hsame⟩ |
    ⟨t, t', ht, hadv, -, -, hworkers, hmngr, hstopping, hmain, hjoined⟩
  · rw [hsame]
    exact h
  · refine ⟨?_, ?_, ?_, ?_⟩
    · rw [hmngr]
      exact h.mngr
    · rw [hworkers]
      exact h.workers.set ht fun hp => ⟨hadv.coherent hp.1, fun heq => hp.2 (hadv.idle.mp heq)⟩
    · rw [hmngr]
      exact mngrPhase_set ht hadv hworkers hjoined hstopping h.mngrPhase
    · rw [hmain]
      exact mainPhase_of_advanced h.mainPhase (by rw [hmngr]; exact .refl _) fun _ => hmngr

/-! ### The thread of the `GateMngr` -/

theorem mem_indices_of_getElem? {i : ℕ} {t : Thread Unit} (ht : s.workers[i]? = some t) :
    i ∈ s.indices :=
  List.mem_range.mpr (List.getElem?_eq_some_iff.mp ht).1

/-- Polling says whether all workers are over. -/
theorem stopping_poll (h : Sane s) (hunit : s.mngr.pos = .unit) {needWait : Bool} {i : ℕ}
    {is : List ℕ} (hpc : s.stopping = .poll needWait (i :: is)) :
    Stopping s.unitStep s.unitStep.stopping ∧ s.unitStep.workers = s.workers ∧
      s.unitStep.mngr = s.mngr ∧ s.unitStep.main = s.main := by
  have hphase := h.mngrPhase
  rw [hunit] at hphase
  have hs : s.Stopping s.stopping := hphase
  rw [hpc] at hs
  obtain ⟨hquit, hover, hj⟩ := hs
  unfold unitStep
  rw [hpc]
  simp only
  cases ht : s.workers[i]? with
  | none =>
      refine ⟨⟨hquit, fun hb j u hu hj => hover hb j u hu ?_, hj⟩, rfl, rfl, rfl⟩
      refine List.not_mem_cons_of_ne_of_not_mem ?_ hj
      rintro rfl
      rw [ht] at hu
      cases hu
  | some t =>
      refine ⟨⟨hquit, fun hb j u hu hj => ?_, hj⟩, rfl, rfl, rfl⟩
      have hb' : needWait = false ∧ t.flags.isOver = true := by
        cases needWait <;> cases ho : t.flags.isOver <;> simp_all
      by_cases hji : j = i
      · subst hji
        rw [ht] at hu
        exact Option.some.inj hu ▸ hb'.2
      · exact hover hb'.1 j u hu (List.not_mem_cons_of_ne_of_not_mem hji hj)

/-- The steps of `unit()`. -/
theorem sane_unitStep (h : Sane s) (hunit : s.mngr.pos = .unit) : Sane s.unitStep := by
  have hphase := h.mngrPhase
  rw [hunit] at hphase
  have hs : s.Stopping s.stopping := hphase
  -- all but the last leave the thread where it is
  have hstay : ∀ s' : GateProcess, s'.mngr = s.mngr → s'.main = s.main →
      AllAt s'.workers Set.univ (fun t => t.Coherent ∧ t.pos ≠ .idle) → s'.Stopping s'.stopping →
      Sane s' := by
    intro s' hmngr hmain hworkers hstopping
    refine ⟨hmngr ▸ h.mngr, hworkers, ?_, ?_⟩
    · rw [hmngr, hunit]
      exact hstopping
    · rw [hmain]
      exact mainPhase_of_advanced h.mainPhase (hmngr ▸ .refl _) fun _ => hmngr
  cases hpc : s.stopping with
  | stop is =>
      rw [hpc] at hs
      obtain ⟨hquit, hj⟩ := hs
      cases is with
      | nil =>
          have hstep : s.unitStep = { s with stopping := .poll false s.indices } := by
            unfold unitStep
            rw [hpc]
          rw [hstep]
          refine hstay _ rfl rfl h.workers ⟨fun i t ht _ => hquit i t ht List.not_mem_nil, ?_, hj⟩
          exact fun _ i t ht hi => absurd (mem_indices_of_getElem? ht) hi
      | cons i is =>
          have hstep : s.unitStep =
              { s with workers := s.workers.modify i Thread.stop, stopping := .stop is } := by
            unfold unitStep
            rw [hpc]
          rw [hstep]
          refine hstay _ rfl rfl ?_ ⟨?_, hj⟩
          · exact Thread.allAt_modify (fun t ht _ => ⟨(h.workers i t ht trivial).1.stop,
              (h.workers i t ht trivial).2⟩) fun j t ht _ _ => h.workers j t ht trivial
          · exact Thread.allAt_modify (fun t ht _ => rfl) fun j t ht hne hj =>
              hquit j t ht (List.not_mem_cons_of_ne_of_not_mem hne hj)
  | poll needWait is =>
      cases is with
      | cons i is =>
          obtain ⟨hstopping, hworkers, hmngr, hmain⟩ := stopping_poll h hunit hpc
          exact hstay _ hmngr hmain (hworkers ▸ h.workers) hstopping
      | nil =>
          rw [hpc] at hs
          obtain ⟨hquit, hover, hj⟩ := hs
          cases needWait with
          | true =>
              have hstep : s.unitStep = { s with stopping := .poll false s.indices } := by
                unfold unitStep
                rw [hpc]
              rw [hstep]
              exact hstay _ rfl rfl h.workers ⟨hquit, fun _ i t ht hi =>
                absurd (mem_indices_of_getElem? ht) hi, hj⟩
          | false =>
              have hstep : s.unitStep = { s with stopping := .join s.indices } := by
                unfold unitStep
                rw [hpc]
              rw [hstep]
              refine hstay _ rfl rfl h.workers ⟨fun i t ht _ => hover rfl i t ht List.not_mem_nil,
                by rw [hj]; rfl, fun i t _ hi => ?_⟩
              rw [hj] at hi
              exact absurd hi List.not_mem_nil
  | join is =>
      rw [hpc] at hs
      obtain ⟨hover, hsplit, hended⟩ := hs
      cases is with
      | nil =>
          have hstep : s.unitStep = { s with stopping := .unit } := by
            unfold unitStep
            rw [hpc]
          rw [List.append_nil] at hsplit
          rw [hstep]
          refine hstay _ rfl rfl h.workers ⟨fun i t ht _ => hended i t ht ?_, hsplit⟩
          rw [hsplit]
          exact mem_indices_of_getElem? ht
      | cons i is =>
          unfold unitStep
          rw [hpc]
          simp only
          split
          · exact h
          · next t ht =>
            split_ifs with he
            · refine hstay _ rfl rfl h.workers ⟨hover, ?_, ?_⟩
              · rw [List.append_assoc]
                exact hsplit
              · intro j u hu hj
                rcases List.mem_append.mp hj with hold | hnew
                · exact hended j u hu hold
                · rw [List.mem_singleton.mp hnew, ht] at hu
                  exact Option.some.inj hu ▸ he
            · exact h
  | unit =>
      have hstep : s.unitStep = { s with mngr := s.mngr.goto .tover } := by
        unfold unitStep
        rw [hpc]
      rw [hpc] at hs
      rw [hstep]
      have hadv : s.mngr.Advanced (s.mngr.goto .tover) := Thread.advanced_goto_over hunit
      refine ⟨hadv.coherent h.mngr, h.workers, hs, mainPhase_of_advanced h.mainPhase hadv ?_⟩
      intro hmain
      have hidle := h.mainPhase
      rw [hmain] at hidle
      exact absurd hidle.1 (by rw [hunit]; decide)

/-- A thread that is started runs. -/
theorem created_spec (r : IoRound) (nowt : ℤ) : ∀ t ∈ s.created rt z r nowt,
    t.flags.quit = false ∧ t.Coherent ∧ t.pos ≠ .idle := by
  intro t ht
  obtain ⟨hpos, hquit, hcoherent⟩ :=
    Thread.start_of_quit (z := z) (t := (.new : Thread Unit)) nowt rfl
  rw [created] at ht
  rw [List.eq_of_mem_replicate ht]
  exact ⟨hquit, hcoherent, by rw [hpos]; decide⟩

theorem sane_mngrStep (h : Sane s) (r : IoRound) (nowt : ℤ) : Sane (s.mngrStep rt z r nowt) := by
  have hphase := h.mngrPhase
  -- a thread that is not started does not move
  have hstart : s.main = .start → s.mngr.pos = .idle := by
    intro hmain
    have hidle := h.mainPhase
    rw [hmain] at hidle
    exact hidle.1
  have hadv := Thread.advanced_advance (z := z) () nowt s.mngr
  have hmain : ∀ t, s.mngr.Advanced t → (s.mngr.pos = .idle → t = s.mngr) →
      MainPhase { s with mngr := t } s.main := by
    intro t ha hidle
    apply mainPhase_of_advanced h.mainPhase ha
    exact fun hm => hidle (hstart hm)
  unfold mngrStep
  split
  · next hloop =>
    rw [hloop] at hphase
    have hgoto : s.mngr.Advanced (s.mngr.goto .timer) := Thread.advanced_goto hloop (.inl rfl)
    refine ⟨hgoto.coherent h.mngr, ?_, ⟨?_, hphase.2⟩, ?_⟩
    · exact h.workers.append fun t ht => (created_spec r nowt t ht).2
    · exact hphase.1.append fun t ht => (created_spec r nowt t ht).1
    · exact hmain _ hgoto fun hidle => by rw [hloop] at hidle; cases hidle
  · next hcheck =>
    rw [hcheck] at hphase
    refine ⟨hadv.coherent h.mngr, h.workers, ?_, ?_⟩
    · show MngrPhase _ (s.mngr.advance z () nowt).pos
      unfold Thread.advance
      rw [hcheck]
      simp only
      split_ifs
      · exact hphase
      · exact ⟨fun i t ht hi => absurd (mem_indices_of_getElem? ht) hi, hphase.2⟩
    · exact hmain _ hadv fun hidle => by rw [hcheck] at hidle; cases hidle
  · next hunit => exact sane_unitStep h hunit
  all_goals
    next hpos =>
    refine ⟨hadv.coherent h.mngr, h.workers, ?_, hmain _ hadv fun hidle => ?_⟩
    · show MngrPhase _ (s.mngr.advance z () nowt).pos
      rw [hpos] at hphase
      simp only [Thread.advance, hpos]
      exact hphase
    · simp_all [Thread.advance]

theorem sane_step (h : Sane s) (a : Act) : Sane (s.step rt z a) := by
  cases a with
  | main nowt => exact sane_mainStep h nowt
  | mngr r nowt => exact sane_mngrStep h r nowt
  | worker i r nowt => exact sane_workerStep h i r nowt

theorem sane_init (sockFd : Int32) : Sane (init sockFd) where
  mngr := Thread.coherent_new
  workers i t ht := by
    rw [init, List.getElem?_nil] at ht
    cases ht
  mngrPhase := by
    refine ⟨fun i t ht => ?_, rfl⟩
    rw [init, List.getElem?_nil] at ht
    cases ht
  mainPhase := ⟨rfl, rfl⟩

theorem sane_run (sockFd : Int32) (acts : List Act) :
    Sane (run (step rt z) (init sockFd) acts) :=
  run_invariant (I := Sane) (fun _ a h => sane_step h a) (sane_init sockFd) acts

/-- What has returned stays as it is. -/
theorem returned_step (h : Sane s) (hmain : s.main = .returned) (a : Act) :
    s.step rt z a = s := by
  have hended : s.mngr.pos = .ended := by
    have hpos := h.mainPhase
    rw [hmain] at hpos
    exact hpos
  have hphase := h.mngrPhase
  rw [hended] at hphase
  cases a with
  | main nowt =>
      show s.mainStep z nowt = s
      unfold mainStep
      rw [hmain]
  | mngr r nowt =>
      show s.mngrStep rt z r nowt = s
      unfold mngrStep
      rw [hended]
      simp only [Thread.advance, hended]
  | worker i r nowt =>
      show s.workerStep rt z i r nowt = s
      unfold workerStep
      split
      · rfl
      · next t ht =>
        have hpos : t.pos = .ended := hphase.1 i t ht trivial
        have hset : s.workers.set i t = s.workers := by
          obtain ⟨_, rfl⟩ := List.getElem?_eq_some_iff.mp ht
          exact List.set_getElem_self _
        simp only [hpos, Thread.advance, hset]

/-- **How things stand when `Gate::stop()` has returned.** In every interleaving, no
worker is told to stop before the `GateMngr` has left its loop; and when `stop()`
returns, the `GateMngr` and all the workers it has ever created have ended, each of
them joined once, and nothing is done any more. The connections are what the passes
have made of them: stopping has closed none. -/
theorem stop_clean (rt : Runtime) (z : ℤ) (sockFd : Int32) (acts : List Act) :
    let s := run (step rt z) (init sockFd) acts
    (∀ t ∈ s.workers, t.flags.quit = true → s.mngr.pos.Leaving) ∧
      s.data = run (·.step rt ·) (.init sockFd) s.passes ∧
      (s.main = .returned →
        s.mngr.pos = .ended ∧ (∀ t ∈ s.workers, t.pos = .ended) ∧
          s.joined = List.range s.workers.length ∧
          ∀ more, run (step rt z) (init sockFd) (acts ++ more) = s) := by
  intro s
  have h : Sane s := sane_run sockFd acts
  refine ⟨?_, data_passes sockFd acts, ?_⟩
  · intro t ht hquit
    obtain ⟨i, hi⟩ := List.mem_iff_getElem?.mp ht
    have hphase := h.mngrPhase
    have hnot : ¬ t.flags.quit = false := by rw [hquit]; decide
    cases hpos : s.mngr.pos with
    | idle | check | loop | timer =>
        rw [hpos] at hphase
        exact absurd (hphase.1 i t hi trivial) hnot
    | unit | tover | returning | ended => trivial
  · intro hmain
    have hended : s.mngr.pos = .ended := by
      have hpos := h.mainPhase
      rw [hmain] at hpos
      exact hpos
    have hphase := h.mngrPhase
    rw [hended] at hphase
    refine ⟨hended, hphase.1.forall_mem, hphase.2, fun more => ?_⟩
    rw [run_append]
    have hsame : ∀ more, run (step rt z) s more = s := by
      intro more
      induction more with
      | nil => rfl
      | cons a more ih => rw [run_cons, returned_step h hmain a, ih]
    exact hsame more

/-- A Logic server is verified, its worker makes a pass, and the Gate is stopped. -/
def oneWorker : List Act :=
  [.main 0, .mngr {} 0,
   .mngr { ready := .one ⟨3, true, false⟩, accepts := [.conn 4 "" 0 true] } 0,
   .mngr {} 0, .mngr {} 0,
   .mngr { ready := .one ⟨4, true, false⟩
           io := fun _ => { reads := [.data (Frame.encode ⟨3, 0, [10, 1, 97]⟩)] } } 0] ++
  List.replicate 2 (.worker 0 {} 0) ++ .main 0 :: List.replicate 6 (.mngr {} 0) ++
  List.replicate 5 (.worker 0 {} 0) ++ List.replicate 7 (.mngr {} 0) ++
  [.main 0, .mngr {} 0, .main 0]

theorem stop_clean_oneWorker :
    let s := run (step .proto2 0) (init 3) oneWorker
    s.mngr.pos = .ended ∧ (∀ t ∈ s.workers, t.pos = .ended) ∧ s.joined = [0] ∧
      ∀ more, run (step .proto2 0) (init 3) (oneWorker ++ more) = s := by
  obtain ⟨-, -, hreturned⟩ := stop_clean .proto2 0 3 oneWorker
  obtain ⟨hmngr, hworkers, hjoined, hmore⟩ := hreturned (by decide +kernel)
  exact ⟨hmngr, hworkers, by rw [hjoined]; decide +kernel, hmore⟩

/-! ## Whether it stops -/

/-- The threads a schedule has to be fair to. -/
inductive Party where
  | main
  | mngr
  | worker (i : ℕ)
  deriving DecidableEq

instance : Countable Party := by
  have hinj : Function.Injective fun p : Party => match p with
      | .main => 0
      | .mngr => 1
      | .worker i => i + 2 := by
    intro p q hpq
    cases p <;> cases q <;> simp_all
  exact hinj.countable

def Act.party : Act → Option Party
  | .main _ => some .main
  | .mngr _ _ => some .mngr
  | .worker i _ _ => some (.worker i)

/-- All workers are over. -/
def allOver (s : GateProcess) : Bool := s.workers.all fun t => t.flags.isOver

/-- The first worker that is not. -/
def firstRunning (s : GateProcess) : ℕ := s.workers.findIdx fun t => !t.flags.isOver

def hasEnded (s : GateProcess) (i : ℕ) : Bool := s.workers[i]?.any fun t => t.pos = .ended

/-- What is left to do for all the workers. -/
def workersLeft (s : GateProcess) : ℕ := (s.workers.map fun t => t.pos.left fun _ => 0).sum

/-- How far the `GateMngr` is from its end: where it is, and what is left there. -/
def mngrLeft (s : GateProcess) : ℕ × ℕ × ℕ :=
  match s.mngr.pos with
  | .idle => (0, 0, 0)
  | .loop _ => (9, 0, 0)
  | .timer => (8, 0, 0)
  | .check => (7, 0, 0)
  | .unit =>
    match s.stopping with
    | .stop is => (6, is.length, 0)
    | .poll needWait is =>
      -- the polls that are left count once all workers are over
      (5, s.workersLeft, if s.allOver then is.length + if needWait then s.workers.length + 1 else 0
        else 0)
    | .join is => (4, is.length, s.workersLeft)
    | .unit => (3, 0, 0)
  | .tover => (2, 0, 0)
  | .returning => (1, 0, 0)
  | .ended => (0, 0, 0)

/-- Whose step brings the end of the `GateMngr` nearer. -/
def mngrHelpful (s : GateProcess) : Party :=
  match s.mngr.pos with
  | .unit =>
    match s.stopping with
    | .poll _ _ => if s.allOver then .mngr else .worker s.firstRunning
    | .join (i :: _) => if s.hasEnded i then .mngr else .worker i
    | .stop _ | .join [] | .unit => .mngr
  | .idle | .check | .loop _ | .timer | .tover | .returning | .ended => .mngr

/-- The main thread does not wait any more. -/
def ready (s : GateProcess) : Bool :=
  match s.main with
  | .start | .running | .returned => true
  | .poll => s.mngr.flags.isOver
  | .join => s.mngr.pos = .ended

def helpful (s : GateProcess) : Party := if s.ready then .main else s.mngrHelpful

def distance (s : GateProcess) : ℕ × ℕ × ℕ × ℕ :=
  (s.main.left, match s.main with
    | .start | .running | .returned => (0, 0, 0)
    | .poll | .join => s.mngrLeft)

/-- Compared place by place. -/
def MngrNearer : ℕ × ℕ × ℕ → ℕ × ℕ × ℕ → Prop := Prod.Lex (· < ·) (Prod.Lex (· < ·) (· < ·))

def Nearer : ℕ × ℕ × ℕ × ℕ → ℕ × ℕ × ℕ × ℕ → Prop := Prod.Lex (· < ·) MngrNearer

theorem wellFounded_nearer : WellFounded Nearer :=
  (Nat.lt_wfRel.wf).prod_lex
    ((Nat.lt_wfRel.wf).prod_lex ((Nat.lt_wfRel.wf).prod_lex Nat.lt_wfRel.wf))

/-- The step brings the end of the `GateMngr` nearer, or leaves everything to the party
whose step would. -/
def HelpsMngr (rt : Runtime) (z : ℤ) (s : GateProcess) (a : Act) : Prop :=
  MngrNearer (s.step rt z a).mngrLeft s.mngrLeft ∨
    a.party ≠ some s.mngrHelpful ∧ (s.step rt z a).mngrLeft = s.mngrLeft ∧
      (s.step rt z a).mngrHelpful = s.mngrHelpful

/-! ### Steps of the workers -/

/-- The first that is not over, if any is not. -/
theorem firstRunning_spec (h : s.allOver = false) :
    ∃ t, s.workers[s.firstRunning]? = some t ∧ t.flags.isOver = false := by
  have hex : ∃ t ∈ s.workers, (!t.flags.isOver) = true := by
    rw [allOver, List.all_eq_false] at h
    obtain ⟨t, ht, hover⟩ := h
    exact ⟨t, ht, by simpa using hover⟩
  have hlt := List.findIdx_lt_length_of_exists hex
  refine ⟨_, List.getElem?_eq_getElem hlt, ?_⟩
  have hget := List.findIdx_getElem (w := hlt)
  simpa using hget

/-- A worker that has ended is not the one that helps. -/
theorem mngrHelpful_ne (h : Sane s) {i : ℕ}
    (hended : ∀ t, s.workers[i]? = some t → t.pos = .ended) :
    some (.worker i) ≠ some s.mngrHelpful := by
  have hphase := h.mngrPhase
  unfold mngrHelpful
  cases hpos : s.mngr.pos with
  | unit =>
      rw [hpos] at hphase
      have hs : s.Stopping s.stopping := hphase
      cases hpc : s.stopping with
      | poll needWait is =>
          simp only
          cases hall : s.allOver with
          | true => simp
          | false =>
              obtain ⟨t, ht, hover⟩ := firstRunning_spec hall
              intro heq
              obtain rfl : i = s.firstRunning := by simpa using heq
              have hcoherent := (h.workers _ t ht trivial).1.isOver
              rw [hended t ht, hover] at hcoherent
              cases hcoherent
      | join is =>
          cases is with
          | nil => simp
          | cons j is =>
              rw [hpc] at hs
              simp only
              split_ifs with hj
              · simp
              · intro heq
                obtain rfl : i = j := by simpa using heq
                have hmem : i ∈ s.indices := by
                  rw [← hs.2.1]
                  exact List.mem_append_right _ List.mem_cons_self
                have ht := List.getElem?_eq_getElem (List.mem_range.mp hmem)
                apply hj
                rw [hasEnded, ht, Option.any_some, hended _ ht]
                rfl
      | stop | unit => simp
  | idle | check | loop | timer | tover | returning | ended => simp

/-- While workers are waited for, a step of one that has not ended counts. -/
theorem helpsMngr_worker (h : Sane s) (i : ℕ) (r : WorkerRound) (nowt : ℤ) :
    HelpsMngr rt z s (.worker i r nowt) := by
  unfold HelpsMngr
  show MngrNearer (s.workerStep rt z i r nowt).mngrLeft s.mngrLeft ∨ _ ∧
    (s.workerStep rt z i r nowt).mngrLeft = s.mngrLeft ∧
      (s.workerStep rt z i r nowt).mngrHelpful = s.mngrHelpful
  rcases workerStep_cases rt z s i r nowt with ⟨hnone, hsame⟩ |
    ⟨t, t', ht, hadv, hless, hended, hworkers, hmngr, hstopping, -, -⟩
  · refine .inr ⟨mngrHelpful_ne h fun t ht => ?_, by rw [hsame], by rw [hsame]⟩
    rw [hnone] at ht
    cases ht
  have hlength : (s.workerStep rt z i r nowt).workers.length = s.workers.length := by
    rw [hworkers, List.length_set]
  by_cases he : t.pos = .ended
  · -- nothing has changed
    have hrow : (s.workerStep rt z i r nowt).workers = s.workers := by
      obtain ⟨_, rfl⟩ := List.getElem?_eq_some_iff.mp ht
      rw [hworkers, hended he]
      exact List.set_getElem_self _
    have hparts : (s.workerStep rt z i r nowt).mngrLeft = s.mngrLeft ∧
        (s.workerStep rt z i r nowt).mngrHelpful = s.mngrHelpful := by
      unfold mngrLeft mngrHelpful workersLeft allOver firstRunning hasEnded
      rw [hmngr, hstopping, hrow]
      exact ⟨rfl, rfl⟩
    refine .inr ⟨mngrHelpful_ne h fun u hu => ?_, hparts⟩
    obtain rfl := Option.some.inj (ht.symm.trans hu)
    exact he
  · have hidle := (h.workers i t ht trivial).2
    have htotal : t.flags.quit = true →
        (s.workerStep rt z i r nowt).workersLeft < s.workersLeft := by
      intro hquit
      unfold workersLeft
      rw [hworkers]
      exact sum_map_set_lt (fun t => t.pos.left fun _ => 0) ht (hless hquit hidle he)
    have hphase := h.mngrPhase
    have hfree : (∀ s' : GateProcess, s'.mngr = s.mngr → s'.stopping = s.stopping →
        s'.mngrLeft = s.mngrLeft ∧ s'.mngrHelpful = .mngr ∧ s.mngrHelpful = .mngr) →
        MngrNearer (s.workerStep rt z i r nowt).mngrLeft s.mngrLeft ∨
          (Act.worker i r nowt).party ≠ some s.mngrHelpful ∧
            (s.workerStep rt z i r nowt).mngrLeft = s.mngrLeft ∧
              (s.workerStep rt z i r nowt).mngrHelpful = s.mngrHelpful := by
      intro hall
      obtain ⟨hleft, hhelp', hhelp⟩ := hall _ hmngr hstopping
      refine .inr ⟨?_, hleft, hhelp'.trans hhelp.symm⟩
      rw [hhelp]
      simp [Act.party]
    cases hpos : s.mngr.pos with
    | unit =>
        rw [hpos] at hphase
        have hs : s.Stopping s.stopping := hphase
        cases hpc : s.stopping with
        | poll needWait is =>
            rw [hpc] at hs
            left
            unfold mngrLeft
            rw [hmngr, hstopping, hpos, hpc]
            exact .right _ (.left _ _ (htotal (hs.1 i t ht trivial)))
        | join is =>
            rw [hpc] at hs
            have hquit : t.flags.quit = true := by
              have hcoherent := (h.workers i t ht trivial).1
              apply hcoherent.quit
              rcases (hcoherent.isOver_iff hidle).mp (hs.1 i t ht trivial) with hp | hp
              · rw [hp]
                trivial
              · exact absurd hp he
            left
            unfold mngrLeft
            rw [hmngr, hstopping, hpos, hpc]
            exact .right _ (.right _ (htotal hquit))
        | stop is =>
            refine hfree fun s' hm hst => ?_
            unfold mngrLeft mngrHelpful
            rw [hm, hst, hpos, hpc]
            exact ⟨rfl, rfl, rfl⟩
        | unit =>
            refine hfree fun s' hm hst => ?_
            unfold mngrLeft mngrHelpful
            rw [hm, hst, hpos, hpc]
            exact ⟨rfl, rfl, rfl⟩
    | idle | check | loop | timer | tover | returning | ended =>
        refine hfree fun s' hm hst => ?_
        unfold mngrLeft mngrHelpful
        rw [hm, hpos]
        exact ⟨rfl, rfl, rfl⟩

/-! ### Steps of the `GateMngr` -/

/-- A step of `unit()`. -/
theorem helpsMngr_unit (h : Sane s) (hunit : s.mngr.pos = .unit) :
    MngrNearer s.unitStep.mngrLeft s.mngrLeft ∨ s.mngrHelpful ≠ .mngr ∧
      s.unitStep.mngrLeft = s.mngrLeft ∧ s.unitStep.mngrHelpful = s.mngrHelpful := by
  have hleft : ∀ s' : GateProcess, s'.mngr = s.mngr → s'.mngrLeft =
      match s'.stopping with
      | .stop is => (6, is.length, 0)
      | .poll needWait is => (5, s'.workersLeft, if s'.allOver then
          is.length + if needWait then s'.workers.length + 1 else 0 else 0)
      | .join is => (4, is.length, s'.workersLeft)
      | .unit => (3, 0, 0) := by
    intro s' hm
    unfold mngrLeft
    rw [hm, hunit]
  -- a poll that finds nothing new leaves it to the worker
  have hpoll : ∀ (s' : GateProcess) {b b' : Bool} {is is' : List ℕ}, s'.mngr = s.mngr →
      s'.workers = s.workers → s.stopping = .poll b is → s'.stopping = .poll b' is' →
      (s.allOver = true → is'.length + (if b' then s.workers.length + 1 else 0) <
        is.length + if b then s.workers.length + 1 else 0) →
      MngrNearer s'.mngrLeft s.mngrLeft ∨ s.mngrHelpful ≠ .mngr ∧ s'.mngrLeft = s.mngrLeft ∧
        s'.mngrHelpful = s.mngrHelpful := by
    intro s' b b' is is' hm hw hpc hpc' hlt
    have hall : s'.allOver = s.allOver := by rw [allOver, allOver, hw]
    have htotal : s'.workersLeft = s.workersLeft := by rw [workersLeft, workersLeft, hw]
    rw [hleft s' hm, hleft s rfl, hpc, hpc']
    simp only [hall, htotal, hw]
    cases hover : s.allOver with
    | true => exact .inl (.right _ (.right _ (hlt hover)))
    | false =>
        refine .inr ⟨?_, rfl, ?_⟩
        · rw [mngrHelpful, hunit, hpc]
          simp [hover]
        · rw [mngrHelpful, mngrHelpful, hm, hunit, hpc, hpc']
          simp only [hall, firstRunning, hw]
  cases hpc : s.stopping with
  | stop is =>
      cases is with
      | nil =>
          have hstep : s.unitStep = { s with stopping := .poll false s.indices } := by
            unfold unitStep
            rw [hpc]
          rw [hstep, hleft { s with stopping := .poll false s.indices } rfl, hleft s rfl,
            hpc]
          exact .inl (.left _ _ (Nat.lt_succ_self 5))
      | cons i is =>
          have hstep : s.unitStep =
              { s with workers := s.workers.modify i Thread.stop, stopping := .stop is } := by
            unfold unitStep
            rw [hpc]
          rw [hstep, hleft { s with workers := s.workers.modify i Thread.stop, stopping := .stop is } rfl,
            hleft s rfl, hpc]
          exact .inl (.right _ (.left _ _ (Nat.lt_succ_self _)))
  | poll needWait is =>
      cases is with
      | cons i is =>
          obtain ⟨-, hworkers, hmngr, -⟩ := stopping_poll h hunit hpc
          cases ht : s.workers[i]? with
          | none =>
              have hnext : s.unitStep.stopping = .poll needWait is := by
                unfold unitStep
                simp only [hpc, ht]
              exact hpoll _ hmngr hworkers hpc hnext fun _ =>
                Nat.add_lt_add_right (Nat.lt_succ_self _) _
          | some t =>
              have hnext : s.unitStep.stopping = .poll (needWait || !t.flags.isOver) is := by
                unfold unitStep
                simp only [hpc, ht]
              refine hpoll _ hmngr hworkers hpc hnext fun hall => ?_
              have hover : t.flags.isOver = true :=
                List.all_eq_true.mp hall t (List.mem_of_getElem? ht)
              rw [hover, Bool.not_true, Bool.or_false]
              exact Nat.add_lt_add_right (Nat.lt_succ_self _) _
      | nil =>
          cases needWait with
          | true =>
              have hstep : s.unitStep = { s with stopping := .poll false s.indices } := by
                unfold unitStep
                rw [hpc]
              rw [hstep]
              refine hpoll { s with stopping := .poll false s.indices } rfl rfl hpc rfl fun _ => ?_
              rw [indices, List.length_range]
              simp
          | false =>
              have hstep : s.unitStep = { s with stopping := .join s.indices } := by
                unfold unitStep
                rw [hpc]
              rw [hstep, hleft { s with stopping := .join s.indices } rfl, hleft s rfl,
            hpc]
              exact .inl (.left _ _ (Nat.lt_succ_self 4))
  | join is =>
      cases is with
      | nil =>
          have hstep : s.unitStep = { s with stopping := .unit } := by
            unfold unitStep
            rw [hpc]
          rw [hstep, hleft { s with stopping := .unit } rfl, hleft s rfl,
            hpc]
          exact .inl (.left _ _ (Nat.lt_succ_self 3))
      | cons i is =>
          by_cases hended : s.hasEnded i = true
          · obtain ⟨t, ht, he⟩ : ∃ t, s.workers[i]? = some t ∧ t.pos = .ended := by
              unfold hasEnded at hended
              cases ht : s.workers[i]? with
              | none => rw [ht] at hended; cases hended
              | some t =>
                  rw [ht, Option.any_some] at hended
                  exact ⟨t, rfl, of_decide_eq_true hended⟩
            have hstep : s.unitStep =
                { s with stopping := .join is, joined := s.joined ++ [i] } := by
              unfold unitStep
              simp only [hpc, ht]
              exact if_pos he
            rw [hstep, hleft { s with stopping := .join is, joined := s.joined ++ [i] } rfl,
              hleft s rfl, hpc]
            exact .inl (.right _ (.left _ _ (Nat.lt_succ_self _)))
          · have hstep : s.unitStep = s := by
              unfold unitStep
              simp only [hpc]
              split
              · rfl
              · next t ht =>
                refine if_neg fun he => hended ?_
                rw [hasEnded, ht, Option.any_some, he]
                rfl
            refine .inr ⟨?_, by rw [hstep], by rw [hstep]⟩
            rw [mngrHelpful, hunit, hpc]
            simp [hended]
  | unit =>
      have hstep : s.unitStep = { s with mngr := s.mngr.goto .tover } := by
        unfold unitStep
        rw [hpc]
      have hover : mngrLeft { s with mngr := s.mngr.goto .tover } = (2, 0, 0) := rfl
      rw [hstep, hover, hleft s rfl, hpc]
      exact .inl (.left _ _ (Nat.lt_succ_self 2))

/-- Once it is told to stop, its steps count until it has ended. -/
theorem helpsMngr_mngr (h : Sane s) (hquit : s.mngr.flags.quit = true) (hidle : s.mngr.pos ≠ .idle)
    (hended : s.mngr.pos ≠ .ended) (r : IoRound) (nowt : ℤ) :
    HelpsMngr rt z s (.mngr r nowt) := by
  unfold HelpsMngr
  show MngrNearer (s.mngrStep rt z r nowt).mngrLeft s.mngrLeft ∨ _ ∧
    (s.mngrStep rt z r nowt).mngrLeft = s.mngrLeft ∧
      (s.mngrStep rt z r nowt).mngrHelpful = s.mngrHelpful
  have hrun : s.mngr.flags.isRunning = false := by rw [IThread.isRunning, hquit]; rfl
  unfold mngrStep
  split
  · next hpos =>
    left
    simp only [mngrLeft, hpos, Thread.goto]
    exact .left _ _ (Nat.lt_succ_self 8)
  · next hpos =>
    left
    simp only [mngrLeft, hpos, Thread.advance, hrun]
    exact .left _ _ (Nat.lt_succ_self 6)
  · next hpos =>
    rcases helpsMngr_unit h hpos with hnear | ⟨hne, hrest⟩
    · exact .inl hnear
    · exact .inr ⟨fun heq => hne (Option.some.inj heq).symm, hrest⟩
  · next hpos => exact absurd hpos hidle
  · next hpos =>
    left
    simp only [mngrLeft, hpos, Thread.advance]
    exact .left _ _ (Nat.lt_succ_self 7)
  · next hpos =>
    left
    simp only [mngrLeft, hpos, Thread.advance]
    exact .left _ _ (Nat.lt_succ_self 1)
  · next hpos =>
    left
    simp only [mngrLeft, hpos, Thread.advance]
    exact .left _ _ (Nat.lt_succ_self 0)
  · next hpos => exact absurd hpos hended

/-! ### Steps that help `stop()` -/

/-- The step brings the end of `stop()` nearer, or leaves everything to the party whose
step would. -/
def Helps (rt : Runtime) (z : ℤ) (s : GateProcess) (a : Act) : Prop :=
  Nearer (s.step rt z a).distance s.distance ∨
    a.party ≠ some s.helpful ∧ (s.step rt z a).distance = s.distance ∧
      (s.step rt z a).helpful = s.helpful

/-- Only a step of the main thread moves it. -/
theorem main_step (rt : Runtime) (z : ℤ) {a : Act} (ha : a.party ≠ some .main) :
    (s.step rt z a).main = s.main := by
  cases a with
  | main nowt => exact absurd rfl ha
  | mngr r nowt =>
      show (s.mngrStep rt z r nowt).main = s.main
      unfold mngrStep unitStep
      split
      · rfl
      · rfl
      · split
        · rfl
        · rfl
        · split <;> rfl
        · rfl
        · rfl
        · split
          · rfl
          · split_ifs <;> rfl
        · rfl
        · rfl
      all_goals rfl
  | worker i r nowt =>
      rcases workerStep_cases rt z s i r nowt with ⟨-, hsame⟩ |
        ⟨_, _, -, -, -, -, -, -, -, hmain, -⟩
      · exact congrArg GateProcess.main hsame
      · exact hmain

/-- From `stop()` on, the `GateMngr` is told to stop. -/
theorem Sane.waiting (h : Sane s) (hmain : s.main = .poll ∨ s.main = .join) :
    s.mngr.pos ≠ .idle ∧ s.mngr.flags.quit = true := by
  have hphase := h.mainPhase
  rcases hmain with hpc | hpc <;> rw [hpc] at hphase
  · exact hphase
  · exact ⟨hphase.1, hphase.2.1⟩

theorem mngrLeft_le_one (hidle : s.mngr.pos ≠ .idle) :
    s.mngrLeft.1 ≤ 1 ↔ s.mngr.pos = .returning ∨ s.mngr.pos = .ended := by
  unfold mngrLeft
  cases hpos : s.mngr.pos with
  | idle => exact absurd hpos hidle
  | unit => cases hpc : s.stopping <;> simp
  | check | loop | timer | tover | returning | ended => simp

theorem mngrLeft_eq_zero (hidle : s.mngr.pos ≠ .idle) : s.mngrLeft.1 = 0 ↔ s.mngr.pos = .ended := by
  unfold mngrLeft
  cases hpos : s.mngr.pos with
  | idle => exact absurd hpos hidle
  | unit => cases hpc : s.stopping <;> simp
  | check | loop | timer | tover | returning | ended => simp

/-- Whether the main thread waits is seen from how far the `GateMngr` is. -/
theorem ready_of_left (h : Sane s) (h' : Sane s') (hmain : s'.main = s.main)
    (hleft : s'.mngrLeft = s.mngrLeft) : s'.ready = s.ready := by
  unfold ready
  rw [hmain]
  cases hpc : s.main with
  | start | running | returned => rfl
  | poll =>
      have hidle := (h.waiting (.inl hpc)).1
      have hidle' := (h'.waiting (.inl (hmain.trans hpc))).1
      have hover : s'.mngr.flags.isOver = true ↔ s.mngr.flags.isOver = true := by
        rw [h'.mngr.isOver_iff hidle', h.mngr.isOver_iff hidle, ← mngrLeft_le_one hidle',
          ← mngrLeft_le_one hidle, hleft]
      exact Bool.eq_iff_iff.mpr hover
  | join =>
      have hidle := (h.waiting (.inr hpc)).1
      have hidle' := (h'.waiting (.inr (hmain.trans hpc))).1
      have hended : s'.mngr.pos = .ended ↔ s.mngr.pos = .ended := by
        rw [← mngrLeft_eq_zero hidle', ← mngrLeft_eq_zero hidle, hleft]
      exact decide_eq_decide.mpr hended

/-- What helps the `GateMngr` helps the main thread that waits for it. -/
theorem helps_of_helpsMngr (h : Sane s) (hmain : s.main = .poll ∨ s.main = .join) {a : Act}
    (ha : a.party ≠ some .main) (hmngr : HelpsMngr rt z s a) : Helps rt z s a := by
  have hpc := main_step rt z (s := s) ha
  have hdistance : ∀ s' : GateProcess, s'.main = s.main →
      s'.distance = (s.main.left, s'.mngrLeft) := by
    intro s' hs'
    unfold distance
    rw [hs']
    rcases hmain with hpc | hpc <;> rw [hpc]
  rcases hmngr with hnear | ⟨hparty, hleft, hhelpful⟩
  · left
    rw [hdistance _ hpc, hdistance s rfl]
    exact .right _ hnear
  · have hready := ready_of_left h (sane_step h a) hpc hleft
    refine .inr ⟨?_, ?_, ?_⟩
    · unfold helpful
      split_ifs
      · exact ha
      · exact hparty
    · rw [hdistance _ hpc, hdistance s rfl, hleft]
    · rw [helpful, helpful, hready, hhelpful]

theorem mngrHelpful_ne_main : s.mngrHelpful ≠ .main := by
  unfold mngrHelpful
  split
  · split
    · split_ifs <;> simp
    · split_ifs <;> simp
    all_goals simp
  all_goals simp

/-- The main thread goes on, or waits. -/
theorem helps_main (hmain : s.main ≠ .returned) (nowt : ℤ) : Helps rt z s (.main nowt) := by
  show Nearer (s.mainStep z nowt).distance s.distance ∨ _ ∧
    (s.mainStep z nowt).distance = s.distance ∧ (s.mainStep z nowt).helpful = s.helpful
  have hnearer : ∀ s' : GateProcess, s'.main.left < s.main.left → Nearer s'.distance s.distance :=
    fun s' hlt => .left _ _ hlt
  have hwaits : s.ready = false → some Party.main ≠ some s.helpful := by
    intro hready heq
    rw [helpful, if_neg (by rw [hready]; decide)] at heq
    exact mngrHelpful_ne_main (Option.some.inj heq).symm
  unfold mainStep
  cases hpc : s.main with
  | start => exact .inl (hnearer _ (by rw [hpc]; exact Nat.lt_succ_self 3))
  | running => exact .inl (hnearer _ (by rw [hpc]; exact Nat.lt_succ_self 2))
  | poll =>
      simp only
      split_ifs with hover
      · exact .inl (hnearer _ (by rw [hpc]; exact Nat.lt_succ_self 1))
      · refine .inr ⟨hwaits ?_, rfl, rfl⟩
        rw [ready, hpc]
        exact Bool.eq_false_of_not_eq_true hover
  | join =>
      simp only
      split_ifs with hended
      · exact .inl (hnearer _ (by rw [hpc]; exact Nat.lt_succ_self 0))
      · refine .inr ⟨hwaits ?_, rfl, rfl⟩
        rw [ready, hpc]
        exact decide_eq_false hended
  | returned => exact absurd hpc hmain

/-- A main thread that does not wait is not touched by the others. -/
theorem helps_of_free (hmain : s.main = .start ∨ s.main = .running) {a : Act}
    (ha : a.party ≠ some .main) : Helps rt z s a := by
  have hpc := main_step rt z (s := s) ha
  have hhelpful : ∀ s' : GateProcess, s'.main = s.main → s'.helpful = .main := by
    intro s' hs'
    unfold helpful ready
    rw [hs']
    rcases hmain with hpc | hpc <;> rw [hpc] <;> rfl
  refine .inr ⟨?_, ?_, ?_⟩
  · rw [hhelpful s rfl]
    exact ha
  · unfold distance
    rw [hpc]
    rcases hmain with hpc | hpc <;> rw [hpc]
  · rw [hhelpful _ hpc, hhelpful s rfl]

/-- **Every step helps**, wherever the main thread is. -/
theorem helps (h : Sane s) (hmain : s.main ≠ .returned) (a : Act) : Helps rt z s a := by
  by_cases ha : a.party = some .main
  · cases a with
    | main nowt => exact helps_main hmain nowt
    | mngr r nowt => cases ha
    | worker i r nowt => cases ha
  have hwait : s.main = .poll ∨ s.main = .join → Helps rt z s a := by
    intro hpc
    obtain ⟨hidle, hquit⟩ := h.waiting hpc
    cases a with
    | main nowt => exact absurd rfl ha
    | worker i r nowt => exact helps_of_helpsMngr h hpc ha (helpsMngr_worker h i r nowt)
    | mngr r nowt =>
        by_cases hended : s.mngr.pos = .ended
        · -- it is the turn of the main thread
          have hstep : s.step rt z (.mngr r nowt) = s := by
            show s.mngrStep rt z r nowt = s
            unfold mngrStep
            rw [hended]
            simp only [Thread.advance, hended]
          have hready : s.ready = true := by
            unfold ready
            rcases hpc with hpc | hpc <;> rw [hpc]
            · exact (h.mngr.isOver_iff hidle).mpr (.inr hended)
            · exact decide_eq_true hended
          refine .inr ⟨?_, by rw [hstep], by rw [hstep]⟩
          rw [helpful, if_pos hready]
          exact ha
        · exact helps_of_helpsMngr h hpc ha (helpsMngr_mngr h hquit hidle hended r nowt)
  cases hpc : s.main with
  | start => exact helps_of_free (.inl hpc) ha
  | running => exact helps_of_free (.inr hpc) ha
  | poll => exact hwait (.inl hpc)
  | join => exact hwait (.inr hpc)
  | returned => exact absurd hpc hmain

/-- **`Gate::stop()` returns** in every fair run, with as many workers as have come to be
before the `GateMngr` sees that it is to stop. -/
theorem stop_returns (rt : Runtime) (z : ℤ) (sockFd : Int32) {acts : ℕ → Act}
    (hfair : Fair Act.party acts) :
    ∃ k, (after (step rt z) (init sockFd) acts k).main = .returned := by
  have hprogress : Helpful (step rt z) Act.party Sane (fun s => s.main = .returned) Nearer
      distance helpful :=
    ⟨fun _ a h => sane_step h a, fun _ a h hmain => helps h hmain a⟩
  exact hprogress.eventually wellFounded_nearer (sane_init sockFd) hfair

/-- A worker is at work by the time the Gate is stopped. -/
theorem stop_returns_oneWorker :
    ∃ acts, Fair Act.party acts ∧
      (after (step .proto2 0) (init 3) acts 6).workers.length = 1 ∧
      ∃ k, (after (step .proto2 0) (init 3) acts k).main = .returned := by
  have hturn : ∀ p : Party, ∃ a : Act, a.party = some p := by
    intro p
    cases p with
    | main => exact ⟨.main 0, rfl⟩
    | mngr => exact ⟨.mngr {} 0, rfl⟩
    | worker i => exact ⟨.worker i {} 0, rfl⟩
  have : Nonempty Party := ⟨.main⟩
  obtain ⟨acts, hfair, hstarts⟩ :=
    exists_fair_after hturn (step .proto2 0) (init 3) (oneWorker.take 6)
  refine ⟨acts, hfair, ?_, stop_returns .proto2 0 3 hfair⟩
  have hlength : (oneWorker.take 6).length = 6 := rfl
  rw [hlength] at hstarts
  rw [hstarts]
  decide +kernel

end GateProcess

end Rubo.Server
