import Rubo.Server.LogicThreads
import Rubo.Util.ThreadFunc

/-!
# A Logic Process from Start to Stop

`Logic::run()` starts the IO thread and the workers, `Logic::stop()` ends them. The
main thread sets `_quit`, polls `_over`, wakes workers up with `just_notify()` and
joins; the others are in `thread_func()`, and in their loops do what
`LogicThreads` says. Any of them can be interrupted anywhere, but what the IO thread
reads in a pass it reads in one step, which is assumed to end. What `unit()` closes is
no part of the model.

`Phase` says what holds while the main thread is at each place of `stop()`. From it
follows what is the case when `stop()` returns (`stop_returned`), for any number
of workers. Whether it returns is another question.
-/

namespace Rubo.Server

open Rubo.Foundation Rubo.Msgs Rubo.Util

/-! ## The threads -/

/-- Where the IO thread is in `thread_loop()`. -/
inductive IoLoop where
  /-- In the first loop of `handler_epevent`, with these messages to be dealt out. -/
  | dealing (msgs : List UserMsg)
  /-- In the second, with these workers to come. -/
  | telling (is : List ℕ)
  /-- Between the two parts of `notify_msg_in`. -/
  | notifying (is : List ℕ)
  /-- In front of `handler_worker_msgs`. -/
  | draining
  deriving DecidableEq

/-- Where the main thread is in `run()` and `stop()`. -/
inductive MainPc where
  | startIo
  /-- In the loop of `run()`, with these workers to come. -/
  | startWorkers (is : List ℕ)
  /-- Behind `run()`, in front of `stop()`. -/
  | running
  | pollIo
  | joinIo
  /-- In the first loop over the workers, with these to come. -/
  | stopWorkers (is : List ℕ)
  /-- In front of `is_over()` of the worker, with these to come. -/
  | poll (i : ℕ) (needWait : Bool) (is : List ℕ)
  /-- In front of `just_notify()`. -/
  | notify (i : ℕ) (is : List ℕ)
  /-- In the second loop. -/
  | join (is : List ℕ)
  | returned
  deriving DecidableEq

namespace LogicThread

/-- `LogicWorker::unit()`: what is left in the lists is thrown away. -/
def unit (d : LogicThread) : LogicThread :=
  { d with worker := { d.worker with msgsIn := [], ioMsgs := [], outMsgs := [] } }

variable (z : ℤ)

/-- A step of a worker: what it puts into `_out_msgs` of the server, and itself.
Where it is in `thread_loop()` is its stage. -/
def turn (dosthId : Option Int32) (nowt : ℤ) (t : Thread Unit) (d : LogicThread) :
    List UserMsg × Thread Unit × LogicThread :=
  match t.pos with
  | .loop _ =>
    match d.stage with
    | .top => ([], t, d.wait)
    | .blocked => ([], t, d)
    | .woken => ([], t, d.swap)
    | .handling (_ :: _) => ([], t, d.handle dosthId)
    | .handling [] => (d.addMsgs.1, t, d.addMsgs.2)
    | .replied => ([], t.goto .timer, d.clear)
  | .unit => ([], t.goto .tover, d.unit)
  | .idle | .check | .timer | .tover | .returning | .ended =>
    ([], t.advance z () nowt, d)

end LogicThread

/-- The threads of a Logic process. The history says in which order they are joined;
`none` stands for the IO thread. -/
structure LogicProcess where
  data : LogicThreads
  io : Thread IoLoop
  workers : List (Thread Unit)
  main : MainPc
  joined : List (Option ℕ)

namespace LogicProcess

/-- A step of a thread, with what it reads: the messages that arrive in the pass that
begins, the shared counter behind the answers, the clock. -/
inductive Act where
  | main (nowt : ℤ)
  | io (msgs : List UserMsg) (nowt : ℤ)
  | worker (i : ℕ) (dosthId : Option Int32) (nowt : ℤ)
  /-- A wake-up for no reason. -/
  | wake (i : ℕ)

/-- A process that has been initialised, with these workers. -/
def init (names : List (List UInt8)) : LogicProcess where
  data := .init names
  io := .new
  workers := names.map fun _ => .new
  main := .startIo
  joined := []

variable (z : ℤ) (s : LogicProcess)

/-- The indices of the workers. -/
def indices : List ℕ := List.range s.workers.length

/-- A step of `run()` and `stop()`. -/
def mainStep (nowt : ℤ) : LogicProcess :=
  match s.main with
  | .startIo => { s with io := s.io.start z nowt, main := .startWorkers s.indices }
  | .startWorkers (i :: is) =>
    { s with workers := s.workers.modify i (Thread.start z nowt), main := .startWorkers is }
  | .startWorkers [] => { s with main := .running }
  | .running => { s with io := s.io.stop, main := .pollIo }
  | .pollIo => if s.io.flags.isOver then { s with main := .joinIo } else s
  | .joinIo =>
    if s.io.pos = .ended then
      { s with main := .stopWorkers s.indices, joined := s.joined ++ [none] }
    else s
  | .stopWorkers (i :: is) =>
    { s with workers := s.workers.modify i Thread.stop, main := .poll i false is }
  | .stopWorkers [] => { s with main := .join s.indices }
  | .poll i needWait is =>
    match s.workers[i]? with
    | none => s
    | some t =>
      if t.flags.isOver then
        -- a worker that was over at once ends the loop
        { s with main := if needWait then .stopWorkers is else .join s.indices }
      else { s with main := .notify i is }
  | .notify i is => { s with data := s.data.modify i LogicThread.wake, main := .poll i true is }
  | .join (i :: is) =>
    match s.workers[i]? with
    | none => s
    | some t =>
      if t.pos = .ended then { s with main := .join is, joined := s.joined ++ [some i] } else s
  | .join [] => { s with main := .returned }
  | .returned => s

/-- A step of the IO thread. -/
def ioStep (msgs : List UserMsg) (nowt : ℤ) : LogicProcess :=
  match s.io.pos with
  | .loop (.dealing (msg :: msgs)) =>
    { s with data := s.data.step (.dispatch msg), io := s.io.goto (.loop (.dealing msgs)) }
  | .loop (.dealing []) => { s with io := s.io.goto (.loop (.telling s.indices)) }
  | .loop (.telling (i :: is)) =>
    -- a worker that got nothing is not notified
    let data := s.data.step (.append i)
    { s with
      data := data
      io := s.io.goto (.loop (if data.notifying = none then .telling is else .notifying is)) }
  | .loop (.telling []) => { s with io := s.io.goto (.loop .draining) }
  | .loop (.notifying is) =>
    { s with data := s.data.step .notify, io := s.io.goto (.loop (.telling is)) }
  | .loop .draining => { s with data := s.data.step .drain, io := s.io.goto .timer }
  | .unit => { s with io := s.io.goto .tover }
  | .idle | .check | .timer | .tover | .returning | .ended =>
    { s with io := s.io.advance z (.dealing msgs) nowt }

/-- A step of a worker. -/
def workerStep (i : ℕ) (dosthId : Option Int32) (nowt : ℤ) : LogicProcess :=
  match s.workers[i]?, s.data.threads[i]? with
  | some t, some d =>
    let (out, t, d) := d.turn z dosthId nowt t
    { s with
      data := { s.data with threads := s.data.threads.set i d, outMsgs := s.data.outMsgs ++ out }
      workers := s.workers.set i t }
  | _, _ => s

def step : Act → LogicProcess
  | .main nowt => s.mainStep z nowt
  | .io msgs nowt => s.ioStep z msgs nowt
  | .worker i dosthId nowt => s.workerStep z i dosthId nowt
  | .wake i => { s with data := s.data.modify i LogicThread.wake }

/-! ## What holds when -/

/-- All workers with an index in the set are in order. -/
def Workers (is : Set ℕ) (P : Thread Unit → Prop) : Prop := Thread.AllAt s.workers is P

/-- What holds while the main thread is at a place. -/
def Phase : MainPc → Prop
  | .startIo => s.io.flags.quit = false ∧
      s.Workers Set.univ (fun t => t.flags.quit = false ∧ t.pos = .idle) ∧ s.joined = []
  | .startWorkers is => s.io.flags.quit = false ∧ s.io.pos ≠ .idle ∧
      s.Workers Set.univ (fun t => t.flags.quit = false) ∧
      s.Workers {i | i ∈ is} (fun t => t.pos = .idle) ∧
      s.Workers {i | i ∉ is} (fun t => t.pos ≠ .idle) ∧ is <:+ s.indices ∧ s.joined = []
  | .running => s.io.pos ≠ .idle ∧
      s.Workers Set.univ (fun t => t.flags.quit = false ∧ t.pos ≠ .idle) ∧ s.joined = []
  | .pollIo => s.io.flags.quit = true ∧ s.io.pos ≠ .idle ∧
      s.Workers Set.univ (fun t => t.flags.quit = false ∧ t.pos ≠ .idle) ∧ s.joined = []
  | .joinIo => s.io.flags.isOver = true ∧ s.io.pos ≠ .idle ∧
      s.Workers Set.univ (fun t => t.flags.quit = false ∧ t.pos ≠ .idle) ∧ s.joined = []
  | .stopWorkers is => s.io.pos = .ended ∧ s.Workers Set.univ (fun t => t.pos ≠ .idle) ∧
      s.Workers {j | j ∉ is} (fun t => t.flags.isOver = true) ∧ is <:+ s.indices ∧
      s.joined = [none]
  | .poll i _ is | .notify i is => s.io.pos = .ended ∧
      s.Workers Set.univ (fun t => t.pos ≠ .idle) ∧ s.Workers {i} (fun t => t.flags.quit = true) ∧
      s.Workers {j | j ∉ i :: is} (fun t => t.flags.isOver = true) ∧ i :: is <:+ s.indices ∧
      s.joined = [none]
  | .join is => s.io.pos = .ended ∧ s.Workers Set.univ (fun t => t.pos ≠ .idle) ∧
      (∃ done, s.joined = none :: done.map some ∧ done ++ is = s.indices ∧
        s.Workers {i | i ∈ done} (fun t => t.pos = .ended)) ∧
      -- a single worker is not passed over
      (s.workers.length ≤ 1 → s.Workers Set.univ (fun t => t.flags.isOver = true))
  | .returned => s.io.pos = .ended ∧ s.Workers Set.univ (fun t => t.pos = .ended) ∧
      s.joined = none :: s.indices.map some

variable {z} {s} {s' : LogicProcess}

/-! ## The steps of the others -/

/-- What a step of another thread does to what the main thread looks at. -/
structure Moves (s s' : LogicProcess) : Prop where
  main : s'.main = s.main
  joined : s'.joined = s.joined
  length : s'.workers.length = s.workers.length
  io : s.io.Advanced s'.io
  workers : ∀ (i : ℕ) (t' : Thread Unit), s'.workers[i]? = some t' →
    ∃ t : Thread Unit, s.workers[i]? = some t ∧ t.Advanced t'

theorem Moves.forall (h : Moves s s') {is : Set ℕ} {P : Thread Unit → Prop}
    (hP : ∀ t t', t.Advanced t' → P t → P t') (hall : s.Workers is P) : s'.Workers is P := by
  intro i t' ht' hi
  obtain ⟨t, ht, hadv⟩ := h.workers i t' ht'
  exact hP t t' hadv (hall i t ht hi)

theorem Moves.indices (h : Moves s s') : s'.indices = s.indices := by
  rw [LogicProcess.indices, LogicProcess.indices, h.length]

/-- Nothing the main thread relies on is undone. -/
theorem Moves.phase (h : Moves s s') {pc : MainPc} (hphase : s.Phase pc) : s'.Phase pc := by
  have hquit : ∀ t t' : Thread Unit, t.Advanced t' → t.flags.quit = false → t'.flags.quit = false :=
    fun t t' ha hq => ha.quit.trans hq
  have hidle : ∀ t t' : Thread Unit, t.Advanced t' → t.pos ≠ .idle → t'.pos ≠ .idle :=
    fun t t' ha hp heq => hp (ha.idle.mp heq)
  have hboth : ∀ t t' : Thread Unit, t.Advanced t' → t.flags.quit = false ∧ t.pos ≠ .idle →
      t'.flags.quit = false ∧ t'.pos ≠ .idle :=
    fun t t' ha hp => ⟨hquit t t' ha hp.1, hidle t t' ha hp.2⟩
  have hover : ∀ t t' : Thread Unit, t.Advanced t' → t.flags.isOver = true →
      t'.flags.isOver = true := fun t t' ha => ha.isOver
  have hended : ∀ t t' : Thread Unit, t.Advanced t' → t.pos = .ended → t'.pos = .ended :=
    fun t t' ha hp => by rw [ha.ended hp]; exact hp
  have hio : s.io.pos ≠ .idle → s'.io.pos ≠ .idle := fun hp heq => hp (h.io.idle.mp heq)
  have hioEnded : s.io.pos = .ended → s'.io.pos = .ended :=
    fun hp => by rw [h.io.ended hp]; exact hp
  cases pc with
  | startIo =>
      obtain ⟨hq, hw, hj⟩ := hphase
      exact ⟨h.io.quit.trans hq, h.forall (fun t t' ha hp => ⟨hquit t t' ha hp.1, ha.idle.mpr hp.2⟩)
        hw, h.joined.trans hj⟩
  | startWorkers is =>
      obtain ⟨hq, hi, hw, hn, hs, hsuf, hj⟩ := hphase
      exact ⟨h.io.quit.trans hq, hio hi, h.forall hquit hw, h.forall (fun t t' ha => ha.idle.mpr) hn,
        h.forall hidle hs, h.indices ▸ hsuf, h.joined.trans hj⟩
  | running =>
      obtain ⟨hi, hw, hj⟩ := hphase
      exact ⟨hio hi, h.forall hboth hw, h.joined.trans hj⟩
  | pollIo =>
      obtain ⟨hq, hi, hw, hj⟩ := hphase
      exact ⟨h.io.quit.trans hq, hio hi, h.forall hboth hw, h.joined.trans hj⟩
  | joinIo =>
      obtain ⟨ho, hi, hw, hj⟩ := hphase
      exact ⟨h.io.isOver ho, hio hi, h.forall hboth hw, h.joined.trans hj⟩
  | stopWorkers is =>
      obtain ⟨he, hw, ho, hs, hj⟩ := hphase
      exact ⟨hioEnded he, h.forall hidle hw, h.forall hover ho, h.indices ▸ hs,
        h.joined.trans hj⟩
  | poll i needWait is =>
      obtain ⟨he, hw, hq, ho, hs, hj⟩ := hphase
      exact ⟨hioEnded he, h.forall hidle hw, h.forall (fun t t' ha hq => ha.quit.trans hq) hq,
        h.forall hover ho, h.indices ▸ hs, h.joined.trans hj⟩
  | notify i is =>
      obtain ⟨he, hw, hq, ho, hs, hj⟩ := hphase
      exact ⟨hioEnded he, h.forall hidle hw, h.forall (fun t t' ha hq => ha.quit.trans hq) hq,
        h.forall hover ho, h.indices ▸ hs, h.joined.trans hj⟩
  | join is =>
      obtain ⟨he, hw, ⟨done, hj, hsplit, hd⟩, hone⟩ := hphase
      exact ⟨hioEnded he, h.forall hidle hw,
        ⟨done, h.joined.trans hj, hsplit.trans h.indices.symm, h.forall hended hd⟩,
        fun hle => h.forall hover (hone (h.length ▸ hle))⟩
  | returned =>
      obtain ⟨he, hw, hj⟩ := hphase
      exact ⟨hioEnded he, h.forall hended hw, by rw [h.joined, hj, h.indices]⟩

theorem moves_io (hio : s.io.Advanced s'.io) (hworkers : s'.workers = s.workers)
    (hmain : s'.main = s.main) (hjoined : s'.joined = s.joined) : Moves s s' :=
  ⟨hmain, hjoined, by rw [hworkers], hio, fun i t' ht' => ⟨t', hworkers ▸ ht', .refl t'⟩⟩

theorem moves_ioStep (msgs : List UserMsg) (nowt : ℤ) : Moves s (s.ioStep z msgs nowt) := by
  unfold ioStep
  split
  · next h => exact moves_io (Thread.advanced_goto h (.inr ⟨_, rfl⟩)) rfl rfl rfl
  · next h => exact moves_io (Thread.advanced_goto h (.inr ⟨_, rfl⟩)) rfl rfl rfl
  · next h => exact moves_io (Thread.advanced_goto h (.inr ⟨_, rfl⟩)) rfl rfl rfl
  · next h => exact moves_io (Thread.advanced_goto h (.inr ⟨_, rfl⟩)) rfl rfl rfl
  · next h => exact moves_io (Thread.advanced_goto h (.inr ⟨_, rfl⟩)) rfl rfl rfl
  · next h => exact moves_io (Thread.advanced_goto h (.inl rfl)) rfl rfl rfl
  · next h => exact moves_io (Thread.advanced_goto_over h) rfl rfl rfl
  all_goals exact moves_io (Thread.advanced_advance ..) rfl rfl rfl

/-- The thread of a worker makes the steps of `thread_func()`. -/
theorem advanced_turn (dosthId : Option Int32) (nowt : ℤ) (t : Thread Unit) (d : LogicThread) :
    t.Advanced (d.turn z dosthId nowt t).2.1 := by
  unfold LogicThread.turn
  split
  · next h =>
    split
    · exact .refl t
    · exact .refl t
    · exact .refl t
    · exact .refl t
    · exact .refl t
    · exact Thread.advanced_goto h (.inl rfl)
  · next h => exact Thread.advanced_goto_over h
  all_goals exact Thread.advanced_advance ..

/-- A step of a worker that is there. -/
theorem workerStep_eq {i : ℕ} {t : Thread Unit} {d : LogicThread} (ht : s.workers[i]? = some t)
    (hd : s.data.threads[i]? = some d) (dosthId : Option Int32) (nowt : ℤ) :
    s.workerStep z i dosthId nowt = { s with
      data := { s.data with
        threads := s.data.threads.set i (d.turn z dosthId nowt t).2.2
        outMsgs := s.data.outMsgs ++ (d.turn z dosthId nowt t).1 }
      workers := s.workers.set i (d.turn z dosthId nowt t).2.1 } := by
  unfold workerStep
  rw [ht, hd]

/-- A worker makes a step, or it is not there. -/
theorem workerStep_cases (s : LogicProcess) (i : ℕ) (dosthId : Option Int32) (nowt : ℤ) :
    s.workerStep z i dosthId nowt = s ∨
      ∃ t d, s.workers[i]? = some t ∧ s.data.threads[i]? = some d := by
  unfold workerStep
  cases s.workers[i]? with
  | none => exact .inl rfl
  | some t =>
      cases s.data.threads[i]? with
      | none => exact .inl rfl
      | some d => exact .inr ⟨t, d, rfl, rfl⟩

theorem moves_workerStep (i : ℕ) (dosthId : Option Int32) (nowt : ℤ) :
    Moves s (s.workerStep z i dosthId nowt) := by
  rcases workerStep_cases s i dosthId nowt with hsame | ⟨t, d, ht, hd⟩
  · rw [hsame]
    exact moves_io (.refl _) rfl rfl rfl
  · rw [workerStep_eq ht hd]
    refine ⟨rfl, rfl, List.length_set, .refl _, ?_⟩
    intro j t' ht'
    rw [List.getElem?_set] at ht'
    split_ifs at ht' with hj hlt
    · obtain rfl := Option.some.inj ht'
      exact ⟨t, hj ▸ ht, advanced_turn ..⟩
    · exact ⟨t', ht', .refl t'⟩

/-! ## The steps of the main thread -/

/-- What the main thread changes of one worker. -/
theorem workers_modify {i : ℕ} {f : Thread Unit → Thread Unit}
    (hworkers : s'.workers = s.workers.modify i f) {is : Set ℕ} {P : Thread Unit → Prop}
    (hself : ∀ t, s.workers[i]? = some t → i ∈ is → P (f t))
    (hothers : ∀ (j : ℕ) (t : Thread Unit), s.workers[j]? = some t → j ≠ i → j ∈ is → P t) :
    s'.Workers is P := by
  unfold Workers
  rw [hworkers]
  exact Thread.allAt_modify hself hothers

theorem indices_modify {i : ℕ} {f : Thread Unit → Thread Unit}
    (hworkers : s'.workers = s.workers.modify i f) : s'.indices = s.indices := by
  rw [indices, indices, hworkers, List.length_modify]

theorem mem_indices_of_getElem? {i : ℕ} {t : Thread Unit} (ht : s.workers[i]? = some t) :
    i ∈ s.indices :=
  List.mem_range.mpr (List.getElem?_eq_some_iff.mp ht).1

/-- Where the flags of the threads and the place of the main thread fit together. -/
structure Sane (s : LogicProcess) : Prop where
  io : s.io.Coherent
  workers : s.Workers Set.univ Thread.Coherent
  length : s.data.threads.length = s.workers.length
  phase : s.Phase s.main

variable (h : Sane s) (nowt : ℤ)
include h

/-! ### `run()` -/

theorem phase_startIo (hmain : s.main = .startIo) :
    (s.mainStep z nowt).Phase (s.mainStep z nowt).main := by
  have hphase := h.phase
  rw [hmain] at hphase
  obtain ⟨hq, hw, hj⟩ := hphase
  obtain ⟨hpos, hq', -⟩ := Thread.start_of_quit (z := z) nowt hq
  unfold mainStep
  rw [hmain]
  refine ⟨hq', ?_, fun i t ht _ => (hw i t ht trivial).1, fun i t ht _ => (hw i t ht trivial).2,
    ?_, List.suffix_refl _, hj⟩
  · intro hidle
    rw [hpos] at hidle
    cases hidle
  · exact fun i t ht hi => absurd (mem_indices_of_getElem? ht) hi

theorem phase_startWorkers {is : List ℕ} (hmain : s.main = .startWorkers is) :
    (s.mainStep z nowt).Phase (s.mainStep z nowt).main := by
  have hphase := h.phase
  rw [hmain] at hphase
  obtain ⟨hq, hi, hw, hn, hs, hsuf, hj⟩ := hphase
  unfold mainStep
  rw [hmain]
  cases is with
  | nil => exact ⟨hi, fun i t ht _ => ⟨hw i t ht trivial, hs i t ht List.not_mem_nil⟩, hj⟩
  | cons i is =>
      have hstart : ∀ t, s.workers[i]? = some t → (t.start z nowt).pos = .check ∧
          (t.start z nowt).flags.quit = false := fun t ht =>
        ⟨(Thread.start_of_quit nowt (hw i t ht trivial)).1,
          (Thread.start_of_quit nowt (hw i t ht trivial)).2.1⟩
      -- no worker is started twice
      have hnot : i ∉ is :=
        (List.nodup_cons.mp (List.nodup_range.sublist hsuf.sublist)).1
      refine ⟨hq, hi, workers_modify rfl (fun t ht _ => (hstart t ht).2)
          (fun j t ht _ _ => hw j t ht trivial),
        workers_modify rfl (fun t _ hi => absurd hi hnot)
          (fun j t ht _ hj => hn j t ht (List.mem_cons_of_mem i hj)),
        workers_modify rfl ?_ ?_, ?_, hj⟩
      · intro t ht _ hidle
        rw [(hstart t ht).1] at hidle
        cases hidle
      · exact fun j t ht hne hj => hs j t ht (List.not_mem_cons_of_ne_of_not_mem hne hj)
      · rw [indices_modify (s := s) rfl]
        exact (List.suffix_cons i is).trans hsuf

/-! ### The IO thread is ended -/

theorem phase_pollIo (hmain : s.main = .pollIo) :
    (s.mainStep z nowt).Phase (s.mainStep z nowt).main := by
  have hphase := h.phase
  rw [hmain] at hphase
  obtain ⟨hq, hi, hw, hj⟩ := hphase
  unfold mainStep
  rw [hmain]
  simp only
  split_ifs with hover
  · exact ⟨hover, hi, hw, hj⟩
  · rw [hmain]
    exact ⟨hq, hi, hw, hj⟩

theorem phase_joinIo (hmain : s.main = .joinIo) :
    (s.mainStep z nowt).Phase (s.mainStep z nowt).main := by
  have hphase := h.phase
  rw [hmain] at hphase
  obtain ⟨ho, hi, hw, hj⟩ := hphase
  unfold mainStep
  rw [hmain]
  simp only
  split_ifs with hended
  · refine ⟨hended, fun i t ht _ => (hw i t ht trivial).2, ?_, List.suffix_refl _, ?_⟩
    · exact fun i t ht hi => absurd (mem_indices_of_getElem? ht) hi
    · show s.joined ++ [none] = [none]
      rw [hj, List.nil_append]
  · rw [hmain]
    exact ⟨ho, hi, hw, hj⟩

/-! ### The workers are stopped -/

theorem phase_stopWorkers {is : List ℕ} (hmain : s.main = .stopWorkers is) :
    (s.mainStep z nowt).Phase (s.mainStep z nowt).main := by
  have hphase := h.phase
  rw [hmain] at hphase
  obtain ⟨he, hw, ho, hs, hj⟩ := hphase
  unfold mainStep
  rw [hmain]
  cases is with
  | nil =>
      have hall : s.Workers Set.univ fun t => t.flags.isOver = true :=
        fun i t ht _ => ho i t ht List.not_mem_nil
      exact ⟨he, hw, ⟨[], hj, rfl, fun i t _ hi => absurd hi List.not_mem_nil⟩, fun _ => hall⟩
  | cons i is =>
      simp only
      refine ⟨he, workers_modify (f := Thread.stop) rfl (fun t ht _ => hw i t ht trivial)
          (fun j t ht _ _ => hw j t ht trivial),
        workers_modify (f := Thread.stop) rfl (fun t ht _ => rfl)
          (fun j t _ hne hj => absurd hj hne),
        workers_modify (f := Thread.stop) rfl (fun t ht hi => absurd List.mem_cons_self hi)
          (fun j t ht _ hj => ho j t ht hj), ?_, hj⟩
      rw [indices_modify (s := s) rfl]
      exact hs

/-- The worker that is polled is over: either the next is stopped, or all are joined. -/
theorem phase_poll {i : ℕ} {needWait : Bool} {is : List ℕ} (hmain : s.main = .poll i needWait is) :
    (s.mainStep z nowt).Phase (s.mainStep z nowt).main := by
  have hphase := h.phase
  rw [hmain] at hphase
  have ⟨he, hw, hq, ho, hs, hj⟩ := hphase
  unfold mainStep
  rw [hmain]
  simp only
  cases ht : s.workers[i]? with
  | none =>
      simp only [hmain]
      exact hphase
  | some t =>
      simp only
      split_ifs with hover hwait
      · refine ⟨he, hw, ?_, (List.suffix_cons i is).trans hs, hj⟩
        intro j u hu hj
        by_cases hji : j = i
        · subst hji
          rw [ht] at hu
          exact Option.some.inj hu ▸ hover
        · exact ho j u hu (List.not_mem_cons_of_ne_of_not_mem hji hj)
      · refine ⟨he, hw, ⟨[], hj, rfl, fun i t _ hi => absurd hi List.not_mem_nil⟩, ?_⟩
        -- a single worker is the one polled
        intro hone j u hu _
        have hilt := (List.getElem?_eq_some_iff.mp ht).1
        have hjlt := (List.getElem?_eq_some_iff.mp hu).1
        have hone' : s.workers.length ≤ 1 := hone
        obtain rfl : j = i := by omega
        rw [ht] at hu
        exact Option.some.inj hu ▸ hover
      · exact hphase

/-! ### The workers are joined -/

theorem phase_join {is : List ℕ} (hmain : s.main = .join is) :
    (s.mainStep z nowt).Phase (s.mainStep z nowt).main := by
  have hphase := h.phase
  rw [hmain] at hphase
  have ⟨he, hw, ⟨done, hj, hsplit, hd⟩, hone⟩ := hphase
  unfold mainStep
  rw [hmain]
  cases is with
  | nil =>
      rw [List.append_nil] at hsplit
      refine ⟨he, ?_, ?_⟩
      · exact fun i t ht _ => hd i t ht (hsplit ▸ mem_indices_of_getElem? ht)
      · show s.joined = none :: s.indices.map some
        rw [hj, hsplit]
  | cons i is =>
      simp only
      cases ht : s.workers[i]? with
      | none =>
          simp only [hmain]
          exact hphase
      | some t =>
          simp only
          split_ifs with hended
          · refine ⟨he, hw, ⟨done ++ [i], ?_, ?_, ?_⟩, hone⟩
            · simp [hj]
            · rw [List.append_assoc]
              exact hsplit
            · intro j u hu hj
              rcases List.mem_append.mp hj with hold | hnew
              · exact hd j u hu hold
              · rw [List.mem_singleton.mp hnew, ht] at hu
                exact Option.some.inj hu ▸ hended
          · rw [hmain]
            exact hphase

/-- Wherever the main thread is, it goes on as it should. -/
theorem phase_mainStep : (s.mainStep z nowt).Phase (s.mainStep z nowt).main := by
  have hphase := h.phase
  cases hmain : s.main with
  | startIo => exact phase_startIo h nowt hmain
  | startWorkers is => exact phase_startWorkers h nowt hmain
  | running =>
      rw [hmain] at hphase
      obtain ⟨hi, hw, hj⟩ := hphase
      unfold mainStep
      rw [hmain]
      exact ⟨rfl, hi, hw, hj⟩
  | pollIo => exact phase_pollIo h nowt hmain
  | joinIo => exact phase_joinIo h nowt hmain
  | stopWorkers is => exact phase_stopWorkers h nowt hmain
  | poll i needWait is => exact phase_poll h nowt hmain
  | notify i is =>
      rw [hmain] at hphase
      unfold mainStep
      rw [hmain]
      exact hphase
  | join is => exact phase_join h nowt hmain
  | returned =>
      rw [hmain] at hphase
      unfold mainStep
      simp only [hmain]
      exact hphase

omit h

/-- What the main thread does to the flags and the stages of the others. -/
theorem mainStep_parts (s : LogicProcess) (nowt : ℤ) :
    ((s.mainStep z nowt).io = s.io ∨ (s.mainStep z nowt).io = s.io.start z nowt ∨
        (s.mainStep z nowt).io = s.io.stop) ∧
      ((s.mainStep z nowt).workers = s.workers ∨
        (∃ i is, s.main = .startWorkers (i :: is) ∧
          (s.mainStep z nowt).workers = s.workers.modify i (Thread.start z nowt)) ∨
        ∃ i, (s.mainStep z nowt).workers = s.workers.modify i Thread.stop) ∧
      ((s.mainStep z nowt).data = s.data ∨
        ∃ i, (s.mainStep z nowt).data = s.data.modify i LogicThread.wake) := by
  unfold mainStep
  split
  · exact ⟨.inr (.inl rfl), .inl rfl, .inl rfl⟩
  · next i is hmain => exact ⟨.inl rfl, .inr (.inl ⟨i, is, hmain, rfl⟩), .inl rfl⟩
  · exact ⟨.inl rfl, .inl rfl, .inl rfl⟩
  · exact ⟨.inr (.inr rfl), .inl rfl, .inl rfl⟩
  · split_ifs <;> exact ⟨.inl rfl, .inl rfl, .inl rfl⟩
  · split_ifs <;> exact ⟨.inl rfl, .inl rfl, .inl rfl⟩
  · next i is _ => exact ⟨.inl rfl, .inr (.inr ⟨i, rfl⟩), .inl rfl⟩
  · exact ⟨.inl rfl, .inl rfl, .inl rfl⟩
  · split
    · exact ⟨.inl rfl, .inl rfl, .inl rfl⟩
    · split_ifs <;> exact ⟨.inl rfl, .inl rfl, .inl rfl⟩
  · next i is _ => exact ⟨.inl rfl, .inl rfl, .inr ⟨i, rfl⟩⟩
  · split
    · exact ⟨.inl rfl, .inl rfl, .inl rfl⟩
    · split_ifs <;> exact ⟨.inl rfl, .inl rfl, .inl rfl⟩
  · exact ⟨.inl rfl, .inl rfl, .inl rfl⟩
  · exact ⟨.inl rfl, .inl rfl, .inl rfl⟩

theorem Sane.of_moves (h : Sane s) (hmoves : Moves s s')
    (hlength : s'.data.threads.length = s.data.threads.length) : Sane s' where
  io := hmoves.io.coherent h.io
  workers := hmoves.forall (fun _ _ ha => ha.coherent) h.workers
  length := hlength.trans (h.length.trans hmoves.length.symm)
  phase := hmoves.main ▸ hmoves.phase h.phase

theorem sane_mainStep (h : Sane s) (nowt : ℤ) : Sane (s.mainStep z nowt) := by
  obtain ⟨hio, hworkers, hdata⟩ := mainStep_parts (z := z) s nowt
  refine ⟨?_, ?_, ?_, phase_mainStep h nowt⟩
  · rcases hio with hio | hio | hio <;> rw [hio]
    · exact h.io
    · exact h.io.start nowt
    · exact h.io.stop
  · rcases hworkers with hw | ⟨i, is, _, hw⟩ | ⟨i, hw⟩
    · intro i t ht
      rw [hw] at ht
      exact h.workers i t ht
    · exact workers_modify hw (fun t ht _ => (h.workers i t ht trivial).start nowt)
        fun j t ht _ _ => h.workers j t ht trivial
    · exact workers_modify hw (fun t ht _ => (h.workers i t ht trivial).stop)
        fun j t ht _ _ => h.workers j t ht trivial
  · have hthreads : (s.mainStep z nowt).data.threads.length = s.data.threads.length := by
      rcases hdata with hd | ⟨i, hd⟩ <;> rw [hd]
      exact List.length_modify ..
    have hlength : (s.mainStep z nowt).workers.length = s.workers.length := by
      rcases hworkers with hw | ⟨i, is, _, hw⟩ | ⟨i, hw⟩ <;> rw [hw]
      · exact List.length_modify ..
      · exact List.length_modify ..
    rw [hthreads, hlength, h.length]

/-- No worker is past its loop before the IO thread has ended. -/
theorem Sane.io_ended (h : Sane s) {i : ℕ} {t : Thread Unit} (ht : s.workers[i]? = some t)
    (hleaving : t.pos.Leaving) : s.io.pos = .ended := by
  have hquit := (h.workers i t ht trivial).quit hleaving
  have hnot : ¬ t.flags.quit = false := by
    rw [hquit]
    decide
  have hphase := h.phase
  cases hmain : s.main with
  | startIo =>
      rw [hmain] at hphase
      exact absurd (hphase.2.1 i t ht trivial).1 hnot
  | startWorkers is =>
      rw [hmain] at hphase
      exact absurd (hphase.2.2.1 i t ht trivial) hnot
  | running =>
      rw [hmain] at hphase
      exact absurd (hphase.2.1 i t ht trivial).1 hnot
  | pollIo =>
      rw [hmain] at hphase
      exact absurd (hphase.2.2.1 i t ht trivial).1 hnot
  | joinIo =>
      rw [hmain] at hphase
      exact absurd (hphase.2.2.1 i t ht trivial).1 hnot
  | stopWorkers is => rw [hmain] at hphase; exact hphase.1
  | poll i needWait is => rw [hmain] at hphase; exact hphase.1
  | notify i is => rw [hmain] at hphase; exact hphase.1
  | join is => rw [hmain] at hphase; exact hphase.1
  | returned => rw [hmain] at hphase; exact hphase.1

end LogicProcess

/-! ## The messages -/

namespace LogicThread

/-- Behind `unit()`: the lists are empty, what has been handled came first, and all
its answers have been handed over. -/
structure Swept (d : LogicThread) : Prop where
  stage : d.stage = .top
  empty : d.worker.msgsIn = [] ∧ d.worker.ioMsgs = [] ∧ d.worker.outMsgs = []
  handled : d.handled <+: d.dispatched
  answers : d.handedOver = d.produced

/-- In front of `handler_msgs` and in the wait there are no answers. -/
def Quiet (d : LogicThread) : Prop :=
  d.stage = .top ∨ d.stage = .blocked ∨ d.stage = .woken → d.worker.outMsgs = []

/-- What the thread has got fits to where it is. -/
structure Fits (t : Thread Unit) (d : LogicThread) : Prop where
  resting : (∀ b, t.pos ≠ .loop b) → d.stage = .top
  quiet : d.Quiet
  lossless : ¬ t.pos.Done → d.Lossless
  swept : t.pos.Done → d.Swept

variable {t t' : Thread Unit} {d d' : LogicThread} {z : ℤ}

theorem swept_unit (hstage : d.stage = .top) (hquiet : d.Quiet) (h : d.Lossless) :
    d.unit.Swept := by
  obtain ⟨hm, ha⟩ := h
  have hnot : ¬ d.stage = .replied := by
    rw [hstage]
    exact Stage.noConfusion
  rw [pending, if_neg hnot, hquiet (.inl hstage), List.append_nil] at ha
  refine ⟨hstage, ⟨rfl, rfl, rfl⟩, ?_, ha⟩
  show d.handled <+: d.dispatched
  rw [← hm, List.append_assoc, List.append_assoc]
  exact List.prefix_append ..

/-- A thread that is not in its loop is not in the wait. -/
theorem wake_of_top (hstage : d.stage = .top) : d.wake = d := by
  unfold wake
  rw [if_neg]
  rw [hstage]
  exact Stage.noConfusion

theorem Quiet.wake (h : d.Quiet) : d.wake.Quiet := by
  unfold LogicThread.wake
  split_ifs with hblocked
  · exact fun _ => h (.inr (.inl hblocked))
  · exact h

theorem Fits.wake (h : Fits t d) : Fits t d.wake where
  resting hloop := by
    rw [wake_of_top (h.resting hloop)]
    exact h.resting hloop
  quiet := h.quiet.wake
  lossless hdone := lossless_wake (h.lossless hdone)
  swept hdone := by
    rw [wake_of_top (h.swept hdone).stage]
    exact h.swept hdone

/-- The thread goes on in `thread_func()`. -/
theorem Fits.of_pos (h : Fits t d) (hloop : (∀ b, t'.pos ≠ .loop b) → d.stage = .top)
    (hdone : t'.pos.Done ↔ t.pos.Done) : Fits t' d :=
  ⟨hloop, h.quiet, fun hd => h.lossless (mt hdone.mpr hd), fun hd => h.swept (hdone.mp hd)⟩

theorem Fits.start (h : Fits t d) (hidle : t.pos = .idle) (nowt : ℤ) :
    Fits (t.start z nowt) d := by
  have htop : d.stage = .top := h.resting (by simp [hidle])
  apply h.of_pos fun _ => htop
  unfold Thread.start
  cases t.flags.start z nowt with
  | none => rfl
  | some flags => simp [hidle, Pos.Done]

/-- A step in the loop of a thread. -/
theorem Fits.loop (h : Fits t d) {b : Unit} (hloop : t.pos = .loop b) (hquiet : d'.Quiet)
    (hlossless : d.Lossless → d'.Lossless) : Fits t d' where
  resting hnot := absurd hloop (hnot b)
  quiet := hquiet
  lossless hdone := hlossless (h.lossless hdone)
  swept hdone := by
    rw [hloop] at hdone
    exact hdone.elim

/-- Only a worker with answers has something to hand over. -/
theorem Fits.turn (h : Fits t d) (dosthId : Option Int32) (nowt : ℤ) :
    Fits (d.turn z dosthId nowt t).2.1 (d.turn z dosthId nowt t).2.2 ∧
      (d.turn z dosthId nowt t).2.2.handedOver =
        d.handedOver ++ (d.turn z dosthId nowt t).1 := by
  have hsame : d.handedOver = d.handedOver ++ [] := (List.append_nil _).symm
  unfold LogicThread.turn
  split
  · next b hloop =>
    split
    · next hstage =>
      refine ⟨h.loop hloop ?_ lossless_wait, handedOver_wait.trans hsame⟩
      unfold wait
      rw [if_pos hstage]
      exact fun _ => h.quiet (.inl hstage)
    · exact ⟨h, hsame⟩
    · next hstage =>
      refine ⟨h.loop hloop ?_ lossless_swap, handedOver_swap.trans hsame⟩
      unfold swap
      rw [if_pos hstage]
      rintro (hs | hs | hs) <;> cases hs
    · next msg msgs hstage =>
      refine ⟨h.loop hloop ?_ fun hl => lossless_handle hl dosthId,
        (handedOver_handle dosthId).trans hsame⟩
      unfold handle
      rw [hstage]
      rintro (hs | hs | hs) <;> cases hs
    · next hstage =>
      refine ⟨h.loop hloop ?_ lossless_addMsgs, handedOver_addMsgs⟩
      unfold addMsgs
      rw [if_pos hstage]
      rintro (hs | hs | hs) <;> cases hs
    · next hstage =>
      have hclear : d.clear =
          { d with worker := { d.worker with outMsgs := [] }, stage := .top } := if_pos hstage
      have hnot : ¬ t.pos.Done := by
        rw [hloop]
        exact id
      refine ⟨⟨fun _ => ?_, fun _ => ?_, fun _ => lossless_clear (h.lossless hnot), fun hd => hd.elim⟩,
        handedOver_clear.trans hsame⟩
      · rw [hclear]
      · rw [hclear]
  · next hunit =>
    have hstage : d.stage = .top := h.resting (by simp [hunit])
    have hnot : ¬ t.pos.Done := by
      rw [hunit]
      exact id
    exact ⟨⟨fun _ => hstage, fun _ => rfl, fun hd => absurd trivial hd,
      fun _ => swept_unit hstage h.quiet (h.lossless hnot)⟩, hsame⟩
  all_goals
    next hpos =>
    exact ⟨h.of_pos (fun _ => h.resting (by simp [hpos])) (Thread.done_advance ..), hsame⟩

end LogicThread

namespace LogicThreads

variable {s : LogicThreads}

/-- The steps of the IO thread. -/
def Act.OfIo : Act → Prop
  | .dispatch _ | .append _ | .notify | .drain => True
  | .wait _ | .wake _ | .swap _ | .handle _ _ | .addMsgs _ | .clear _ => False

/-- The IO thread sends something to a worker, or wakes it up. -/
theorem step_io_threads {a : Act} (ha : a.OfIo) :
    (s.step a).threads = s.threads ∨ ∃ i f, (s.step a).threads = s.threads.modify i f ∧
      (f = LogicThread.notifyMsgIn ∨ f = LogicThread.wake ∨
        ∃ msg, f = fun t => LogicThread.receive t msg) := by
  cases a with
  | dispatch msg =>
      unfold step dispatch
      simp only
      split_ifs
      · exact .inl rfl
      · split
        · exact .inl rfl
        · next i _ => exact .inr ⟨i, _, rfl, .inr (.inr ⟨msg, rfl⟩)⟩
      · exact .inl rfl
  | append i =>
      unfold step append
      simp only
      split_ifs
      · split
        · exact .inl rfl
        · split_ifs
          · exact .inl rfl
          · exact .inr ⟨i, _, rfl, .inl rfl⟩
      · exact .inl rfl
  | notify =>
      unfold step
      cases s.notifying with
      | none => exact .inl rfl
      | some i => exact .inr ⟨i, _, rfl, .inr (.inl rfl)⟩
  | drain =>
      unfold step
      simp only
      split_ifs
      · exact .inl rfl
      · exact .inl rfl
  | wait | wake | swap | handle | addMsgs | clear => exact ha.elim

theorem length_step_io {a : Act} (ha : a.OfIo) :
    (s.step a).threads.length = s.threads.length := by
  rcases step_io_threads ha with h | ⟨i, f, h, -⟩ <;> rw [h]
  exact List.length_modify ..

/-- It leaves a worker where it is, but for the wake-up. -/
theorem exists_of_step_io {a : Act} (ha : a.OfIo) {i : ℕ} {d' : LogicThread}
    (hd : (s.step a).threads[i]? = some d') :
    ∃ d, s.threads[i]? = some d ∧ (d.Quiet → d'.Quiet) ∧ (d.stage = .top → d'.stage = .top) := by
  rcases step_io_threads ha with h | ⟨j, f, h, hf⟩ <;> rw [h] at hd
  · exact ⟨d', hd, id, id⟩
  · obtain ⟨d, hold, rfl⟩ := getElem?_modify_eq_some hd
    refine ⟨d, hold, ?_⟩
    split_ifs
    · rcases hf with rfl | rfl | ⟨msg, rfl⟩
      · exact ⟨id, id⟩
      · exact ⟨LogicThread.Quiet.wake, fun htop => by rw [LogicThread.wake_of_top htop]; exact htop⟩
      · exact ⟨id, id⟩
    · exact ⟨id, id⟩

/-- A step of one thread that hands nothing over. -/
theorem handedOver_modify {f : LogicThread → LogicThread}
    (hsame : ∀ d, (f d).handedOver = d.handedOver) (i : ℕ) :
    (s.modify i f).handedOver = s.handedOver := by
  funext j
  simp only [handedOver, modify, List.getElem?_modify]
  cases s.threads[j]? with
  | none => rfl
  | some d =>
      simp only [Option.map_eq_map, Option.map_some]
      split_ifs
      · exact hsame d
      · rfl

/-- A step of one thread that hands some answers over. -/
theorem handedOver_set {i : ℕ} {d d' : LogicThread} {out : List UserMsg}
    (hd : s.threads[i]? = some d) (hout : d'.handedOver = d.handedOver ++ out)
    (outMsgs : List UserMsg) :
    handedOver { s with threads := s.threads.set i d', outMsgs := outMsgs } =
      Function.update s.handedOver i (s.handedOver i ++ out) := by
  have hlt : i < s.threads.length := (List.getElem?_eq_some_iff.mp hd).1
  funext j
  rw [Function.update_apply]
  unfold handedOver
  split_ifs with hj
  · simp only [hj, List.getElem?_set_self hlt, hd, hout]
  · simp [List.getElem?_set_ne (Ne.symm hj)]

end LogicThreads

namespace LogicProcess

/-! ## All together -/

/-- The threads and what is on its way between them. -/
structure Sound (s : LogicProcess) : Prop where
  sane : Sane s
  fits : ∀ (i : ℕ) (t : Thread Unit) (d : LogicThread), s.workers[i]? = some t →
    s.data.threads[i]? = some d → LogicThread.Fits t d
  merge : IsMerge s.data.handedOver (s.data.drained ++ s.data.outMsgs)

/-- While the IO thread is in its loop, nothing is thrown away. -/
theorem Sound.data_lossless (h : Sound s) {b : IoLoop} (hloop : s.io.pos = .loop b) :
    s.data.Lossless where
  threads d hd := by
    obtain ⟨i, hi⟩ := List.mem_iff_getElem?.mp hd
    have hlt : i < s.workers.length := h.sane.length ▸ (List.getElem?_eq_some_iff.mp hi).1
    have ht : s.workers[i]? = some s.workers[i] := List.getElem?_eq_getElem hlt
    refine (h.fits i _ d ht hi).lossless fun hdone => ?_
    have hended := h.sane.io_ended ht hdone.leaving
    rw [hloop] at hended
    cases hended
  merge := h.merge

theorem ioStep_data (s : LogicProcess) (msgs : List UserMsg) (nowt : ℤ) :
    (s.ioStep z msgs nowt).workers = s.workers ∧
      ((s.ioStep z msgs nowt).data = s.data ∨ ∃ b a, s.io.pos = .loop b ∧
        LogicThreads.Act.OfIo a ∧ (s.ioStep z msgs nowt).data = s.data.step a) := by
  unfold ioStep
  split
  · next h => exact ⟨rfl, .inr ⟨_, .dispatch _, h, trivial, rfl⟩⟩
  · exact ⟨rfl, .inl rfl⟩
  · next h => exact ⟨rfl, .inr ⟨_, .append _, h, trivial, rfl⟩⟩
  · exact ⟨rfl, .inl rfl⟩
  · next h => exact ⟨rfl, .inr ⟨_, .notify, h, trivial, rfl⟩⟩
  · next h => exact ⟨rfl, .inr ⟨_, .drain, h, trivial, rfl⟩⟩
  all_goals exact ⟨rfl, .inl rfl⟩

theorem sound_ioStep (h : Sound s) (msgs : List UserMsg) (nowt : ℤ) :
    Sound (s.ioStep z msgs nowt) := by
  obtain ⟨hworkers, hdata⟩ := ioStep_data (z := z) s msgs nowt
  rcases hdata with hsame | ⟨b, a, hloop, ha, hstep⟩
  · refine ⟨h.sane.of_moves (moves_ioStep msgs nowt) (by rw [hsame]), ?_, hsame ▸ h.merge⟩
    rw [hworkers, hsame]
    exact h.fits
  · have hlossless := LogicThreads.lossless_step (h.data_lossless hloop) a
    refine ⟨h.sane.of_moves (moves_ioStep msgs nowt) ?_, ?_, ?_⟩
    · rw [hstep]
      exact LogicThreads.length_step_io ha
    · rw [hworkers, hstep]
      intro i t d' ht hd'
      obtain ⟨d, hd, hquiet, htop⟩ := LogicThreads.exists_of_step_io ha hd'
      have hfits := h.fits i t d ht hd
      refine ⟨fun hl => htop (hfits.resting hl), hquiet hfits.quiet,
        fun _ => hlossless.threads d' (List.mem_of_getElem? hd'), fun hdone => ?_⟩
      -- the IO thread has not ended
      have hended := h.sane.io_ended ht hdone.leaving
      rw [hloop] at hended
      cases hended
    · rw [hstep]
      exact hlossless.merge

theorem sound_workerStep (h : Sound s) (i : ℕ) (dosthId : Option Int32) (nowt : ℤ) :
    Sound (s.workerStep z i dosthId nowt) := by
  have hmoves := moves_workerStep (s := s) (z := z) i dosthId nowt
  rcases workerStep_cases (z := z) s i dosthId nowt with hsame | ⟨t, d, ht, hd⟩
  · rw [hsame]
    exact h
  · have hlt := (List.getElem?_eq_some_iff.mp hd).1
    obtain ⟨hfits, hout⟩ := (h.fits i t d ht hd).turn (z := z) dosthId nowt
    rw [workerStep_eq ht hd] at hmoves ⊢
    refine ⟨h.sane.of_moves hmoves List.length_set, ?_, ?_⟩
    · intro j t' d' ht' hd'
      simp only [List.getElem?_set] at ht' hd'
      split_ifs at ht' hd' with hj hlt
      · obtain rfl := Option.some.inj ht'
        obtain rfl := Option.some.inj hd'
        exact hfits
      · exact h.fits j t' d' ht' hd'
    · show IsMerge (LogicThreads.handedOver { s.data with
        threads := s.data.threads.set i (d.turn z dosthId nowt t).2.2
        outMsgs := s.data.outMsgs ++ (d.turn z dosthId nowt t).1 })
          (s.data.drained ++ (s.data.outMsgs ++ (d.turn z dosthId nowt t).1))
      rw [LogicThreads.handedOver_set hd hout, ← List.append_assoc]
      exact h.merge.append i _

/-- A worker is woken up. -/
theorem fits_wake (h : Sound s) (i : ℕ) {j : ℕ} {t : Thread Unit} {d' : LogicThread}
    (ht : s.workers[j]? = some t) (hd : (s.data.modify i LogicThread.wake).threads[j]? = some d') :
    LogicThread.Fits t d' := by
  obtain ⟨d, hold, rfl⟩ := getElem?_modify_eq_some hd
  split_ifs
  · exact (h.fits j t d ht hold).wake
  · exact h.fits j t d ht hold

theorem merge_wake (h : Sound s) (i : ℕ) :
    IsMerge (s.data.modify i LogicThread.wake).handedOver (s.data.drained ++ s.data.outMsgs) := by
  rw [LogicThreads.handedOver_modify fun d => LogicThread.handedOver_wake]
  exact h.merge

theorem sound_wake (h : Sound s) (i : ℕ) :
    Sound { s with data := s.data.modify i LogicThread.wake } where
  sane := h.sane.of_moves (moves_io (.refl _) rfl rfl rfl) (List.length_modify ..)
  fits _ _ _ ht hd := fits_wake h i ht hd
  merge := merge_wake h i

theorem sound_mainStep (h : Sound s) (nowt : ℤ) : Sound (s.mainStep z nowt) := by
  obtain ⟨-, hworkers, hdata⟩ := mainStep_parts (z := z) s nowt
  -- first the data, with the workers as they were
  have hfits : ∀ (i : ℕ) (t : Thread Unit) (d : LogicThread), s.workers[i]? = some t →
      (s.mainStep z nowt).data.threads[i]? = some d → LogicThread.Fits t d := by
    intro j t d ht hd
    rcases hdata with hsame | ⟨i, hwake⟩
    · exact h.fits j t d ht (hsame ▸ hd)
    · exact fits_wake h i ht (hwake ▸ hd)
  refine ⟨sane_mainStep h.sane nowt, ?_, ?_⟩
  · intro j t d ht hd
    rcases hworkers with hw | ⟨i, is, hmain, hw⟩ | ⟨i, hw⟩ <;> rw [hw] at ht
    · exact hfits j t d ht hd
    · obtain ⟨u, hu, rfl⟩ := getElem?_modify_eq_some ht
      split_ifs with hij
      · -- the worker has not been started before
        have hphase := h.sane.phase
        rw [hmain] at hphase
        exact (hfits j u d hu hd).start (hphase.2.2.2.1 j u hu (hij ▸ List.mem_cons_self)) nowt
      · exact hfits j u d hu hd
    · obtain ⟨u, hu, rfl⟩ := getElem?_modify_eq_some ht
      split_ifs with hij
      · have hfit := hfits j u d hu hd
        exact hfit.of_pos hfit.resting Iff.rfl
      · exact hfits j u d hu hd
  · rcases hdata with hsame | ⟨i, hwake⟩
    · rw [hsame]
      exact h.merge
    · rw [hwake]
      exact merge_wake h i

theorem sound_step (h : Sound s) (a : Act) : Sound (s.step z a) := by
  cases a with
  | main nowt => exact sound_mainStep h nowt
  | io msgs nowt => exact sound_ioStep h msgs nowt
  | worker i dosthId nowt => exact sound_workerStep h i dosthId nowt
  | wake i => exact sound_wake h i

theorem sound_init (names : List (List UInt8)) : Sound (init names) where
  sane := by
    have hnew : ∀ (i : ℕ) (t : Thread Unit), (init names).workers[i]? = some t → t = .new := by
      intro i t ht
      obtain ⟨name, _, rfl⟩ := List.mem_map.mp (List.mem_of_getElem? ht)
      rfl
    refine ⟨Thread.coherent_new, ?_, ?_, rfl, ?_, rfl⟩
    · intro i t ht _
      rw [hnew i t ht]
      exact Thread.coherent_new
    · simp [init, LogicThreads.init]
    · intro i t ht _
      rw [hnew i t ht]
      exact ⟨rfl, rfl⟩
  fits i t d ht hd := by
    obtain ⟨name, _, rfl⟩ := List.mem_map.mp (List.mem_of_getElem? ht)
    obtain ⟨name, _, rfl⟩ := List.mem_map.mp (List.mem_of_getElem? hd)
    exact ⟨fun _ => rfl, fun _ => rfl, fun _ => LogicThread.lossless_new name, fun hdone => hdone.elim⟩
  merge := (LogicThreads.lossless_init names).merge

/-- The number of workers stays the same. -/
theorem length_workers (names : List (List UInt8)) (acts : List Act) :
    (run (step z) (init names) acts).workers.length = names.length := by
  refine run_invariant (I := fun s : LogicProcess => s.workers.length = names.length) ?_
    (List.length_map ..) acts
  intro s a hs
  cases a with
  | main nowt =>
      obtain ⟨-, hw | ⟨i, is, -, hw⟩ | ⟨i, hw⟩, -⟩ := mainStep_parts (z := z) s nowt
      · exact (congrArg List.length hw).trans hs
      · exact (congrArg List.length hw).trans ((List.length_modify ..).trans hs)
      · exact (congrArg List.length hw).trans ((List.length_modify ..).trans hs)
  | io msgs nowt => exact (moves_ioStep msgs nowt).length.trans hs
  | worker i dosthId nowt => exact (moves_workerStep i dosthId nowt).length.trans hs
  | wake i => exact hs

/-- **What holds when `stop()` returns.** In every interleaving, for any number of
workers: no worker is past its loop, and so throws its lists away, before the IO
thread has ended. When `stop()` returns, all threads have ended and been joined once
each, the IO thread first; each worker has handled the first of the messages
dispatched to it and handed over all their answers, and the answers that were sent,
with those left in `_out_msgs`, are a merge of them. -/
theorem stop_returned (z : ℤ) (names : List (List UInt8)) (acts : List Act) :
    let s := run (step z) (init names) acts
    (∀ t ∈ s.workers, t.pos.Leaving → s.io.pos = .ended) ∧
      (s.main = .returned →
        s.io.pos = .ended ∧ (∀ t ∈ s.workers, t.pos = .ended) ∧
        s.joined = none :: (List.range names.length).map some ∧
        (∀ d ∈ s.data.threads, LogicThread.Swept d) ∧
        IsMerge s.data.handedOver (s.data.drained ++ s.data.outMsgs)) := by
  intro s
  have h : Sound s :=
    run_invariant (I := Sound) (fun _ a h => sound_step h a) (sound_init names) acts
  constructor
  · intro t ht
    obtain ⟨i, hi⟩ := List.mem_iff_getElem?.mp ht
    exact h.sane.io_ended hi
  · intro hmain
    have hphase := h.sane.phase
    rw [hmain] at hphase
    obtain ⟨hio, hworkers, hjoined⟩ := hphase
    refine ⟨hio, ?_, ?_, ?_, h.merge⟩
    · intro t ht
      obtain ⟨i, hi⟩ := List.mem_iff_getElem?.mp ht
      exact hworkers i t hi trivial
    · rw [hjoined, indices, length_workers]
    · intro d hd
      obtain ⟨i, hi⟩ := List.mem_iff_getElem?.mp hd
      have hlt : i < s.workers.length := h.sane.length ▸ (List.getElem?_eq_some_iff.mp hi).1
      have ht : s.workers[i]? = some s.workers[i] := List.getElem?_eq_getElem hlt
      apply (h.fits i _ d ht hi).swept
      rw [hworkers i _ ht trivial]
      trivial

/-- A worker gets a message, and then the process is stopped. -/
def oneMessage : List Act :=
  List.replicate 3 (.main 0) ++ List.replicate 2 (.worker 0 none 0) ++
  List.replicate 7 (.io [{ uid := 1, msgId := 9, msg := .new .doSthReq }] 0) ++
  List.replicate 4 (.worker 0 none 0) ++
  .main 0 :: List.replicate 6 (.io [] 0) ++ List.replicate 3 (.main 0) ++
  .worker 0 none 0 :: List.replicate 2 (.main 0) ++ List.replicate 3 (.worker 0 none 0) ++
  List.replicate 2 (.main 0) ++ .worker 0 none 0 :: List.replicate 2 (.main 0)

theorem stop_returned_oneMessage :
    let s := run (step 0) (init [[]]) oneMessage
    s.io.pos = .ended ∧ (∀ t ∈ s.workers, t.pos = .ended) ∧ s.joined = [none, some 0] ∧
      (∀ d ∈ s.data.threads, LogicThread.Swept d) ∧
      IsMerge s.data.handedOver (s.data.drained ++ s.data.outMsgs) :=
  (stop_returned 0 [[]] oneMessage).2 (by decide +kernel)

end LogicProcess

end Rubo.Server
