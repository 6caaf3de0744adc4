import Mathlib.Data.Prod.Lex
import Rubo.Foundation.Fairness
import Rubo.Server.LogicProcess

/-!
# Whether Logic Stops

`Logic::stop()` waits for the IO thread and for one worker after the other. A worker
may be in its wait when `_quit` is set, and a `just_notify()` may fall outside of
the wait and be lost; the loop notifies until the worker is over. With one worker
`stop()` therefore returns, whatever the schedule, as long as it is fair.

The loop ends early when a worker was over before it had to be waited for. The
workers behind it are then never stopped, and still joined. `stop_returns_iff` says
that `stop()` returns in every fair run exactly when there is at most one worker,
as in the process that `Logic::init()` sets up.
-/

namespace Rubo.Server

open Rubo.Foundation Rubo.Msgs Rubo.Util

/-! ## What is left to do -/

/-- The steps left in `thread_loop()` of the IO thread, with `n` workers. -/
def IoLoop.left (n : ℕ) : IoLoop → ℕ
  | .dealing msgs => 2 + 2 * n + msgs.length
  | .telling is => 1 + 2 * is.length
  | .notifying is => 2 + 2 * is.length
  | .draining => 0

/-- The steps left in `thread_loop()` of a worker. -/
def LogicThread.left (d : LogicThread) : ℕ :=
  match d.stage with
  | .top => 4 + d.worker.msgsIn.length
  | .blocked => 3 + d.worker.msgsIn.length
  | .woken => 2 + d.worker.msgsIn.length
  | .handling msgs => 1 + msgs.length
  | .replied => 0

/-- How often the main thread has still to move on, with `n` workers. -/
def MainPc.left (n : ℕ) : MainPc → ℕ
  | .startIo => 4 * n + 7
  | .startWorkers is => 3 * n + 6 + is.length
  | .running => 3 * n + 5
  | .pollIo => 3 * n + 4
  | .joinIo => 3 * n + 3
  | .stopWorkers is => n + 2 + 2 * is.length
  | .poll _ _ is | .notify _ is => n + 3 + 2 * is.length
  | .join is => 1 + is.length
  | .returned => 0

/-- The main thread is at a place where it waits for nobody. -/
def MainPc.Free : MainPc → Prop
  | .startIo | .startWorkers _ | .running | .stopWorkers _ | .join [] | .returned => True
  | .pollIo | .joinIo | .poll _ _ _ | .notify _ _ | .join (_ :: _) => False

/-- The main thread is at the worker. -/
def MainPc.At (i : ℕ) : MainPc → Prop
  | .poll j _ _ | .notify j _ | .join (j :: _) => j = i
  | .startIo | .startWorkers _ | .running | .pollIo | .joinIo | .stopWorkers _ | .join []
  | .returned => False

namespace LogicThread

variable {t : Thread Unit} {d : LogicThread} {z : ℤ}

theorem left_wake (d : LogicThread) :
    d.stage = .blocked ∧ d.wake.left < d.left ∨ d.stage ≠ .blocked ∧ d.wake = d := by
  unfold wake
  split_ifs with hblocked
  · exact .inl ⟨hblocked, by simp [left, hblocked]⟩
  · exact .inr ⟨hblocked, rfl⟩

/-- A worker that has to stop comes nearer to its end with every step, unless it is
there or in the wait. -/
theorem left_turn (hquit : t.flags.quit = true) (hidle : t.pos ≠ .idle) (dosthId : Option Int32)
    (nowt : ℤ) :
    (d.turn z dosthId nowt t).2.1.pos.left (fun _ => (d.turn z dosthId nowt t).2.2.left) <
        t.pos.left (fun _ => d.left) ∨
      (t.pos = .ended ∨ d.stage = .blocked) ∧ (d.turn z dosthId nowt t).2 = (t, d) := by
  have hadvance := fun hpos => Thread.left_advance (z := z) (t := t) (fun _ => d.left) () nowt
    hquit hpos
  unfold turn
  split
  · next b hloop =>
    split
    · next hstage =>
      left
      simp [hloop, Pos.left, wait, hstage, left]
    · next hstage => exact .inr ⟨.inr hstage, rfl⟩
    · next hstage =>
      left
      simp [hloop, Pos.left, swap, hstage, left]
    · next msg msgs hstage =>
      left
      simp [hloop, Pos.left, handle, hstage, left]
    · next hstage =>
      left
      simp [hloop, Pos.left, addMsgs, hstage, left]
    · next hstage =>
      left
      simp [hloop, Pos.left, Thread.goto]
      omega
  · next hunit =>
    left
    simp [hunit, Pos.left, Thread.goto]
  · next h => exact absurd h hidle
  · next h => exact .inl (hadvance (.inl h))
  · next h => exact .inl (hadvance (.inr (.inl h)))
  · next h => exact .inl (hadvance (.inr (.inr (.inl h))))
  · next h => exact .inl (hadvance (.inr (.inr (.inr h))))
  · next h => exact .inr ⟨.inl h, by simp [Thread.advance, h]⟩

end LogicThread

namespace LogicProcess

variable {z : ℤ} {s s' : LogicProcess}

/-- The same for the IO thread, which never waits. -/
theorem left_ioStep (hquit : s.io.flags.quit = true) (hidle : s.io.pos ≠ .idle)
    (msgs : List UserMsg) (nowt : ℤ) :
    (s.ioStep z msgs nowt).io.pos.left (IoLoop.left s.workers.length) <
        s.io.pos.left (IoLoop.left s.workers.length) ∨
      s.io.pos = .ended ∧ s.ioStep z msgs nowt = s := by
  have hadvance := fun hpos => Thread.left_advance (z := z) (t := s.io)
    (IoLoop.left s.workers.length) (.dealing msgs) nowt hquit hpos
  unfold ioStep
  split
  · next h => left; simp [h, Pos.left, Thread.goto, IoLoop.left]
  · next h =>
    left
    simp [h, Pos.left, Thread.goto, IoLoop.left, indices]
  · next h =>
    left
    simp only [h, Pos.left, Thread.goto]
    split_ifs
    · simp [IoLoop.left]
    · simp [IoLoop.left]
      omega
  · next h => left; simp [h, Pos.left, Thread.goto, IoLoop.left]
  · next h => left; simp [h, Pos.left, Thread.goto, IoLoop.left]
  · next h => left; simp [h, Pos.left, Thread.goto, IoLoop.left]
  · next h => left; simp [h, Pos.left, Thread.goto]
  · next h => exact absurd h hidle
  · next h => exact .inl (hadvance (.inl h))
  · next h => exact .inl (hadvance (.inr (.inl h)))
  · next h => exact .inl (hadvance (.inr (.inr (.inl h))))
  · next h => exact .inl (hadvance (.inr (.inr (.inr h))))
  · next h =>
    refine .inr ⟨h, ?_⟩
    have hsame : s.io.advance z (.dealing msgs) nowt = s.io := by simp [Thread.advance, h]
    rw [hsame]

/-! ## The thread the main thread waits for -/

/-- The threads a schedule has to be fair to, when there are `n` workers. -/
inductive Party (n : ℕ) where
  | main
  | io
  | worker (i : Fin n)
  deriving DecidableEq

instance (n : ℕ) : Countable (Party n) := by
  have hinj : Function.Injective fun p : Party n => match p with
      | .main => 0
      | .io => 1
      | .worker i => i.val + 2 := by
    intro p q hpq
    cases p <;> cases q <;> simp_all [Fin.ext_iff]
  exact hinj.countable

instance (n : ℕ) : Nonempty (Party n) := ⟨.main⟩

def Act.party (n : ℕ) : Act → Option (Party n)
  | .main _ => some .main
  | .io _ _ => some .io
  | .worker i _ _ => if h : i < n then some (.worker ⟨i, h⟩) else none
  | .wake _ => none

theorem Act.party_eq_main {n : ℕ} {a : Act} : a.party n = some .main ↔ ∃ nowt, a = .main nowt := by
  cases a with
  | main nowt => exact iff_of_true rfl ⟨nowt, rfl⟩
  | io => simp [party]
  | worker i => by_cases h : i < n <;> simp [party, h]
  | wake => simp [party]

def isOver (s : LogicProcess) (i : ℕ) : Bool := s.workers[i]?.any fun t => t.flags.isOver

def hasEnded (s : LogicProcess) (i : ℕ) : Bool := s.workers[i]?.any fun t => t.pos = .ended

/-- The worker is in the wait of `handler_msgs`. -/
def isBlocked (s : LogicProcess) (i : ℕ) : Bool :=
  s.data.threads[i]?.any fun d => d.stage = .blocked

/-- The worker, unless it is the turn of the main thread. -/
def workerOr (n i : ℕ) (main : Bool) : Party n :=
  if main then .main else if h : i < n then .worker ⟨i, h⟩ else .main

/-- Whose step brings the end of `stop()` nearer. -/
def helpful (n : ℕ) (s : LogicProcess) : Party n :=
  match s.main with
  | .pollIo => if s.io.flags.isOver then .main else .io
  | .joinIo => if s.io.pos = .ended then .main else .io
  | .poll i _ _ | .notify i _ => workerOr n i (s.isOver i || s.isBlocked i)
  | .join (i :: _) => workerOr n i (s.hasEnded i)
  | .startIo | .startWorkers _ | .running | .stopWorkers _ | .join [] | .returned => .main

def workerLeft (s : LogicProcess) (i : ℕ) : ℕ :=
  match s.workers[i]?, s.data.threads[i]? with
  | some t, some d => t.pos.left fun _ => d.left
  | _, _ => 0

/-- The steps left to the thread the main thread waits for. -/
def waitedLeft (s : LogicProcess) : ℕ :=
  match s.main with
  | .pollIo | .joinIo => s.io.pos.left (IoLoop.left s.workers.length)
  | .poll i _ _ | .notify i _ | .join (i :: _) => s.workerLeft i
  | .startIo | .startWorkers _ | .running | .stopWorkers _ | .join [] | .returned => 0

/-- A step of the main thread that lies before one that counts: polling a worker in
the wait, and notifying one that is over. -/
def detour (s : LogicProcess) : ℕ :=
  match s.main with
  | .poll i _ _ => if s.isBlocked i then 1 else 0
  | .notify i _ => if s.isOver i then 1 else 0
  | .startIo | .startWorkers _ | .running | .pollIo | .joinIo | .stopWorkers _ | .join _
  | .returned => 0

def distance (s : LogicProcess) : ℕ × ℕ × ℕ :=
  (s.main.left s.workers.length, s.waitedLeft, s.detour)

def Nearer : ℕ × ℕ × ℕ → ℕ × ℕ × ℕ → Prop := Prod.Lex (· < ·) (Prod.Lex (· < ·) (· < ·))

theorem wellFounded_nearer : WellFounded Nearer :=
  (Nat.lt_wfRel.wf).prod_lex ((Nat.lt_wfRel.wf).prod_lex Nat.lt_wfRel.wf)

/-- The step brings the end nearer, or leaves everything to the helpful party. -/
def Helps (z : ℤ) (n : ℕ) (s : LogicProcess) (a : Act) : Prop :=
  Nearer (s.step z a).distance s.distance ∨
    a.party n ≠ some (s.helpful n) ∧ (s.step z a).distance = s.distance ∧
      (s.step z a).helpful n = s.helpful n

/-! ### Ways to help -/

theorem nearer_of_main (hlength : s'.workers.length = s.workers.length)
    (h : s'.main.left s.workers.length < s.main.left s.workers.length) :
    Nearer s'.distance s.distance :=
  .left _ _ (hlength ▸ h)

theorem nearer_of_waited (hlength : s'.workers.length = s.workers.length)
    (hmain : s'.main.left s.workers.length = s.main.left s.workers.length)
    (h : s'.waitedLeft < s.waitedLeft) : Nearer s'.distance s.distance := by
  unfold distance
  rw [hlength, hmain]
  exact .right _ (.left _ _ h)

theorem nearer_of_detour (hlength : s'.workers.length = s.workers.length)
    (hmain : s'.main.left s.workers.length = s.main.left s.workers.length)
    (hwaited : s'.waitedLeft = s.waitedLeft) (h : s'.detour < s.detour) :
    Nearer s'.distance s.distance := by
  unfold distance
  rw [hlength, hmain, hwaited]
  exact .right _ (.right _ h)

/-! ### Steps of the others -/

variable {n : ℕ}

/-- The steps that are not the main thread's. -/
theorem moves_step {a : Act} (ha : a.party n ≠ some .main) : Moves s (s.step z a) := by
  cases a with
  | main nowt => exact absurd rfl ha
  | io msgs nowt => exact moves_ioStep msgs nowt
  | worker i dosthId nowt => exact moves_workerStep i dosthId nowt
  | wake i => exact moves_io (.refl _) rfl rfl rfl

/-- A main thread that waits for nobody is not helped by others. -/
theorem helps_of_free (hfree : s.main.Free) {a : Act} (ha : a.party n ≠ some .main) :
    Helps z n s a := by
  have hmoves := moves_step (s := s) (z := z) ha
  have hparts : ∀ s : LogicProcess, s.main.Free →
      s.waitedLeft = 0 ∧ s.detour = 0 ∧ s.helpful n = .main := by
    intro s hs
    unfold waitedLeft detour helpful
    cases hmain : s.main with
    | join is =>
        rw [hmain] at hs
        cases is with
        | nil => exact ⟨rfl, rfl, rfl⟩
        | cons i is => exact hs.elim
    | pollIo | joinIo | poll | notify => rw [hmain] at hs; exact hs.elim
    | startIo | startWorkers | running | stopWorkers | returned => exact ⟨rfl, rfl, rfl⟩
  obtain ⟨hw, hd, hh⟩ := hparts s hfree
  obtain ⟨hw', hd', hh'⟩ := hparts (s.step z a) (by rw [hmoves.main]; exact hfree)
  refine .inr ⟨hh ▸ ha, ?_, hh'.trans hh.symm⟩
  unfold distance
  rw [hmoves.main, hmoves.length, hw, hw', hd, hd']

/-- What the main thread sees of the worker it is at. -/
theorem view_eq {i : ℕ} (hat : s.main.At i) (hmain : s'.main = s.main)
    (hlength : s'.workers.length = s.workers.length) (ht : s'.workers[i]? = s.workers[i]?)
    (hd : s'.data.threads[i]? = s.data.threads[i]?) :
    s'.distance = s.distance ∧ s'.helpful n = s.helpful n := by
  have hover : s'.isOver i = s.isOver i := by rw [isOver, isOver, ht]
  have hended : s'.hasEnded i = s.hasEnded i := by rw [hasEnded, hasEnded, ht]
  have hblocked : s'.isBlocked i = s.isBlocked i := by rw [isBlocked, isBlocked, hd]
  have hleft : s'.workerLeft i = s.workerLeft i := by rw [workerLeft, workerLeft, ht, hd]
  unfold distance waitedLeft detour helpful
  rw [hlength, hmain]
  cases hpc : s.main with
  | poll j needWait is =>
      rw [hpc] at hat
      obtain rfl := hat
      simp only [hover, hblocked, hleft, and_self]
  | notify j is =>
      rw [hpc] at hat
      obtain rfl := hat
      simp only [hover, hblocked, hleft, and_self]
  | join is =>
      rw [hpc] at hat
      cases is with
      | nil => exact hat.elim
      | cons j is =>
          obtain rfl := hat
          simp only [hended, hleft, and_self]
  | startIo | startWorkers | running | pollIo | joinIo | stopWorkers | returned =>
      rw [hpc] at hat
      exact hat.elim

theorem waitedLeft_of_at {i : ℕ} (hat : s.main.At i) : s.waitedLeft = s.workerLeft i := by
  unfold waitedLeft
  cases hpc : s.main with
  | poll | notify => rw [hpc] at hat; obtain rfl := hat; rfl
  | join is =>
      rw [hpc] at hat
      cases is with
      | nil => exact hat.elim
      | cons j is => obtain rfl := hat; rfl
  | startIo | startWorkers | running | pollIo | joinIo | stopWorkers | returned =>
      rw [hpc] at hat
      exact hat.elim

/-- The worker that is waited for makes a step. -/
theorem helps_worker {i : ℕ} (hat : s.main.At i) {t : Thread Unit} {d : LogicThread}
    (ht : s.workers[i]? = some t) (hd : s.data.threads[i]? = some d)
    (hquit : t.flags.quit = true) (hidle : t.pos ≠ .idle)
    (hready : t.pos = .ended ∨ d.stage = .blocked → s.helpful n = .main) (dosthId : Option Int32)
    (nowt : ℤ) : Helps z n s (.worker i dosthId nowt) := by
  have hmoves := moves_workerStep (s := s) (z := z) i dosthId nowt
  have hltw := (List.getElem?_eq_some_iff.mp ht).1
  have hltd := (List.getElem?_eq_some_iff.mp hd).1
  have ht' : (s.workerStep z i dosthId nowt).workers[i]? =
      some (d.turn z dosthId nowt t).2.1 := by
    rw [workerStep_eq ht hd]
    exact List.getElem?_set_self hltw
  have hd' : (s.workerStep z i dosthId nowt).data.threads[i]? =
      some (d.turn z dosthId nowt t).2.2 := by
    rw [workerStep_eq ht hd]
    exact List.getElem?_set_self hltd
  have hstep : s.step z (.worker i dosthId nowt) = s.workerStep z i dosthId nowt := rfl
  unfold Helps
  rw [hstep]
  rcases LogicThread.left_turn (d := d) (z := z) hquit hidle dosthId nowt with
    hless | ⟨hstuck, hsame⟩
  · refine .inl (nearer_of_waited hmoves.length (by rw [hmoves.main]) ?_)
    rw [waitedLeft_of_at hat, waitedLeft_of_at (hmoves.main.symm ▸ hat), workerLeft, workerLeft,
      ht', hd', ht, hd]
    exact hless
  · obtain ⟨hdist, hhelp⟩ := view_eq (n := n) hat hmoves.main hmoves.length
      (ht'.trans (by rw [hsame, ht])) (hd'.trans (by rw [hsame, hd]))
    refine .inr ⟨?_, hdist, hhelp⟩
    rw [hready hstuck, Act.party]
    split_ifs <;> simp

/-- Whoever else makes a step, the worker stays as it is or is woken up. -/
theorem helps_others {i : ℕ} (hat : s.main.At i) {t : Thread Unit} {d : LogicThread}
    (ht : s.workers[i]? = some t) (hd : s.data.threads[i]? = some d) (hio : s.io.pos = .ended)
    (hloop : d.stage = .blocked → ∃ b, t.pos = .loop b) (hlt : i < n)
    (hparty : s.helpful n = .main ∨ s.helpful n = .worker ⟨i, hlt⟩) {a : Act}
    (ha : a.party n ≠ some .main) (hother : ∀ dosthId nowt, a ≠ .worker i dosthId nowt) :
    Helps z n s a := by
  have hmoves := moves_step (s := s) (z := z) ha
  cases a with
  | main nowt => exact absurd rfl ha
  | io msgs nowt =>
      have hsame : s.step z (.io msgs nowt) = s := by
        show s.ioStep z msgs nowt = s
        unfold ioStep
        rw [hio]
        simp only [Thread.advance, hio]
      refine .inr ⟨?_, by rw [hsame], by rw [hsame]⟩
      rcases hparty with hp | hp <;> rw [hp] <;> simp [Act.party]
  | worker j dosthId nowt =>
      have hne : i ≠ j := fun heq => hother dosthId nowt (by rw [heq])
      have hview : (s.workerStep z j dosthId nowt).workers[i]? = s.workers[i]? ∧
          (s.workerStep z j dosthId nowt).data.threads[i]? = s.data.threads[i]? := by
        rcases workerStep_cases (z := z) s j dosthId nowt with hsame | ⟨u, e, hu, he⟩
        · rw [hsame]
          exact ⟨rfl, rfl⟩
        · rw [workerStep_eq hu he]
          exact ⟨List.getElem?_set_ne hne.symm, List.getElem?_set_ne hne.symm⟩
      obtain ⟨hdist, hhelp⟩ := view_eq (n := n) hat hmoves.main hmoves.length hview.1 hview.2
      refine .inr ⟨?_, hdist, hhelp⟩
      rw [Act.party]
      rcases hparty with hp | hp <;> rw [hp] <;> split_ifs <;> simp [hne.symm]
  | wake j =>
      have hthread : ((s.data.modify j LogicThread.wake).threads)[i]? =
          some (if j = i then d.wake else d) := by
        rw [LogicThreads.modify, List.getElem?_modify, hd]
        split_ifs <;> rfl
      have hnone : Act.party n (.wake j) ≠ some (s.helpful n) := (Option.some_ne_none _).symm
      by_cases hji : j = i
      · rw [if_pos hji] at hthread
        rcases LogicThread.left_wake d with ⟨hblocked, hless⟩ | ⟨-, hsame⟩
        · obtain ⟨b, hpos⟩ := hloop hblocked
          refine .inl (nearer_of_waited hmoves.length (by rw [hmoves.main]) ?_)
          rw [waitedLeft_of_at hat, waitedLeft_of_at (hmoves.main.symm ▸ hat)]
          show (match s.workers[i]?, ((s.data.modify j LogicThread.wake).threads)[i]? with
            | some t, some d => t.pos.left fun _ => d.left
            | _, _ => 0) < s.workerLeft i
          simp only [workerLeft, hthread, ht, hd, hpos]
          exact Nat.add_lt_add_left hless 6
        · obtain ⟨hdist, hhelp⟩ := view_eq (n := n) hat hmoves.main hmoves.length rfl
            (hthread.trans (by rw [hsame, hd]))
          exact .inr ⟨hnone, hdist, hhelp⟩
      · rw [if_neg hji] at hthread
        obtain ⟨hdist, hhelp⟩ := view_eq (n := n) hat hmoves.main hmoves.length rfl
          (hthread.trans hd.symm)
        exact .inr ⟨hnone, hdist, hhelp⟩

/-! ### All steps -/

/-- While the IO thread is waited for, its steps help. -/
theorem helps_io (h : Sound s) (hmain : s.main = .pollIo ∨ s.main = .joinIo) (a : Act) :
    Helps z n s a := by
  have hphase := h.sane.phase
  have hwaited : ∀ s' : LogicProcess, s'.main = s.main →
      s'.waitedLeft = s'.io.pos.left (IoLoop.left s'.workers.length) ∧ s'.detour = 0 := by
    intro s' hsame
    unfold waitedLeft detour
    rw [hsame]
    rcases hmain with hmain | hmain <;> rw [hmain] <;> exact ⟨rfl, rfl⟩
  -- both places ask for a thread that has been told to stop
  have hquit : s.io.flags.quit = true ∧ s.io.pos ≠ .idle := by
    rcases hmain with hmain | hmain <;> rw [hmain] at hphase
    · exact ⟨hphase.1, hphase.2.1⟩
    · obtain ⟨hover, hidle, -⟩ := hphase
      refine ⟨h.sane.io.quit ?_, hidle⟩
      rcases (h.sane.io.isOver_iff hidle).mp hover with hpos | hpos <;> rw [hpos] <;> trivial
  have hended : s.io.pos = .ended → s.helpful n = .main := by
    intro hpos
    have hover := (h.sane.io.isOver_iff hquit.2).mpr (.inr hpos)
    unfold helpful
    rcases hmain with hmain | hmain <;> rw [hmain]
    · exact if_pos hover
    · exact if_pos hpos
  have hsame : ∀ s' : LogicProcess, s'.main = s.main → s'.io = s.io →
      s'.workers.length = s.workers.length →
      s'.distance = s.distance ∧ s'.helpful n = s.helpful n := by
    intro s' hm hi hl
    have hhelp : s'.helpful n = s.helpful n := by
      unfold helpful
      rw [hm, hi]
      rcases hmain with hmain | hmain <;> rw [hmain]
    refine ⟨?_, hhelp⟩
    unfold distance
    rw [(hwaited s' hm).1, (hwaited s rfl).1, (hwaited s' hm).2, (hwaited s rfl).2, hm, hi, hl]
  cases a with
  | main nowt =>
      rcases hmain with hmain | hmain
      · by_cases hover : s.io.flags.isOver = true
        · have hstep : s.step z (.main nowt) = { s with main := .joinIo } := by
            show s.mainStep z nowt = _
            unfold mainStep
            rw [hmain]
            exact if_pos hover
          refine .inl (nearer_of_main ?_ ?_) <;> rw [hstep]
          rw [hmain]
          exact Nat.lt_succ_self _
        · have hstep : s.step z (.main nowt) = s := by
            show s.mainStep z nowt = _
            unfold mainStep
            rw [hmain]
            exact if_neg hover
          refine .inr ⟨?_, by rw [hstep], by rw [hstep]⟩
          unfold helpful
          rw [hmain]
          simp [hover, Act.party]
      · by_cases hpos : s.io.pos = .ended
        · have hstep : s.step z (.main nowt) =
              { s with main := .stopWorkers s.indices, joined := s.joined ++ [none] } := by
            show s.mainStep z nowt = _
            unfold mainStep
            rw [hmain]
            exact if_pos hpos
          refine .inl (nearer_of_main ?_ ?_) <;> rw [hstep]
          rw [hmain]
          simp only [MainPc.left, indices, List.length_range]
          omega
        · have hstep : s.step z (.main nowt) = s := by
            show s.mainStep z nowt = _
            unfold mainStep
            rw [hmain]
            exact if_neg hpos
          refine .inr ⟨?_, by rw [hstep], by rw [hstep]⟩
          unfold helpful
          rw [hmain]
          simp [hpos, Act.party]
  | io msgs nowt =>
      have hmoves := moves_ioStep (s := s) (z := z) msgs nowt
      rcases left_ioStep (z := z) hquit.1 hquit.2 msgs nowt with hless | ⟨hpos, hstep⟩
      · refine .inl (nearer_of_waited hmoves.length ?_ ?_)
        · exact congrArg _ hmoves.main
        · show (s.ioStep z msgs nowt).waitedLeft < s.waitedLeft
          rw [(hwaited s rfl).1, (hwaited _ hmoves.main).1, hmoves.length]
          exact hless
      · have hstep' : s.step z (.io msgs nowt) = s := hstep
        refine .inr ⟨?_, by rw [hstep'], by rw [hstep']⟩
        rw [hended hpos]
        simp [Act.party]
  | worker i dosthId nowt =>
      have hmoves := moves_workerStep (s := s) (z := z) i dosthId nowt
      have hio : (s.workerStep z i dosthId nowt).io = s.io := by
        rcases workerStep_cases (z := z) s i dosthId nowt with hstep | ⟨t, d, ht, hd⟩
        · rw [hstep]
        · rw [workerStep_eq ht hd]
      obtain ⟨hdist, hhelp⟩ := hsame _ hmoves.main hio hmoves.length
      refine .inr ⟨?_, hdist, hhelp⟩
      unfold helpful Act.party
      rcases hmain with hmain | hmain <;> rw [hmain] <;> split_ifs <;> simp
  | wake i =>
      obtain ⟨hdist, hhelp⟩ := hsame { s with data := s.data.modify i LogicThread.wake } rfl rfl rfl
      exact .inr ⟨(Option.some_ne_none _).symm, hdist, hhelp⟩

/-- The worker the main thread waits for, as it is. -/
structure Waited (s : LogicProcess) (i : ℕ) (t : Thread Unit) (d : LogicThread) : Prop where
  worker : s.workers[i]? = some t
  thread : s.data.threads[i]? = some d
  fits : LogicThread.Fits t d
  coherent : t.Coherent
  quit : t.flags.quit = true
  started : t.pos ≠ .idle
  io : s.io.pos = .ended

theorem exists_waited (h : Sound s) {i : ℕ} (hlt : i < s.workers.length)
    (hquit : ∀ t, s.workers[i]? = some t → t.flags.quit = true)
    (hidle : s.Workers Set.univ fun t => t.pos ≠ .idle) (hio : s.io.pos = .ended) :
    ∃ t d, Waited s i t d := by
  have ht : s.workers[i]? = some s.workers[i] := List.getElem?_eq_getElem hlt
  have hlt' : i < s.data.threads.length := h.sane.length.symm ▸ hlt
  have hd : s.data.threads[i]? = some s.data.threads[i] := List.getElem?_eq_getElem hlt'
  exact ⟨_, _, ht, hd, h.fits i _ _ ht hd, h.sane.workers i _ ht trivial, hquit _ ht,
    hidle i _ ht trivial, hio⟩

namespace Waited

variable {i : ℕ} {t : Thread Unit} {d : LogicThread} (h : Waited s i t d)
include h

theorem isOver_eq : s.isOver i = t.flags.isOver := by rw [isOver, h.worker, Option.any_some]

theorem hasEnded_eq : s.hasEnded i = decide (t.pos = .ended) := by
  rw [hasEnded, h.worker, Option.any_some]

theorem isBlocked_eq : s.isBlocked i = decide (d.stage = .blocked) := by
  rw [isBlocked, h.thread, Option.any_some]

/-- A worker in the wait is in its loop. -/
theorem loop_of_blocked (hblocked : d.stage = .blocked) : ∃ b, t.pos = .loop b := by
  by_contra hnot
  have htop := h.fits.resting fun b hb => hnot ⟨b, hb⟩
  rw [hblocked] at htop
  cases htop

/-- A worker that is over is not in the wait. -/
theorem not_blocked (hover : t.flags.isOver = true) : d.stage ≠ .blocked := by
  intro hblocked
  obtain ⟨b, hpos⟩ := h.loop_of_blocked hblocked
  rcases (h.coherent.isOver_iff h.started).mp hover with hp | hp
  · rw [hpos] at hp
    cases hp
  · rw [hpos] at hp
    cases hp

end Waited

theorem workerOr_cases {i : ℕ} (hlt : i < n) (main : Bool) :
    workerOr n i main = .main ∨ workerOr n i main = .worker ⟨i, hlt⟩ := by
  unfold workerOr
  split_ifs
  · exact .inl rfl
  · exact .inr rfl

/-- The main thread polls. -/
theorem helps_poll {i : ℕ} {t : Thread Unit} {d : LogicThread} (h : Waited s i t d) (hlt : i < n)
    {needWait : Bool} {is : List ℕ} (hmain : s.main = .poll i needWait is) (nowt : ℤ) :
    Helps z n s (.main nowt) := by
  by_cases hover : t.flags.isOver = true
  · have hstep : s.step z (.main nowt) =
        { s with main := if needWait then .stopWorkers is else .join s.indices } := by
      show s.mainStep z nowt = _
      unfold mainStep
      simp only [hmain, h.worker]
      exact if_pos hover
    refine .inl (nearer_of_main ?_ ?_) <;> rw [hstep]
    rw [hmain]
    split_ifs
    · exact Nat.add_lt_add_right (Nat.lt_succ_self _) _
    · simp only [MainPc.left, indices, List.length_range]
      omega
  · have hstep : s.step z (.main nowt) = { s with main := .notify i is } := by
      show s.mainStep z nowt = _
      unfold mainStep
      simp only [hmain, h.worker]
      exact if_neg hover
    have hdetour : detour { s with main := .notify i is } = 0 := by
      show (if s.isOver i then 1 else 0) = 0
      rw [h.isOver_eq, if_neg hover]
    have hwaited : waitedLeft { s with main := .notify i is } = s.waitedLeft := by
      rw [waitedLeft, waitedLeft, hmain]
      rfl
    unfold Helps
    rw [hstep]
    by_cases hblocked : d.stage = .blocked
    · refine .inl (nearer_of_detour rfl ?_ hwaited ?_)
      · rw [hmain]
        rfl
      · rw [hdetour, detour, hmain]
        simp only [h.isBlocked_eq, hblocked]
        decide
    · refine .inr ⟨?_, ?_, ?_⟩
      · rw [helpful, hmain]
        simp [h.isOver_eq, h.isBlocked_eq, hover, hblocked, workerOr, hlt, Act.party]
      · rw [distance, distance, hdetour, hwaited, detour, hmain]
        simp only [h.isBlocked_eq, hblocked]
        rfl
      · rw [helpful, helpful, hmain]
        rfl

/-- The main thread notifies. -/
theorem helps_notify {i : ℕ} {t : Thread Unit} {d : LogicThread} (h : Waited s i t d) (hlt : i < n)
    {is : List ℕ} (hmain : s.main = .notify i is) (nowt : ℤ) : Helps z n s (.main nowt) := by
  have hstep : s.step z (.main nowt) =
      { s with data := s.data.modify i LogicThread.wake, main := .poll i true is } := by
    show s.mainStep z nowt = _
    unfold mainStep
    rw [hmain]
  have hthread : ((s.data.modify i LogicThread.wake).threads)[i]? = some d.wake := by
    simp [LogicThreads.modify, h.thread]
  have hwaited : s.waitedLeft = t.pos.left fun _ => d.left := by
    rw [waitedLeft, hmain]
    simp only [workerLeft, h.worker, h.thread]
  have hwaited' : waitedLeft { s with
      data := s.data.modify i LogicThread.wake, main := .poll i true is } =
        t.pos.left fun _ => d.wake.left := by
    show workerLeft { s with data := s.data.modify i LogicThread.wake, main := .poll i true is } i = _
    simp only [workerLeft, h.worker, hthread]
  unfold Helps
  rw [hstep]
  rcases LogicThread.left_wake d with ⟨hblocked, hless⟩ | ⟨hblocked, hsame⟩
  · obtain ⟨b, hpos⟩ := h.loop_of_blocked hblocked
    refine .inl (nearer_of_waited rfl ?_ ?_)
    · rw [hmain]
      rfl
    · rw [hwaited, hwaited', hpos]
      exact Nat.add_lt_add_left hless 6
  · rw [hsame] at hwaited' hthread
    have hnot : isBlocked { s with
        data := s.data.modify i LogicThread.wake, main := .poll i true is } i = false := by
      simp only [isBlocked, hthread, Option.any_some, hblocked, decide_false]
    have hdetour : detour { s with
        data := s.data.modify i LogicThread.wake, main := .poll i true is } = 0 := by
      unfold detour
      simp only [hnot]
      rfl
    by_cases hover : t.flags.isOver = true
    · refine .inl (nearer_of_detour rfl ?_ (hwaited'.trans hwaited.symm) ?_)
      · rw [hmain]
        rfl
      · rw [hdetour, detour, hmain]
        simp only [h.isOver_eq, hover]
        decide
    · refine .inr ⟨?_, ?_, ?_⟩
      · rw [helpful, hmain]
        simp [h.isOver_eq, h.isBlocked_eq, hover, hblocked, workerOr, hlt, Act.party]
      · rw [distance, distance, hwaited', hwaited, hdetour, detour, hmain]
        simp only [h.isOver_eq, hover]
        rfl
      · have hover' : isOver { s with
            data := s.data.modify i LogicThread.wake, main := .poll i true is } i =
              t.flags.isOver := by simp only [isOver, h.worker, Option.any_some]
        rw [helpful, helpful, hmain]
        simp only [hover', hnot, h.isOver_eq, h.isBlocked_eq, hblocked, decide_false]

/-- The main thread joins. -/
theorem helps_join {i : ℕ} {t : Thread Unit} {d : LogicThread} (h : Waited s i t d) (hlt : i < n)
    {is : List ℕ} (hmain : s.main = .join (i :: is)) (nowt : ℤ) :
    Helps z n s (.main nowt) := by
  by_cases hended : t.pos = .ended
  · have hstep : s.step z (.main nowt) =
        { s with main := .join is, joined := s.joined ++ [some i] } := by
      show s.mainStep z nowt = _
      unfold mainStep
      simp only [hmain, h.worker]
      exact if_pos hended
    refine .inl (nearer_of_main ?_ ?_) <;> rw [hstep]
    rw [hmain]
    simp [MainPc.left]
  · have hstep : s.step z (.main nowt) = s := by
      show s.mainStep z nowt = _
      unfold mainStep
      simp only [hmain, h.worker]
      exact if_neg hended
    refine .inr ⟨?_, by rw [hstep], by rw [hstep]⟩
    rw [helpful, hmain]
    simp [h.hasEnded_eq, hended, workerOr, hlt, Act.party]

/-- A main thread that waits for nobody goes on. -/
theorem helps_main_free (hfree : s.main.Free) (hmain : s.main ≠ .returned) (nowt : ℤ) :
    Helps z n s (.main nowt) := by
  have hlength : (s.mainStep z nowt).workers.length = s.workers.length := by
    obtain ⟨-, hw | ⟨i, is, -, hw⟩ | ⟨i, hw⟩, -⟩ := mainStep_parts (z := z) s nowt
    · rw [hw]
    · rw [hw, List.length_modify]
    · rw [hw, List.length_modify]
  refine .inl (nearer_of_main hlength ?_)
  show (s.mainStep z nowt).main.left _ < _
  unfold mainStep
  cases hpc : s.main with
  | startIo =>
      simp only [MainPc.left, indices, List.length_range]
      omega
  | startWorkers is =>
      cases is with
      | nil => simp [MainPc.left]
      | cons i is => simp [MainPc.left]
  | running => simp [MainPc.left]
  | stopWorkers is =>
      cases is with
      | nil =>
          simp only [MainPc.left, indices, List.length_range]
          omega
      | cons i is =>
          simp only [MainPc.left, List.length_cons]
          omega
  | join is =>
      cases is with
      | nil => simp [MainPc.left]
      | cons i is =>
          rw [hpc] at hfree
          exact hfree.elim
  | returned => exact absurd hpc hmain
  | pollIo | joinIo | poll | notify =>
      rw [hpc] at hfree
      exact hfree.elim

/-- Every step while the main thread waits for a worker. -/
theorem helps_waited {i : ℕ} {t : Thread Unit} {d : LogicThread} (h : Waited s i t d) (hlt : i < n)
    (hat : s.main.At i) {main : Bool} (hhelpful : s.helpful n = workerOr n i main)
    (hready : t.pos = .ended ∨ d.stage = .blocked → main = true)
    (hturn : ∀ nowt, Helps z n s (.main nowt)) (a : Act) : Helps z n s a := by
  by_cases ha : a.party n = some .main
  · obtain ⟨nowt, rfl⟩ := Act.party_eq_main.mp ha
    exact hturn nowt
  by_cases hworker : ∃ dosthId nowt, a = .worker i dosthId nowt
  · obtain ⟨dosthId, nowt, rfl⟩ := hworker
    refine helps_worker hat h.worker h.thread h.quit h.started ?_ dosthId nowt
    intro hstuck
    rw [hhelpful, hready hstuck]
    rfl
  · exact helps_others hat h.worker h.thread h.io h.loop_of_blocked hlt
      (hhelpful ▸ workerOr_cases hlt main) ha fun dosthId nowt heq => hworker ⟨dosthId, nowt, heq⟩

/-- A worker is polled and notified until it is over. -/
theorem helps_polled (h : Sound s) (hn : s.workers.length = n) {i : ℕ} {is : List ℕ}
    (hmain : (∃ needWait, s.main = .poll i needWait is) ∨ s.main = .notify i is) (a : Act) :
    Helps z n s a := by
  have hphase : s.Phase (.notify i is) := by
    have hphase := h.sane.phase
    rcases hmain with ⟨needWait, hpc⟩ | hpc <;> rw [hpc] at hphase <;> exact hphase
  obtain ⟨hio, hidle, hquit, -, hsuf, -⟩ := hphase
  have hlt : i < s.workers.length := List.mem_range.mp (hsuf.subset List.mem_cons_self)
  obtain ⟨t, d, hw⟩ := exists_waited h hlt (fun t ht => hquit i t ht rfl) hidle hio
  have hat : s.main.At i := by rcases hmain with ⟨needWait, hpc⟩ | hpc <;> rw [hpc] <;> rfl
  have hhelpful : s.helpful n = workerOr n i (t.flags.isOver || decide (d.stage = .blocked)) := by
    rw [helpful]
    rcases hmain with ⟨needWait, hpc⟩ | hpc <;> rw [hpc] <;>
      simp only [hw.isOver_eq, hw.isBlocked_eq]
  refine helps_waited hw (hn ▸ hlt) hat hhelpful ?_ ?_ a
  · rintro (hended | hblocked)
    · rw [(hw.coherent.isOver_iff hw.started).mpr (.inr hended), Bool.true_or]
    · rw [decide_eq_true hblocked, Bool.or_true]
  · intro nowt
    rcases hmain with ⟨needWait, hpc⟩ | hpc
    · exact helps_poll hw (hn ▸ hlt) hpc nowt
    · exact helps_notify hw (hn ▸ hlt) hpc nowt

/-- A single worker is over before it is joined. -/
theorem helps_joining (h : Sound s) (hn : s.workers.length = n) (hone : n ≤ 1) {i : ℕ}
    {is : List ℕ} (hmain : s.main = .join (i :: is)) (a : Act) : Helps z n s a := by
  have hphase := h.sane.phase
  rw [hmain] at hphase
  obtain ⟨hio, hidle, ⟨done, -, hsplit, -⟩, hover⟩ := hphase
  have hmem : i ∈ s.indices := by
    rw [← hsplit]
    exact List.mem_append_right _ List.mem_cons_self
  have hlt : i < s.workers.length := List.mem_range.mp hmem
  have hover := hover (hn.trans_le hone)
  have hquit : ∀ t, s.workers[i]? = some t → t.flags.quit = true := by
    intro t ht
    have hcoherent := h.sane.workers i t ht trivial
    apply hcoherent.quit
    rcases (hcoherent.isOver_iff (hidle i t ht trivial)).mp (hover i t ht trivial) with hp | hp
    · rw [hp]
      trivial
    · rw [hp]
      trivial
  obtain ⟨t, d, hw⟩ := exists_waited h hlt hquit hidle hio
  have hhelpful : s.helpful n = workerOr n i (decide (t.pos = .ended)) := by
    rw [helpful, hmain]
    simp only [hw.hasEnded_eq]
  refine helps_waited hw (hn ▸ hlt) (by rw [hmain]; rfl) hhelpful ?_
    (helps_join hw (hn ▸ hlt) hmain) a
  rintro (hended | hblocked)
  · exact decide_eq_true hended
  · exact absurd hblocked (hw.not_blocked (hover i t hw.worker trivial))

/-- **With one worker, every step helps**, wherever the main thread is. -/
theorem helps (h : Sound s) (hn : s.workers.length = n) (hone : n ≤ 1)
    (hmain : s.main ≠ .returned) (a : Act) : Helps z n s a := by
  have hfree : s.main.Free → Helps z n s a := by
    intro hf
    by_cases ha : a.party n = some .main
    · obtain ⟨nowt, rfl⟩ := Act.party_eq_main.mp ha
      exact helps_main_free hf hmain nowt
    · exact helps_of_free hf ha
  cases hpc : s.main with
  | pollIo => exact helps_io h (.inl hpc) a
  | joinIo => exact helps_io h (.inr hpc) a
  | poll i needWait is => exact helps_polled h hn (.inl ⟨needWait, hpc⟩) a
  | notify i is => exact helps_polled h hn (.inr hpc) a
  | join is =>
      cases is with
      | nil => exact hfree (by rw [hpc]; trivial)
      | cons i is => exact helps_joining h hn hone hpc a
  | startIo => exact hfree (by rw [hpc]; trivial)
  | startWorkers is => exact hfree (by rw [hpc]; trivial)
  | running => exact hfree (by rw [hpc]; trivial)
  | stopWorkers is => exact hfree (by rw [hpc]; trivial)
  | returned => exact absurd hpc hmain

theorem length_step (s : LogicProcess) (a : Act) :
    (s.step z a).workers.length = s.workers.length := by
  cases a with
  | main nowt =>
      obtain ⟨-, hw | ⟨i, is, -, hw⟩ | ⟨i, hw⟩, -⟩ := mainStep_parts (z := z) s nowt
      · exact congrArg List.length hw
      · exact (congrArg List.length hw).trans (List.length_modify ..)
      · exact (congrArg List.length hw).trans (List.length_modify ..)
  | io msgs nowt => exact (moves_ioStep msgs nowt).length
  | worker i dosthId nowt => exact (moves_workerStep i dosthId nowt).length
  | wake i => rfl

/-- With at most one worker `stop()` returns in every fair run. -/
theorem eventually_returned {names : List (List UInt8)} (hone : names.length ≤ 1) {acts : ℕ → Act}
    (hfair : Fair (Act.party names.length) acts) :
    ∃ k, (after (step z) (init names) acts k).main = .returned := by
  have hprogress : Helpful (step z) (Act.party names.length)
      (fun s => Sound s ∧ s.workers.length = names.length) (fun s => s.main = .returned) Nearer
      distance (helpful names.length) := by
    refine ⟨fun s a hs => ⟨sound_step hs.1 a, (length_step s a).trans hs.2⟩, ?_⟩
    intro s a hs hmain
    exact helps hs.1 hs.2 hone hmain a
  exact hprogress.eventually wellFounded_nearer ⟨sound_init names, List.length_map ..⟩ hfair

/-! ## Two workers -/

/-- The main thread is going to join the second worker, which nobody has stopped. -/
structure Hung (s : LogicProcess) : Prop where
  main : ∃ is, s.main = .join is ∧ 1 ∈ is
  worker : ∃ t, s.workers[1]? = some t ∧ t.flags.quit = false ∧ t.Coherent

/-- A worker nobody has stopped has not ended. -/
theorem Hung.not_ended (h : Hung s) {t : Thread Unit} (ht : s.workers[1]? = some t) :
    t.pos ≠ .ended := by
  obtain ⟨u, hu, hquit, hcoherent⟩ := h.worker
  obtain rfl := Option.some.inj (hu.symm.trans ht)
  intro hended
  have hq := hcoherent.quit (by rw [hended]; trivial)
  rw [hquit] at hq
  cases hq

theorem Hung.of_moves (h : Hung s) (hmoves : Moves s s') : Hung s' := by
  obtain ⟨is, hmain, hmem⟩ := h.main
  obtain ⟨t, ht, hquit, hcoherent⟩ := h.worker
  refine ⟨⟨is, hmoves.main.trans hmain, hmem⟩, ?_⟩
  have hlt : 1 < s'.workers.length := hmoves.length ▸ (List.getElem?_eq_some_iff.mp ht).1
  have ht' : s'.workers[1]? = some s'.workers[1] := List.getElem?_eq_getElem hlt
  obtain ⟨u, hu, hadv⟩ := hmoves.workers 1 _ ht'
  obtain rfl := Option.some.inj (hu.symm.trans ht)
  exact ⟨_, ht', hadv.quit.trans hquit, hadv.coherent hcoherent⟩

/-- It stays so. -/
theorem hung_step (h : Hung s) (a : Act) : Hung (s.step z a) := by
  cases a with
  | main nowt =>
      obtain ⟨is, hmain, hmem⟩ := h.main
      show Hung (s.mainStep z nowt)
      unfold mainStep
      cases is with
      | nil => exact absurd hmem List.not_mem_nil
      | cons i is =>
          simp only [hmain]
          split
          · exact h
          · next t ht =>
            split_ifs with hended
            · -- another worker than the second has ended
              refine ⟨⟨is, rfl, (List.mem_cons.mp hmem).resolve_left ?_⟩, h.worker⟩
              rintro rfl
              exact h.not_ended ht hended
            · exact h
  | io msgs nowt => exact h.of_moves (moves_ioStep msgs nowt)
  | worker i dosthId nowt => exact h.of_moves (moves_workerStep i dosthId nowt)
  | wake i => exact h.of_moves (moves_io (.refl _) rfl rfl rfl)

theorem Hung.not_returned (h : Hung s) : s.main ≠ .returned := by
  obtain ⟨is, hmain, -⟩ := h.main
  rw [hmain]
  exact MainPc.noConfusion

/-- The workers are started one after the other. -/
theorem run_startWorkers (is : List ℕ) {s : LogicProcess} (hmain : s.main = .startWorkers is)
    (hquit : s.Workers Set.univ fun t => t.flags.quit = false)
    (hstarted : s.Workers {i | i ∉ is} fun t => t.pos = .check) :
    ∃ workers, run (step z) s (List.replicate is.length (.main 0)) =
        { s with workers := workers, main := .startWorkers [] } ∧
      workers.length = s.workers.length ∧
      ∀ (i : ℕ) t, workers[i]? = some t → t.flags.quit = false ∧ t.pos = .check := by
  induction is generalizing s with
  | nil =>
      refine ⟨s.workers, ?_, rfl, fun i t ht => ⟨hquit i t ht trivial,
        hstarted i t ht List.not_mem_nil⟩⟩
      rw [← hmain]
      rfl
  | cons i is ih =>
      have hstep : s.step z (.main 0) =
          { s with workers := s.workers.modify i (Thread.start z 0), main := .startWorkers is } := by
        show s.mainStep z 0 = _
        unfold mainStep
        rw [hmain]
      have hstart := fun t ht => Thread.start_of_quit (z := z) 0 (hquit i t ht trivial)
      obtain ⟨workers, hrun, hlength, hall⟩ := ih (s := s.step z (.main 0)) (by rw [hstep])
        (by
          rw [hstep]
          exact workers_modify rfl (fun t ht _ => (hstart t ht).2.1)
            fun j t ht _ _ => hquit j t ht trivial)
        (by
          rw [hstep]
          exact workers_modify rfl (fun t ht _ => (hstart t ht).1) fun j t ht hne hj =>
            hstarted j t ht (List.not_mem_cons_of_ne_of_not_mem hne hj))
      refine ⟨workers, ?_, ?_, hall⟩
      · rw [List.length_cons, List.replicate_succ, run_cons, hrun, hstep]
      · rw [hlength, length_step]

/-- Behind `run()`, the first worker sees `_quit` and is over before it is polled. -/
def early : List Act :=
  List.replicate 2 (.main 0) ++ List.replicate 4 (.io [] 0) ++ List.replicate 3 (.main 0) ++
  List.replicate 3 (.worker 0 none 0) ++ [.main 0]

theorem run_early {s : LogicProcess} {t u : Thread Unit} {ts : List (Thread Unit)}
    {d : LogicThread} {ds : List LogicThread} (hmain : s.main = .startWorkers [])
    (hio : s.io.pos = .check) (hworkers : s.workers = t :: u :: ts)
    (hthreads : s.data.threads = d :: ds) (ht : t.pos = .check) :
    (run (step z) s early).main = .join (0 :: 1 :: (List.range ts.length).map (· + 2)) ∧
      (run (step z) s early).workers[1]? = some u := by
  obtain ⟨⟨threads, outMsgs, notifying, drained⟩, ⟨flags, _⟩, _, _, joined⟩ := s
  obtain ⟨tflags, _⟩ := t
  obtain rfl := hmain
  obtain rfl := hio
  obtain rfl := hworkers
  obtain rfl := hthreads
  obtain rfl := ht
  have hrange : List.range (ts.length + 2) = 0 :: 1 :: (List.range ts.length).map (· + 2) := by
    rw [List.range_succ_eq_map, List.range_succ_eq_map]
    simp [Function.comp_def]
  constructor <;>
  · unfold early
    simp [List.replicate, step, mainStep, ioStep, workerStep, LogicThread.turn, Thread.advance,
      Thread.stop, IThread.stop, IThread.isRunning, IThread.tover, Thread.goto, indices, hrange]

/-- With two workers or more the main thread can be left hanging. -/
theorem exists_hung {names : List (List UInt8)} (htwo : ¬ names.length ≤ 1) :
    ∃ acts, Hung (run (step z) (init names) acts) := by
  obtain ⟨a, b, rest, rfl⟩ : ∃ a b rest, names = a :: b :: rest := by
    match names, htwo with
    | [], h => exact absurd (Nat.zero_le 1) h
    | [_], h => exact absurd (Nat.le_refl 1) h
    | a :: b :: rest, _ => exact ⟨a, b, rest, rfl⟩
  -- the IO thread is started, and then all workers
  have hfirst := sound_step (z := z) (sound_init (a :: b :: rest)) (.main 0)
  obtain ⟨-, -, hworkers, -, -, -, -⟩ := hfirst.sane.phase
  obtain ⟨workers, hrun, hlength, hall⟩ := run_startWorkers (z := z) _ rfl hworkers
    fun i t ht hi => absurd (mem_indices_of_getElem? ht) hi
  generalize List.replicate (indices _).length (Act.main 0) = starts at hrun
  have hsound := run_invariant (I := Sound) (fun _ a h => sound_step (z := z) h a) hfirst starts
  rw [hrun] at hsound
  obtain ⟨t, u, ts, rfl⟩ : ∃ t u ts, workers = t :: u :: ts := by
    match workers, hlength with
    | t :: u :: ts, _ => exact ⟨t, u, ts, rfl⟩
  have hio : (step z (init (a :: b :: rest)) (.main 0)).io.pos = .check :=
    (Thread.start_of_quit (z := z) 0 rfl).1
  refine ⟨(.main 0 :: starts) ++ early, ?_⟩
  rw [run_append, run_cons, hrun]
  obtain ⟨hmain, hsecond⟩ := run_early (z := z) (s := { step z (init (a :: b :: rest)) (.main 0)
    with workers := t :: u :: ts, main := .startWorkers [] }) rfl hio rfl rfl (hall 0 t rfl).2
  exact ⟨⟨_, hmain, by simp⟩, u, hsecond, (hall 1 u rfl).1, hsound.sane.workers 1 u rfl trivial⟩

/-- **When `Logic::stop()` returns**: in every fair run, if and only if there is at most
one worker. -/
theorem stop_returns_iff (z : ℤ) (names : List (List UInt8)) :
    (∀ acts, Fair (Act.party names.length) acts →
      ∃ k, (after (step z) (init names) acts k).main = .returned) ↔ names.length ≤ 1 := by
  refine ⟨fun h => ?_, fun hone acts hfair => eventually_returned hone hfair⟩
  by_contra htwo
  obtain ⟨as, hhung⟩ := exists_hung (z := z) htwo
  have hturn : ∀ p : Party names.length, ∃ a : Act, a.party names.length = some p := by
    intro p
    cases p with
    | main => exact ⟨.main 0, rfl⟩
    | io => exact ⟨.io [] 0, rfl⟩
    | worker i => exact ⟨.worker i none 0, dif_pos i.isLt⟩
  obtain ⟨acts, hfair, hstarts⟩ := exists_fair_after hturn (step z) (init names) as
  obtain ⟨k, hreturned⟩ := h acts hfair
  -- `returned` is not left, and not reached from where the run hangs
  have hlater : ∀ m, Hung (after (step z) (init names) acts (as.length + m)) := by
    intro m
    rw [after_add, hstarts]
    exact after_invariant (I := Hung) (fun _ a h => hung_step (z := z) h a) hhung _ m
  have hstays : ∀ m, (after (step z) (init names) acts (k + m)).main = .returned := by
    intro m
    rw [after_add]
    refine after_invariant (I := fun s : LogicProcess => s.main = .returned) ?_ hreturned _ m
    intro s a hs
    by_cases ha : a.party names.length = some .main
    · obtain ⟨nowt, rfl⟩ := Act.party_eq_main.mp ha
      show (s.mainStep z nowt).main = .returned
      unfold mainStep
      simp only [hs]
    · exact (moves_step ha).main.trans hs
  exact (hlater k).not_returned (Nat.add_comm k as.length ▸ hstays as.length)

end LogicProcess

end Rubo.Server
