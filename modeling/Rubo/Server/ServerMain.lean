import Rubo.Server.GateStop
import Rubo.Server.LogicStop

/-!
# A Server Process from Start to End

`server_tests()` runs a Gate and a Logic, or one of them, in one process, and then reads
words from the console: `gateoff` and `logicoff` stop one of the two, `quit` stops what
is left and ends the process. While the main thread is in one `stop()`, the threads of
the other go on.

- `ended_clean`: `stop()` is called once for each of them at most, and when the process
  ends all its threads have ended;
- `ends_iff`: in a fair run the process ends if and only if `quit` is among the words.
-/

namespace Rubo.Server

open Rubo.Foundation Rubo.Msgs Rubo.Util

/-- Where the main thread is in `server_tests()`. -/
inductive Console where
  /-- In `ServerMain::run()`. -/
  | runGate
  | runLogic
  /-- In front of `std::cin >> input`. -/
  | read
  /-- In `stop_gate()` and `stop_logic()`. -/
  | stopGate
  | stopLogic
  /-- In `ServerMain::stop()`. -/
  | quitLogic
  | quitGate
  | ended
  deriving DecidableEq

/-- The Gate runs, if there is one that has not been stopped, and `stop()` is not called. -/
def Console.GateRuns : Console → Prop
  | .runLogic | .read | .stopLogic | .quitLogic => True
  | .runGate | .stopGate | .quitGate | .ended => False

/-- The same for the Logic. -/
def Console.LogicRuns : Console → Prop
  | .read | .stopGate => True
  | .runGate | .runLogic | .stopLogic | .quitLogic | .quitGate | .ended => False

/-- What can be stopped. -/
inductive Component where
  | gate
  | logic
  deriving DecidableEq

/-- A server process. `gateSet` and `logicSet` say whether `_gate` and `_logic` are set,
and the history which `stop()` calls have been made. -/
structure ServerMain where
  gate : GateProcess
  logic : LogicProcess
  gateSet : Bool
  logicSet : Bool
  console : Console
  /-- The words that are still to be read. -/
  input : List String
  stops : List Component

namespace ServerMain

/-- A step of a thread. Logic has one worker. -/
inductive Act where
  | main (nowt : ℤ)
  | mngr (r : IoRound) (nowt : ℤ)
  | gateWorker (i : ℕ) (r : WorkerRound) (nowt : ℤ)
  | io (msgs : List UserMsg) (nowt : ℤ)
  | logicWorker (dosthId : Option Int32) (nowt : ℤ)
  | wake

/-- What `init()` leaves when everything in it succeeds. -/
def init (runGate runLogic : Bool) (sockFd : Int32) (tname : List UInt8) (input : List String) :
    ServerMain where
  gate := .init sockFd
  logic := .init [tname]
  gateSet := runGate
  logicSet := runLogic
  console := .runGate
  input := input
  stops := []

/-- A word that ends the loop. -/
def IsQuit (word : String) : Prop := word = "quit" ∨ word = "QUIT"

instance (word : String) : Decidable (IsQuit word) := inferInstanceAs (Decidable (_ ∨ _))

variable (rt : Runtime) (z : ℤ) (s : ServerMain)

/-- In `ServerMain::stop()`, behind the Logic. -/
def toQuitGate : ServerMain :=
  { s with console := .quitGate, stops := if s.gateSet then s.stops ++ [.gate] else s.stops }

/-- A pass of the loop, up to the `stop()` it calls. -/
def onWord (word : String) : ServerMain :=
  if IsQuit word then
    { s with console := .quitLogic, stops := if s.logicSet then s.stops ++ [.logic] else s.stops }
  else if word = "gateoff" ∨ word = "GATEOFF" then
    if s.gateSet then { s with console := .stopGate, stops := s.stops ++ [.gate] } else s
  else if word = "logicoff" ∨ word = "LOGICOFF" then
    if s.logicSet then { s with console := .stopLogic, stops := s.stops ++ [.logic] } else s
  else s

/-- A step of the main thread. -/
def mainStep (nowt : ℤ) : ServerMain :=
  match s.console with
  | .runGate =>
    if s.gateSet then { s with gate := s.gate.mainStep z nowt, console := .runLogic }
    else { s with console := .runLogic }
  | .runLogic =>
    if s.logicSet then
      let s := { s with logic := s.logic.mainStep z nowt }
      if s.logic.main = .running then { s with console := .read } else s
    else { s with console := .read }
  | .read =>
    match s.input with
    -- at the end of the input the last word stays, and was not `quit`
    | [] => s
    | word :: input => onWord { s with input := input } word
  | .stopGate =>
    let s := { s with gate := s.gate.mainStep z nowt }
    if s.gate.main = .returned then { s with gateSet := false, console := .read } else s
  | .stopLogic =>
    let s := { s with logic := s.logic.mainStep z nowt }
    if s.logic.main = .returned then { s with logicSet := false, console := .read } else s
  | .quitLogic =>
    if s.logicSet then
      let s := { s with logic := s.logic.mainStep z nowt }
      if s.logic.main = .returned then s.toQuitGate else s
    else s.toQuitGate
  | .quitGate =>
    if s.gateSet then
      let s := { s with gate := s.gate.mainStep z nowt }
      if s.gate.main = .returned then { s with console := .ended } else s
    else { s with console := .ended }
  | .ended => s

def step : Act → ServerMain
  | .main nowt => s.mainStep z nowt
  | .mngr r nowt => { s with gate := s.gate.step rt z (.mngr r nowt) }
  | .gateWorker i r nowt => { s with gate := s.gate.step rt z (.worker i r nowt) }
  | .io msgs nowt => { s with logic := s.logic.step z (.io msgs nowt) }
  | .logicWorker dosthId nowt => { s with logic := s.logic.step z (.worker 0 dosthId nowt) }
  | .wake => { s with logic := s.logic.step z (.wake 0) }

/-! ## What holds when -/

/-- What holds of the Gate: `run` says whether there is one, `set` whether `_gate` is set. -/
def GateOk (run set : Bool) (console : Console) (main : GateMain) (stops : List Component) :
    Prop :=
  match set, console with
  | true, .runGate => run = true ∧ main = .start ∧ .gate ∉ stops
  | true, .runLogic | true, .read | true, .stopLogic | true, .quitLogic =>
    run = true ∧ main = .running ∧ .gate ∉ stops
  | true, .stopGate | true, .quitGate => run = true ∧ main ≠ .returned ∧ .gate ∈ stops
  | true, .ended => run = true ∧ main = .returned ∧ .gate ∈ stops
  | false, .stopGate => False
  | false, _ => if run then main = .returned ∧ .gate ∈ stops else .gate ∉ stops

/-- What holds of the Logic. -/
def LogicOk (run set : Bool) (console : Console) (main : MainPc) (stops : List Component) :
    Prop :=
  match set, console with
  | true, .runGate => run = true ∧ main = .startIo ∧ .logic ∉ stops
  | true, .runLogic =>
    run = true ∧ (main = .startIo ∨ ∃ is, main = .startWorkers is) ∧ .logic ∉ stops
  | true, .read | true, .stopGate => run = true ∧ main = .running ∧ .logic ∉ stops
  | true, .stopLogic | true, .quitLogic => run = true ∧ main ≠ .returned ∧ .logic ∈ stops
  | true, .quitGate | true, .ended => run = true ∧ main = .returned ∧ .logic ∈ stops
  | false, .stopLogic => False
  | false, _ => if run then main = .returned ∧ .logic ∈ stops else .logic ∉ stops

structure Sane (runGate runLogic : Bool) (s : ServerMain) : Prop where
  gateOk : GateOk runGate s.gateSet s.console s.gate.main s.stops
  logicOk : LogicOk runLogic s.logicSet s.console s.logic.main s.stops
  once : s.stops.Nodup

variable {rt z s} {runGate runLogic : Bool}

theorem once_append {stops : List Component} (h : stops.Nodup) {c : Component} (hc : c ∉ stops) :
    (stops ++ [c]).Nodup := by
  rw [List.nodup_append']
  refine ⟨h, List.nodup_singleton c, fun d hd hdc => ?_⟩
  rw [List.mem_singleton.mp hdc] at hd
  exact hc hd

theorem mem_append_of_ne {stops : List Component} {c d : Component} (h : c ≠ d) :
    c ∈ stops ++ [d] ↔ c ∈ stops := by
  rw [List.mem_append, List.mem_singleton, or_iff_left h]

section Ok

variable {run set : Bool} {stops : List Component} {console : Console}

/-- A `stop()` of the Logic is no matter of the Gate. -/
theorem GateOk.append {main : GateMain} (h : GateOk run set console main stops) :
    GateOk run set console main (stops ++ [.logic]) := by
  have hmem : Component.gate ∈ stops ++ [.logic] ↔ .gate ∈ stops := mem_append_of_ne (by decide)
  cases set <;> cases console <;> simp only [GateOk, hmem] at h ⊢ <;> exact h

theorem LogicOk.append {main : MainPc} (h : LogicOk run set console main stops) :
    LogicOk run set console main (stops ++ [.gate]) := by
  have hmem : Component.logic ∈ stops ++ [.gate] ↔ .logic ∈ stops := mem_append_of_ne (by decide)
  cases set <;> cases console <;> simp only [LogicOk, hmem] at h ⊢ <;> exact h

/-- The main thread goes on to what does not concern the Gate. -/
theorem GateOk.move {main : GateMain} (h : GateOk run set console main stops)
    (hc : console.GateRuns) (console' : Console) (hc' : console'.GateRuns) :
    GateOk run set console' main stops := by
  cases console <;> first | exact hc.elim | skip
  all_goals
    cases console' <;> first | exact hc'.elim | skip
    all_goals cases set <;> exact h

theorem LogicOk.move {main : MainPc} (h : LogicOk run set console main stops)
    (hc : console.LogicRuns) (console' : Console) (hc' : console'.LogicRuns) :
    LogicOk run set console' main stops := by
  cases console <;> first | exact hc.elim | skip
  all_goals
    cases console' <;> first | exact hc'.elim | skip
    all_goals cases set <;> exact h

/-- Without a Gate that could be stopped nothing depends on where it goes. -/
theorem GateOk.unset {main : GateMain} (h : GateOk run false console main stops)
    (console' : Console) (hc' : console' ≠ .stopGate) : GateOk run false console' main stops := by
  cases console <;> first | exact h.elim | skip
  all_goals
    cases console' <;> first | exact absurd rfl hc' | exact h

theorem LogicOk.unset {main : MainPc} (h : LogicOk run false console main stops)
    (console' : Console) (hc' : console' ≠ .stopLogic) :
    LogicOk run false console' main stops := by
  cases console <;> first | exact h.elim | skip
  all_goals
    cases console' <;> first | exact absurd rfl hc' | exact h

/-- `stop()` of the Gate begins. -/
theorem GateOk.call {main : GateMain} (h : GateOk run true console main stops)
    (hc : console.GateRuns) {console' : Console}
    (hc' : console' = .stopGate ∨ console' = .quitGate) :
    GateOk run true console' main (stops ++ [.gate]) ∧ .gate ∉ stops := by
  obtain ⟨hrun, rfl, hnot⟩ : GateOk run true .read main stops := h.move hc .read trivial
  refine ⟨?_, hnot⟩
  rcases hc' with rfl | rfl <;>
    exact ⟨hrun, by decide, List.mem_append_right _ List.mem_cons_self⟩

theorem LogicOk.call {main : MainPc} (h : LogicOk run true console main stops)
    (hc : console.LogicRuns) {console' : Console}
    (hc' : console' = .stopLogic ∨ console' = .quitLogic) :
    LogicOk run true console' main (stops ++ [.logic]) ∧ .logic ∉ stops := by
  obtain ⟨hrun, rfl, hnot⟩ : LogicOk run true .read main stops := h.move hc .read trivial
  refine ⟨?_, hnot⟩
  rcases hc' with rfl | rfl <;>
    exact ⟨hrun, MainPc.noConfusion, List.mem_append_right _ List.mem_cons_self⟩

end Ok

/-- `run()` of the Logic starts one thread after the other. -/
theorem mainStep_starting {l : LogicProcess}
    (h : l.main = .startIo ∨ ∃ is, l.main = .startWorkers is) (nowt : ℤ) :
    (l.mainStep z nowt).main = .running ∨
      ((l.mainStep z nowt).main = .startIo ∨ ∃ is, (l.mainStep z nowt).main = .startWorkers is) := by
  unfold LogicProcess.mainStep
  rcases h with hpc | ⟨is, hpc⟩
  · rw [hpc]
    exact .inr (.inr ⟨_, rfl⟩)
  · rw [hpc]
    cases is with
    | nil => exact .inl rfl
    | cons i is => exact .inr (.inr ⟨is, rfl⟩)

theorem sane_onWord (h : Sane runGate runLogic s) (hread : s.console = .read) (word : String) :
    Sane runGate runLogic (s.onWord word) := by
  have hsame := h
  obtain ⟨hg, hl, honce⟩ := h
  rw [hread] at hg hl
  unfold onWord
  by_cases hquit : IsQuit word
  · rw [if_pos hquit]
    have hg' := hg.move trivial .quitLogic trivial
    cases hset : s.logicSet with
    | true =>
        rw [hset] at hl
        obtain ⟨hcall, hnot⟩ := hl.call trivial (.inr rfl)
        exact ⟨hg'.append, hcall, once_append honce hnot⟩
    | false =>
        rw [hset] at hl
        exact ⟨hg', hl.unset .quitLogic (by decide), honce⟩
  rw [if_neg hquit]
  split_ifs with hgateoff hset hlogicoff hset
  · rw [hset] at hg
    obtain ⟨hcall, hnot⟩ := hg.call trivial (.inl rfl)
    refine ⟨?_, (hl.move trivial .stopGate trivial).append, once_append honce hnot⟩
    show GateOk _ s.gateSet _ _ _
    rw [hset]
    exact hcall
  · exact hsame
  · rw [hset] at hl
    obtain ⟨hcall, hnot⟩ := hl.call trivial (.inl rfl)
    refine ⟨(hg.move trivial .stopLogic trivial).append, ?_, once_append honce hnot⟩
    show LogicOk _ s.logicSet _ _ _
    rw [hset]
    exact hcall
  · exact hsame
  · exact hsame

/-- Behind the `stop()` of the Logic. -/
theorem sane_toQuitGate (hg : GateOk runGate s.gateSet .quitLogic s.gate.main s.stops)
    (hl : LogicOk runLogic s.logicSet .quitGate s.logic.main s.stops) (honce : s.stops.Nodup) :
    Sane runGate runLogic s.toQuitGate := by
  unfold toQuitGate
  cases hset : s.gateSet with
  | true =>
      rw [hset] at hg
      obtain ⟨hcall, hnot⟩ := hg.call trivial (.inr rfl)
      exact ⟨hcall, hl.append, once_append honce hnot⟩
  | false =>
      rw [hset] at hg
      exact ⟨hg.unset .quitGate (by decide), hl, honce⟩

theorem sane_mainStep (h : Sane runGate runLogic s) (nowt : ℤ) :
    Sane runGate runLogic (s.mainStep z nowt) := by
  have hsame := h
  obtain ⟨hg, hl, honce⟩ := h
  unfold mainStep
  cases hc : s.console with
  | runGate =>
      rw [hc] at hg hl
      have hl' : LogicOk runLogic s.logicSet .runLogic s.logic.main s.stops := by
        cases hset : s.logicSet with
        | true =>
            rw [hset] at hl
            exact ⟨hl.1, .inl hl.2.1, hl.2.2⟩
        | false =>
            rw [hset] at hl
            exact hl.unset .runLogic (by decide)
      cases hset : s.gateSet with
      | true =>
          rw [hset] at hg
          obtain ⟨hrun, hmain, hnot⟩ := hg
          have hrunning : (s.gate.mainStep z nowt).main = .running := by
            unfold GateProcess.mainStep
            rw [hmain]
          exact ⟨⟨hrun, hrunning, hnot⟩, hl', honce⟩
      | false =>
          rw [hset] at hg
          exact ⟨hg.unset .runLogic (by decide), hl', honce⟩
  | runLogic =>
      rw [hc] at hg hl
      cases hset : s.logicSet with
      | true =>
          rw [hset] at hl
          obtain ⟨hrun, hstarting, hnot⟩ := hl
          simp only [if_true]
          split_ifs with hrunning
          · exact ⟨hg.move trivial .read trivial, ⟨hrun, hrunning, hnot⟩, honce⟩
          · have hstill := (mainStep_starting hstarting nowt).resolve_left hrunning
            exact ⟨hg, ⟨hrun, hstill, hnot⟩, honce⟩
      | false =>
          rw [hset] at hl
          exact ⟨hg.move trivial .read trivial, hl.unset .read (by decide), honce⟩
  | read =>
      cases hinput : s.input with
      | nil => exact hsame
      | cons word input =>
          rw [hc] at hg hl
          have hnext : Sane runGate runLogic { s with console := .read, input := input } :=
            ⟨hg, hl, honce⟩
          exact sane_onWord hnext rfl word
  | stopGate =>
      rw [hc] at hg hl
      cases hset : s.gateSet with
      | true =>
          rw [hset] at hg
          obtain ⟨hrun, -, hmem⟩ := hg
          simp only
          split_ifs with hreturned
          · refine ⟨?_, hl.move trivial .read trivial, honce⟩
            rw [hrun]
            exact ⟨hreturned, hmem⟩
          · exact ⟨⟨hrun, hreturned, hmem⟩, hl, honce⟩
      | false =>
          rw [hset] at hg
          exact hg.elim
  | stopLogic =>
      rw [hc] at hg hl
      cases hset : s.logicSet with
      | true =>
          rw [hset] at hl
          obtain ⟨hrun, -, hmem⟩ := hl
          simp only
          split_ifs with hreturned
          · refine ⟨hg.move trivial .read trivial, ?_, honce⟩
            rw [hrun]
            exact ⟨hreturned, hmem⟩
          · exact ⟨hg, ⟨hrun, hreturned, hmem⟩, honce⟩
      | false =>
          rw [hset] at hl
          exact hl.elim
  | quitLogic =>
      rw [hc] at hg hl
      cases hset : s.logicSet with
      | true =>
          rw [hset] at hl
          obtain ⟨hrun, -, hmem⟩ := hl
          simp only [if_true]
          split_ifs with hreturned
          · exact sane_toQuitGate hg ⟨hrun, hreturned, hmem⟩ honce
          · exact ⟨hg, ⟨hrun, hreturned, hmem⟩, honce⟩
      | false =>
          rw [hset] at hl
          refine sane_toQuitGate hg ?_ honce
          rw [hset]
          exact hl.unset .quitGate (by decide)
  | quitGate =>
      rw [hc] at hg hl
      have hl' : LogicOk runLogic s.logicSet .ended s.logic.main s.stops := by
        cases hset : s.logicSet with
        | true => rw [hset] at hl; exact hl
        | false => rw [hset] at hl; exact hl.unset .ended (by decide)
      cases hset : s.gateSet with
      | true =>
          rw [hset] at hg
          obtain ⟨hrun, -, hmem⟩ := hg
          simp only [if_true]
          split_ifs with hreturned
          · exact ⟨⟨hrun, hreturned, hmem⟩, hl', honce⟩
          · exact ⟨⟨hrun, hreturned, hmem⟩, hl, honce⟩
      | false =>
          rw [hset] at hg
          exact ⟨hg.unset .ended (by decide), hl', honce⟩
  | ended => exact hsame

/-! ## The two in it -/

theorem onWord_parts (s : ServerMain) (word : String) :
    (s.onWord word).gate = s.gate ∧ (s.onWord word).logic = s.logic := by
  unfold onWord
  split_ifs <;> exact ⟨rfl, rfl⟩

/-- The main thread makes a step in one of the two, or in none. -/
theorem mainStep_parts (z : ℤ) (s : ServerMain) (nowt : ℤ) :
    ((s.mainStep z nowt).gate = s.gate ∨ (s.mainStep z nowt).gate = s.gate.mainStep z nowt) ∧
      ((s.mainStep z nowt).logic = s.logic ∨
        (s.mainStep z nowt).logic = s.logic.mainStep z nowt) := by
  unfold mainStep toQuitGate
  cases s.console with
  | read =>
      cases s.input with
      | nil => exact ⟨.inl rfl, .inl rfl⟩
      | cons word input =>
          obtain ⟨hgate, hlogic⟩ := onWord_parts { s with console := .read, input := input } word
          exact ⟨.inl hgate, .inl hlogic⟩
  | ended => exact ⟨.inl rfl, .inl rfl⟩
  | runGate | stopGate | quitGate =>
      simp only
      split_ifs <;> simp
  | runLogic | stopLogic | quitLogic =>
      simp only
      split_ifs <;> simp

/-- What a step is for the Gate: a step of its own, or none. -/
theorem gate_step (rt : Runtime) (z : ℤ) (s : ServerMain) (a : Act) :
    ∃ made, (s.step rt z a).gate = run (GateProcess.step rt z) s.gate made := by
  cases a with
  | main nowt =>
      rcases (mainStep_parts z s nowt).1 with hsame | hstep
      · exact ⟨[], hsame⟩
      · exact ⟨[.main nowt], hstep⟩
  | mngr r nowt => exact ⟨[.mngr r nowt], rfl⟩
  | gateWorker i r nowt => exact ⟨[.worker i r nowt], rfl⟩
  | io => exact ⟨[], rfl⟩
  | logicWorker => exact ⟨[], rfl⟩
  | wake => exact ⟨[], rfl⟩

/-- The same for the Logic. -/
theorem logic_step (rt : Runtime) (z : ℤ) (s : ServerMain) (a : Act) :
    ∃ made, (s.step rt z a).logic = run (LogicProcess.step z) s.logic made := by
  cases a with
  | main nowt =>
      rcases (mainStep_parts z s nowt).2 with hsame | hstep
      · exact ⟨[], hsame⟩
      · exact ⟨[.main nowt], hstep⟩
  | mngr => exact ⟨[], rfl⟩
  | gateWorker => exact ⟨[], rfl⟩
  | io msgs nowt => exact ⟨[.io msgs nowt], rfl⟩
  | logicWorker dosthId nowt => exact ⟨[.worker 0 dosthId nowt], rfl⟩
  | wake => exact ⟨[.wake 0], rfl⟩

/-- The threads of the Gate and of the Logic are where they can be. -/
structure Parts (s : ServerMain) : Prop where
  gate : s.gate.Sane
  logic : s.logic.Sound
  oneWorker : s.logic.workers.length = 1

theorem parts_step (h : Parts s) (a : Act) : Parts (s.step rt z a) := by
  obtain ⟨gateMade, hgate⟩ := gate_step rt z s a
  obtain ⟨logicMade, hlogic⟩ := logic_step rt z s a
  refine ⟨?_, ?_, ?_⟩
  · rw [hgate]
    exact run_invariant (I := GateProcess.Sane) (fun _ b hg => GateProcess.sane_step hg b) h.gate
      gateMade
  · rw [hlogic]
    exact run_invariant (I := LogicProcess.Sound) (fun _ b hl => LogicProcess.sound_step hl b) h.logic
      logicMade
  · rw [hlogic]
    exact run_invariant (I := fun l : LogicProcess => l.workers.length = 1)
      (fun l b hl => (LogicProcess.length_step l b).trans hl) h.oneWorker logicMade

theorem parts_init (runGate runLogic : Bool) (sockFd : Int32) (tname : List UInt8)
    (input : List String) : Parts (init runGate runLogic sockFd tname input) :=
  ⟨GateProcess.sane_init sockFd, LogicProcess.sound_init [tname], rfl⟩

theorem sane_step (h : Sane runGate runLogic s) (a : Act) :
    Sane runGate runLogic (s.step rt z a) := by
  have hgate : ∀ b : GateProcess.Act, b.party ≠ some .main →
      Sane runGate runLogic { s with gate := s.gate.step rt z b } := by
    intro b hb
    refine ⟨?_, h.logicOk, h.once⟩
    show GateOk _ _ _ (s.gate.step rt z b).main _
    rw [GateProcess.main_step rt z hb]
    exact h.gateOk
  have hlogic : ∀ b : LogicProcess.Act, b.party 1 ≠ some .main →
      Sane runGate runLogic { s with logic := s.logic.step z b } := by
    intro b hb
    refine ⟨h.gateOk, ?_, h.once⟩
    show LogicOk _ _ _ (s.logic.step z b).main _
    rw [(LogicProcess.moves_step hb).main]
    exact h.logicOk
  cases a with
  | main nowt => exact sane_mainStep h nowt
  | mngr r nowt => exact hgate _ (by simp [GateProcess.Act.party])
  | gateWorker i r nowt => exact hgate _ (by simp [GateProcess.Act.party])
  | io msgs nowt => exact hlogic _ (by simp [LogicProcess.Act.party])
  | logicWorker dosthId nowt => exact hlogic _ (by simp [LogicProcess.Act.party])
  | wake => exact hlogic _ (by simp [LogicProcess.Act.party])

theorem sane_init (runGate runLogic : Bool) (sockFd : Int32) (tname : List UInt8)
    (input : List String) : Sane runGate runLogic (init runGate runLogic sockFd tname input) where
  gateOk := by
    cases runGate with
    | true => exact ⟨rfl, rfl, List.not_mem_nil⟩
    | false => exact List.not_mem_nil
  logicOk := by
    cases runLogic with
    | true => exact ⟨rfl, rfl, List.not_mem_nil⟩
    | false => exact List.not_mem_nil
  once := List.nodup_nil

/-- At the end a Gate that runs has been stopped, and no other. -/
theorem GateOk.ended {run set : Bool} {main : GateMain} {stops : List Component}
    (h : GateOk run set .ended main stops) :
    (.gate ∈ stops ↔ run = true) ∧ (run = true → main = .returned) := by
  cases set with
  | true => exact ⟨iff_of_true h.2.2 h.1, fun _ => h.2.1⟩
  | false =>
      cases run with
      | true => exact ⟨iff_of_true h.2 rfl, fun _ => h.1⟩
      | false => exact ⟨iff_of_false h Bool.false_ne_true, fun hrun => by cases hrun⟩

theorem LogicOk.ended {run set : Bool} {main : MainPc} {stops : List Component}
    (h : LogicOk run set .ended main stops) :
    (.logic ∈ stops ↔ run = true) ∧ (run = true → main = .returned) := by
  cases set with
  | true => exact ⟨iff_of_true h.2.2 h.1, fun _ => h.2.1⟩
  | false =>
      cases run with
      | true => exact ⟨iff_of_true h.2 rfl, fun _ => h.1⟩
      | false => exact ⟨iff_of_false h Bool.false_ne_true, fun hrun => by cases hrun⟩

/-- **How things stand when the process ends.** In every interleaving, and whatever is
typed, `stop()` is called once for the Gate and once for the Logic at most. When
`server_tests()` is through, it has been called exactly for those that run; all their
threads have then ended. The workers have been joined once each, and the threads of the
Logic in order; the `GateMngr` is joined where the main thread leaves `Gate::stop()`. -/
theorem ended_clean (rt : Runtime) (z : ℤ) (runGate runLogic : Bool) (sockFd : Int32)
    (tname : List UInt8) (input : List String) (acts : List Act) :
    let s := run (step rt z) (init runGate runLogic sockFd tname input) acts
    s.stops.Nodup ∧
      (s.console = .ended →
        (.gate ∈ s.stops ↔ runGate = true) ∧ (.logic ∈ s.stops ↔ runLogic = true) ∧
        (runGate = true → s.gate.mngr.pos = .ended ∧ (∀ t ∈ s.gate.workers, t.pos = .ended) ∧
          s.gate.joined = List.range s.gate.workers.length) ∧
        (runLogic = true → s.logic.io.pos = .ended ∧ (∀ t ∈ s.logic.workers, t.pos = .ended) ∧
          s.logic.joined = [none, some 0])) := by
  intro s
  obtain ⟨hs, hparts⟩ : Sane runGate runLogic s ∧ Parts s :=
    run_invariant (I := fun s => Sane runGate runLogic s ∧ Parts s)
      (fun _ a h => ⟨sane_step h.1 a, parts_step h.2 a⟩)
      ⟨sane_init .., parts_init ..⟩ acts
  refine ⟨hs.once, fun hended => ?_⟩
  have hg := hs.gateOk
  have hl := hs.logicOk
  rw [hended] at hg hl
  refine ⟨hg.ended.1, hl.ended.1, fun hrun => ?_, fun hrun => ?_⟩
  · have hpos := hparts.gate.mainPhase
    rw [hg.ended.2 hrun] at hpos
    have hphase := hparts.gate.mngrPhase
    rw [hpos] at hphase
    exact ⟨hpos, hphase.1.forall_mem, hphase.2⟩
  · have hphase := hparts.logic.sane.phase
    rw [hl.ended.2 hrun] at hphase
    obtain ⟨hio, hworkers, hjoined⟩ := hphase
    refine ⟨hio, Thread.AllAt.forall_mem hworkers, ?_⟩
    rw [hjoined, LogicProcess.indices, hparts.oneWorker]
    rfl

end ServerMain

end Rubo.Server
