import Rubo.Server.ServerMain

/-!
# Whether a Server Process Ends

`server_tests()` ends when `quit` is typed, and then only when both `stop()` calls
return. A `stop()` that was called before, for `gateoff` or `logicoff`, has to return
first; words behind it are read when it has. The two live in one process, but a
`stop()` waits for threads of its own component only, whatever those of the other do.

`ends_iff`: in every fair run the process ends if and only if `quit` is typed.
-/

namespace Rubo.Server

open Rubo.Foundation Rubo.Msgs Rubo.Util

/-- How far the main thread is from its end, with so many words left to be read. -/
def Console.left (words : ℕ) : Console → ℕ
  | .runGate => 2 * words + 5
  | .runLogic => 2 * words + 4
  | .read => 2 * words + 3
  | .stopGate | .stopLogic => 2 * words + 4
  | .quitLogic => 2
  | .quitGate => 1
  | .ended => 0

/-- `quit` has been read. -/
def Console.Quitting : Console → Prop
  | .quitLogic | .quitGate | .ended => True
  | .runGate | .runLogic | .read | .stopGate | .stopLogic => False

namespace ServerMain

/-- The threads a schedule has to be fair to. -/
inductive Party where
  | main
  | mngr
  | gateWorker (i : ℕ)
  | io
  | logicWorker
  deriving DecidableEq

instance : Countable Party := by
  have hinj : Function.Injective fun p : Party => match p with
      | .main => 0
      | .mngr => 1
      | .io => 2
      | .logicWorker => 3
      | .gateWorker i => i + 4 := by
    intro p q hpq
    cases p <;> cases q <;> simp_all
  exact hinj.countable

instance : Nonempty Party := ⟨.main⟩

def Act.party : Act → Option Party
  | .main _ => some .main
  | .mngr _ _ => some .mngr
  | .gateWorker i _ _ => some (.gateWorker i)
  | .io _ _ => some .io
  | .logicWorker _ _ => some .logicWorker
  | .wake => none

/-- The threads of the Gate, in the process. -/
def ofGate : GateProcess.Party → Party
  | .main => .main
  | .mngr => .mngr
  | .worker i => .gateWorker i

/-- The threads of the Logic, in the process. -/
def ofLogic : LogicProcess.Party 1 → Party
  | .main => .main
  | .io => .io
  | .worker _ => .logicWorker

theorem ofGate_injective : Function.Injective ofGate := by
  intro p q h
  cases p <;> cases q <;> simp_all [ofGate]

theorem ofLogic_injective : Function.Injective ofLogic := by
  intro p q h
  cases p <;> cases q <;> simp_all [ofLogic]
  exact Subsingleton.elim _ _

variable (s : ServerMain)

/-- In whose `run()` or `stop()` the main thread is, if more than one step is needed. -/
def waitsFor : Option Component :=
  match s.console with
  | .stopGate => some .gate
  | .quitGate => if s.gateSet then some .gate else none
  | .stopLogic => some .logic
  | .runLogic | .quitLogic => if s.logicSet then some .logic else none
  | .runGate | .read | .ended => none

/-- What is left to do, for the main thread and in the call it is in. -/
def distance : ℕ × (ℕ × ℕ × ℕ × ℕ) × (ℕ × ℕ × ℕ) :=
  (s.console.left s.input.length, match s.waitsFor with
    | some .gate => (s.gate.distance, 0)
    | some .logic => (0, s.logic.distance)
    | none => (0, 0))

/-- Compared place by place. -/
def Nearer : ℕ × (ℕ × ℕ × ℕ × ℕ) × (ℕ × ℕ × ℕ) → ℕ × (ℕ × ℕ × ℕ × ℕ) × (ℕ × ℕ × ℕ) → Prop :=
  Prod.Lex (· < ·) (Prod.Lex GateProcess.Nearer LogicProcess.Nearer)

theorem wellFounded_nearer : WellFounded Nearer :=
  (Nat.lt_wfRel.wf).prod_lex
    (GateProcess.wellFounded_nearer.prod_lex LogicProcess.wellFounded_nearer)

/-- Whose step brings the end nearer. -/
def helpful : Party :=
  match s.waitsFor with
  | some .gate => ofGate s.gate.helpful
  | some .logic => ofLogic (s.logic.helpful 1)
  | none => .main

/-- The step brings the end nearer, or leaves everything to the helpful party. -/
def Helps (rt : Runtime) (z : ℤ) (a : Act) : Prop :=
  Nearer (s.step rt z a).distance s.distance ∨
    a.party ≠ some s.helpful ∧ (s.step rt z a).distance = s.distance ∧
      (s.step rt z a).helpful = s.helpful

variable {s} {rt : Runtime} {z : ℤ} {runGate runLogic : Bool} {a : Act}

/-! ## Steps that help -/

theorem helps_of_left (h : (s.step rt z a).console.left (s.step rt z a).input.length <
    s.console.left s.input.length) : s.Helps rt z a :=
  .inl (.left _ _ h)

/-- A step of the Gate, while the main thread is in a call to it. -/
theorem helps_gate (hparts : Parts s) (hwaits : s.waitsFor = some .gate)
    (hmain : s.gate.main ≠ .returned) (b : GateProcess.Act)
    (hparty : a.party = b.party.map ofGate)
    (hstep : s.step rt z a = { s with gate := s.gate.step rt z b }) : s.Helps rt z a := by
  have hwaits' : (s.step rt z a).waitsFor = some .gate := by
    rw [hstep]
    exact hwaits
  unfold Helps distance helpful
  rw [hwaits', hwaits, hstep]
  have hhelps : GateProcess.Helps rt z s.gate b := GateProcess.helps hparts.gate hmain b
  rcases hhelps with hnear | ⟨hne, hdist, hhelp⟩
  · exact .inl (.right _ (.left _ _ hnear))
  · refine .inr ⟨?_, ?_, congrArg ofGate hhelp⟩
    · rw [hparty]
      intro heq
      obtain ⟨p, hp, hof⟩ := Option.map_eq_some_iff.mp heq
      exact hne (hp.trans (congrArg some (ofGate_injective hof)))
    · simp only [hdist]

/-- A step of the Logic, while the main thread is in a call to it. -/
theorem helps_logic (hparts : Parts s) (hwaits : s.waitsFor = some .logic)
    (hmain : s.logic.main ≠ .returned) (b : LogicProcess.Act)
    (hparty : a.party = (b.party 1).map ofLogic)
    (hstep : s.step rt z a = { s with logic := s.logic.step z b }) : s.Helps rt z a := by
  have hwaits' : (s.step rt z a).waitsFor = some .logic := by
    rw [hstep]
    exact hwaits
  unfold Helps distance helpful
  rw [hwaits', hwaits, hstep]
  have hhelps : LogicProcess.Helps z 1 s.logic b :=
    LogicProcess.helps hparts.logic hparts.oneWorker (Nat.le_refl 1) hmain b
  rcases hhelps with hnear | ⟨hne, hdist, hhelp⟩
  · exact .inl (.right _ (.right _ hnear))
  · refine .inr ⟨?_, ?_, congrArg ofLogic hhelp⟩
    · rw [hparty]
      intro heq
      obtain ⟨p, hp, hof⟩ := Option.map_eq_some_iff.mp heq
      exact hne (hp.trans (congrArg some (ofLogic_injective hof)))
    · simp only [hdist]

/-! ## Whom the main thread waits for -/

/-- A call it is in has not returned. -/
theorem Sane.gate_main (h : Sane runGate runLogic s) (hwaits : s.waitsFor = some .gate) :
    s.gate.main ≠ .returned := by
  have hg := h.gateOk
  unfold waitsFor at hwaits
  cases hc : s.console with
  | stopGate =>
      rw [hc] at hg
      cases hset : s.gateSet with
      | true => rw [hset] at hg; exact hg.2.1
      | false => rw [hset] at hg; exact hg.elim
  | quitGate =>
      simp only [hc] at hwaits
      split_ifs at hwaits with hset
      rw [hc, hset] at hg
      exact hg.2.1
  | runLogic | quitLogic => simp only [hc] at hwaits; split_ifs at hwaits; cases hwaits
  | runGate | read | stopLogic | ended => simp only [hc] at hwaits; cases hwaits

theorem Sane.logic_main (h : Sane runGate runLogic s) (hwaits : s.waitsFor = some .logic) :
    s.logic.main ≠ .returned := by
  have hl := h.logicOk
  unfold waitsFor at hwaits
  cases hc : s.console with
  | stopLogic =>
      rw [hc] at hl
      cases hset : s.logicSet with
      | true => rw [hset] at hl; exact hl.2.1
      | false => rw [hset] at hl; exact hl.elim
  | quitLogic =>
      simp only [hc] at hwaits
      split_ifs at hwaits with hset
      rw [hc, hset] at hl
      exact hl.2.1
  | runLogic =>
      simp only [hc] at hwaits
      split_ifs at hwaits with hset
      rw [hc, hset] at hl
      obtain ⟨-, hpc | ⟨is, hpc⟩, -⟩ := hl <;> rw [hpc] <;> exact MainPc.noConfusion
  | quitGate => simp only [hc] at hwaits; split_ifs at hwaits; cases hwaits
  | runGate | read | stopGate | ended => simp only [hc] at hwaits; cases hwaits

/-! ## Every step -/

/-- A word is read. -/
theorem left_onWord (hread : s.console = .read) (word : String) :
    (s.onWord word).console.left (s.onWord word).input.length < 2 * (s.input.length + 1) + 3 := by
  unfold onWord
  split_ifs <;> simp only [Console.left, hread] <;> omega

/-- A step of the main thread: it gets further, or it is in a call, or there is nothing to
read, or nothing left to do. -/
theorem mainStep_cases (s : ServerMain) (nowt : ℤ) :
    (s.mainStep z nowt).console.left (s.mainStep z nowt).input.length <
        s.console.left s.input.length ∨
      s.waitsFor = some .gate ∧ s.mainStep z nowt = { s with gate := s.gate.mainStep z nowt } ∨
      s.waitsFor = some .logic ∧ s.mainStep z nowt = { s with logic := s.logic.mainStep z nowt } ∨
      s.console = .read ∧ s.input = [] ∨ s.console = .ended := by
  unfold mainStep waitsFor
  cases hc : s.console with
  | runGate =>
      left
      simp only
      split_ifs <;> exact Nat.lt_succ_self _
  | runLogic =>
      simp only
      split_ifs with hset hrunning
      · exact .inl (Nat.lt_succ_self _)
      · exact .inr (.inr (.inl ⟨rfl, rfl⟩))
      · exact .inl (Nat.lt_succ_self _)
  | read =>
      cases hinput : s.input with
      | nil => exact .inr (.inr (.inr (.inl ⟨rfl, rfl⟩)))
      | cons word input =>
          exact .inl (left_onWord (s := { s with console := .read, input := input }) rfl word)
  | stopGate =>
      simp only
      split_ifs with hreturned
      · exact .inl (Nat.lt_succ_self _)
      · exact .inr (.inl ⟨trivial, rfl⟩)
  | stopLogic =>
      simp only
      split_ifs with hreturned
      · exact .inl (Nat.lt_succ_self _)
      · exact .inr (.inr (.inl ⟨trivial, rfl⟩))
  | quitLogic =>
      simp only
      split_ifs with hset hreturned
      · exact .inl (Nat.lt_succ_self _)
      · exact .inr (.inr (.inl ⟨rfl, rfl⟩))
      · exact .inl (Nat.lt_succ_self _)
  | quitGate =>
      simp only
      split_ifs with hset hreturned
      · exact .inl (Nat.lt_succ_self _)
      · exact .inr (.inl ⟨rfl, rfl⟩)
      · exact .inl (Nat.lt_succ_self _)
  | ended => exact .inr (.inr (.inr (.inr rfl)))

/-- `quit` has been read, or will be. -/
def Pending (s : ServerMain) : Prop := s.console.Quitting ∨ ∃ word ∈ s.input, IsQuit word

theorem helps_main (h : Sane runGate runLogic s) (hparts : Parts s) (hpending : s.Pending)
    (hended : s.console ≠ .ended) (nowt : ℤ) : s.Helps rt z (.main nowt) := by
  rcases mainStep_cases (z := z) s nowt with hleft | ⟨hwaits, heq⟩ | ⟨hwaits, heq⟩ |
    ⟨hread, hinput⟩ | hdone
  · exact helps_of_left hleft
  · exact helps_gate hparts hwaits (h.gate_main hwaits) (.main nowt) rfl heq
  · exact helps_logic hparts hwaits (h.logic_main hwaits) (.main nowt) rfl heq
  · -- the input does not end before `quit`
    rcases hpending with hquitting | ⟨word, hword, -⟩
    · rw [hread] at hquitting
      exact hquitting.elim
    · rw [hinput] at hword
      exact absurd hword List.not_mem_nil
  · exact absurd hdone hended

/-- Another thread of the Gate makes a step. It is of no account unless the Gate is
waited for. -/
theorem helps_ofGate (h : Sane runGate runLogic s) (hparts : Parts s) (b : GateProcess.Act)
    (hparty : a.party = b.party.map ofGate) (hmain : a.party ≠ some .main)
    (hnot : ∀ p, a.party ≠ some (ofLogic p))
    (hstep : s.step rt z a = { s with gate := s.gate.step rt z b }) : s.Helps rt z a := by
  have hwaits' : (s.step rt z a).waitsFor = s.waitsFor := by
    rw [hstep]
    rfl
  cases hwaits : s.waitsFor with
  | none =>
      unfold Helps distance helpful
      rw [hwaits', hwaits, hstep]
      exact .inr ⟨hmain, rfl, rfl⟩
  | some c =>
      cases c with
      | gate => exact helps_gate hparts hwaits (h.gate_main hwaits) b hparty hstep
      | logic =>
          unfold Helps distance helpful
          rw [hwaits', hwaits, hstep]
          exact .inr ⟨hnot _, rfl, rfl⟩

/-- The same for the Logic. -/
theorem helps_ofLogic (h : Sane runGate runLogic s) (hparts : Parts s) (b : LogicProcess.Act)
    (hparty : a.party = (b.party 1).map ofLogic) (hmain : a.party ≠ some .main)
    (hnot : ∀ p, a.party ≠ some (ofGate p))
    (hstep : s.step rt z a = { s with logic := s.logic.step z b }) : s.Helps rt z a := by
  have hwaits' : (s.step rt z a).waitsFor = s.waitsFor := by
    rw [hstep]
    rfl
  cases hwaits : s.waitsFor with
  | none =>
      unfold Helps distance helpful
      rw [hwaits', hwaits, hstep]
      exact .inr ⟨hmain, rfl, rfl⟩
  | some c =>
      cases c with
      | logic => exact helps_logic hparts hwaits (h.logic_main hwaits) b hparty hstep
      | gate =>
          unfold Helps distance helpful
          rw [hwaits', hwaits, hstep]
          exact .inr ⟨hnot _, rfl, rfl⟩

/-- **Every step helps**, as long as `quit` has been read or will be. -/
theorem helps (h : Sane runGate runLogic s) (hparts : Parts s) (hpending : s.Pending)
    (hended : s.console ≠ .ended) (a : Act) : s.Helps rt z a := by
  cases a with
  | main nowt => exact helps_main h hparts hpending hended nowt
  | mngr r nowt =>
      refine helps_ofGate h hparts (.mngr r nowt) rfl (by simp [Act.party]) (fun p => ?_) rfl
      cases p <;> simp [Act.party, ofLogic]
  | gateWorker i r nowt =>
      refine helps_ofGate h hparts (.worker i r nowt) rfl (by simp [Act.party]) (fun p => ?_) rfl
      cases p <;> simp [Act.party, ofLogic]
  | io msgs nowt =>
      refine helps_ofLogic h hparts (.io msgs nowt) rfl (by simp [Act.party]) (fun p => ?_) rfl
      cases p <;> simp [Act.party, ofGate]
  | logicWorker dosthId nowt =>
      refine helps_ofLogic h hparts (.worker 0 dosthId nowt) rfl (by simp [Act.party])
        (fun p => ?_) rfl
      cases p <;> simp [Act.party, ofGate]
  | wake =>
      exact helps_ofLogic h hparts (.wake 0) rfl (by simp [Act.party]) (by simp [Act.party]) rfl

/-! ## Runs -/

theorem pending_onWord (hread : s.console = .read) (word : String) :
    (s.onWord word).Pending ↔ IsQuit word ∨ s.Pending := by
  unfold onWord Pending
  split_ifs with hquit <;> simp [hquit, hread, Console.Quitting]

/-- Whether the process will end is settled with what is typed. -/
theorem pending_step (rt : Runtime) (z : ℤ) (s : ServerMain) (a : Act) :
    (s.step rt z a).Pending ↔ s.Pending := by
  cases a with
  | main nowt =>
      show (s.mainStep z nowt).Pending ↔ s.Pending
      unfold mainStep
      cases hc : s.console with
      | read =>
          cases hinput : s.input with
          | nil => exact Iff.rfl
          | cons word input =>
              refine (pending_onWord (s := { s with console := .read, input := input }) rfl
                word).trans ?_
              simp [Pending, hc, hinput, Console.Quitting]
      | ended => exact Iff.rfl
      | runGate | runLogic | stopGate | stopLogic | quitLogic | quitGate =>
          simp only
          split_ifs <;> simp [Pending, hc, Console.Quitting, toQuitGate]
  | mngr | gateWorker | io | logicWorker | wake => exact Iff.rfl

theorem pending_init (runGate runLogic : Bool) (sockFd : Int32) (tname : List UInt8)
    (input : List String) :
    (init runGate runLogic sockFd tname input).Pending ↔ ∃ word ∈ input, IsQuit word :=
  or_iff_right id

/-- **When the process ends**: in every fair run, if and only if `quit` is among the words
that are typed, whatever stands before it. -/
theorem ends_iff (rt : Runtime) (z : ℤ) (runGate runLogic : Bool) (sockFd : Int32)
    (tname : List UInt8) (input : List String) {acts : ℕ → Act} (hfair : Fair Act.party acts) :
    (∃ k, (after (step rt z) (init runGate runLogic sockFd tname input) acts k).console =
      .ended) ↔ ∃ word ∈ input, IsQuit word := by
  constructor
  · rintro ⟨k, hended⟩
    have hpending := after_invariant
      (I := fun s : ServerMain => s.Pending → ∃ word ∈ input, IsQuit word)
      (fun s a h => h ∘ (pending_step rt z s a).mp)
      (pending_init runGate runLogic sockFd tname input).mp acts k
    apply hpending
    left
    rw [hended]
    trivial
  · intro hquit
    have hprogress : Helpful (step rt z) Act.party
        (fun s => Sane runGate runLogic s ∧ Parts s ∧ s.Pending) (fun s => s.console = .ended)
        Nearer distance helpful :=
      ⟨fun s a h => ⟨sane_step h.1 a, parts_step h.2.1 a, (pending_step rt z s a).mpr h.2.2⟩,
        fun _ a h hended => helps h.1 h.2.1 h.2.2 hended a⟩
    exact hprogress.eventually wellFounded_nearer
      ⟨sane_init .., parts_init .., (pending_init ..).mpr hquit⟩ hfair

/-- The Gate is stopped first, and then the process. -/
theorem ends_iff_gateoff :
    ∃ acts, Fair Act.party acts ∧
      ∃ k, (after (step .proto2 0) (init true true 3 [] ["gateoff", "quit"]) acts k).console =
        .ended := by
  have hturn : ∀ p : Party, ∃ a : Act, a.party = some p := by
    intro p
    cases p with
    | main => exact ⟨.main 0, rfl⟩
    | mngr => exact ⟨.mngr {} 0, rfl⟩
    | gateWorker i => exact ⟨.gateWorker i {} 0, rfl⟩
    | io => exact ⟨.io [] 0, rfl⟩
    | logicWorker => exact ⟨.logicWorker none 0, rfl⟩
  obtain ⟨acts, hfair⟩ := exists_fair hturn
  have hends := ends_iff .proto2 0 true true 3 [] ["gateoff", "quit"] hfair
  exact ⟨acts, hfair, hends.mpr ⟨"quit", List.mem_cons_of_mem _ List.mem_cons_self, .inl rfl⟩⟩

end ServerMain

end Rubo.Server
