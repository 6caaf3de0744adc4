import Rubo.Server.Descriptors

/-!
# Who Owns a Connection

A descriptor that GateIO has accepted is served by GateIO until the login or the
verification, and by a worker afterwards. Nothing else looks after it: one that
has no owner is never read again and never closed.

- `owned_of_along`: every open descriptor has exactly one owner, in every run in
  which each verification starts its worker, each login finds one, and no new
  connection gets the number a worker keeps of its Logic connection.
- `not_owned_zeroWorkers`: a login without workers leaves its connection to
  nobody.
-/

namespace Rubo.Server.GateIO

open Rubo.Foundation Rubo.Msgs Rubo.Util

variable (rt : Runtime) {g g' : GateIO}

/-! ## Owners -/

/-- Who looks after a descriptor. -/
inductive Owner where
  /-- It is a key of `_unlogin_users` and in the epoll set of GateIO. -/
  | gate
  /-- It is the `_logic_fd` of the worker. -/
  | logic (worker : ℕ)
  /-- It was handed to the worker, and GateIO does not watch it. -/
  | user (worker : ℕ)
  deriving DecidableEq, Repr

/-- The workers whose `_logic_fd` is the descriptor. -/
def logicsUnder (wokers : List GateWorker) (fd : Int32) : List ℕ :=
  ((wokers.map GateWorker.getLogicfd).zipIdx.filter fun c => c.1 = fd).map Prod.snd

/-- The owners of a descriptor that was handed to these workers. -/
def owners (g : GateIO) (fd : Int32) (workers : List ℕ) : List Owner :=
  (if (g.unloginUsers.find fd).isSome && g.tcpOp.watches fd then [.gate] else []) ++
    ((logicsUnder g.wokers fd).map .logic ++
      if g.tcpOp.watches fd then [] else workers.map .user)

/-- Every open descriptor has exactly one owner. -/
def Owned (s : Traced) : Prop :=
  ∀ fd workers, (Ledger.of s.2).conns.find fd = some workers →
    ∃ owner, owners s.1 fd workers = [owner]

/-! ## The condition -/

/-- A new connection does not get the descriptor number a worker keeps of its
Logic connection, each verification starts its worker, and each login finds a
worker that knows the descriptor or can take one more user. -/
def connsTaken : Condition where
  accept s fd := fd ∉ s.1.wokers.map GateWorker.getLogicfd
  reply workerInit s msg := ∀ user ∈ s.1.getUnloginUser msg.sfd,
    (IsVerified msg → workerInit (s.1.node user).sfd = true) ∧
      (IsLogin msg → ∃ w ∈ s.1.wokers,
        (w.isFdIn (s.1.node user).sfd || w.getLogicfd == (s.1.node user).sfd) = true ∨
          w.fdNum < Comm.uintMax)
  worker _ _ _ := True

instance (s : Traced) (fd : Int32) : Decidable (connsTaken.accept s fd) :=
  inferInstanceAs (Decidable (¬ _ ∈ _))

instance (f : Int32 → Bool) (s : Traced) (msg : UserMsg) : Decidable (connsTaken.reply f s msg) :=
  inferInstanceAs (Decidable (∀ _ ∈ _, _ ∧ _))

instance (s : Traced) (i : ℕ) (r : WorkerRound) : Decidable (connsTaken.worker s i r) :=
  inferInstanceAs (Decidable True)

/-! ## The invariant -/

/-- Where the connection under an open descriptor is, and which workers it was
handed to. -/
inductive Custody (g : GateIO) (fd : Int32) : List ℕ → Prop
  | gate : (g.unloginUsers.find fd).isSome = true → g.tcpOp.watches fd = true →
      logicsUnder g.wokers fd = [] → Custody g fd []
  | logic {i : ℕ} : g.unloginUsers.find fd = none → logicsUnder g.wokers fd = [i] →
      Custody g fd []
  | user {i : ℕ} : g.unloginUsers.find fd = none → g.tcpOp.watches fd = false →
      logicsUnder g.wokers fd = [] → Custody g fd [i]

theorem Custody.exists_owner {fd : Int32} {workers : List ℕ} (h : Custody g fd workers) :
    ∃ owner, owners g fd workers = [owner] := by
  cases h with
  | gate hfind hwatch hlogics => exact ⟨.gate, by simp [owners, hfind, hwatch, hlogics]⟩
  | @logic i hfind hlogics => exact ⟨.logic i, by simp [owners, hfind, hlogics]⟩
  | @user i hfind hwatch hlogics => exact ⟨.user i, by simp [owners, hfind, hwatch, hlogics]⟩

/-- A connection stays where it is if its entries stay. -/
theorem Custody.congr {fd : Int32} {workers : List ℕ} (h : Custody g fd workers)
    (hfind : g'.unloginUsers.find fd = g.unloginUsers.find fd)
    (hwatch : g'.tcpOp.watches fd = g.tcpOp.watches fd)
    (hlogics : logicsUnder g'.wokers fd = logicsUnder g.wokers fd) : Custody g' fd workers := by
  cases h with
  | gate hf hw hl => exact .gate (hfind ▸ hf) (hwatch.trans hw) (hlogics.trans hl)
  | logic hf hl => exact .logic (hfind.trans hf) (hlogics.trans hl)
  | user hf hw hl => exact .user (hfind.trans hf) (hwatch.trans hw) (hlogics.trans hl)

theorem logicsUnder_congr {ws ws' : List GateWorker}
    (h : ws'.map GateWorker.getLogicfd = ws.map GateWorker.getLogicfd) (fd : Int32) :
    logicsUnder ws' fd = logicsUnder ws fd := by
  unfold logicsUnder
  rw [h]

theorem logicsUnder_eq_nil {ws : List GateWorker} {fd : Int32}
    (h : fd ∉ ws.map GateWorker.getLogicfd) : logicsUnder ws fd = [] := by
  unfold logicsUnder
  rw [List.map_eq_nil_iff, List.filter_eq_nil_iff]
  intro c hc hfd
  apply h
  rw [← of_decide_eq_true hfd]
  exact List.fst_mem_of_mem_zipIdx hc

theorem logicsUnder_concat (ws : List GateWorker) (logicFd fd : Int32) :
    logicsUnder (ws ++ [GateWorker.init logicFd]) fd =
      logicsUnder ws fd ++ if logicFd = fd then [ws.length] else [] := by
  unfold logicsUnder
  rw [List.map_append, List.zipIdx_append, List.filter_append, List.map_append]
  by_cases h : logicFd = fd <;> simp [GateWorker.getLogicfd, GateWorker.init, h]

/-- What holds between any two stages. -/
structure Placed (s : Traced) : Prop where
  keyed : Keyed s.1
  custody : ∀ fd workers, (Ledger.of s.2).conns.find fd = some workers → Custody s.1 fd workers

theorem placed_init (sockFd : Int32) : Placed (init sockFd, []) where
  keyed := keyed_init sockFd
  custody _ _ hopen := by cases hopen

theorem Placed.closes {log : List Movement} {fds : List Int32} (h : Placed (g, log))
    (hc : Closes g g' fds) : Placed (g', log ++ fds.map .closed) where
  keyed := h.keyed.of_closes hc
  custody fd workers hopen := by
    obtain ⟨hconns, _⟩ := Ledger.foldl_closed fds (Ledger.of log)
    rw [Ledger.of_append, hconns] at hopen
    split_ifs at hopen with hfd
    -- a descriptor that is still open was not touched
    exact (h.custody fd workers hopen).congr (hc.kept fd hfd) (hc.watches fd hfd)
      (logicsUnder_congr (Mild.map_getLogicfd hc.wokers) fd)

theorem Placed.accepts {log : List Movement} {fd : Int32} (h : Placed (g, log))
    (ha : Accepts g g' fd) (hfree : fd ∉ g.wokers.map GateWorker.getLogicfd) :
    Placed (g', log ++ [.accepted fd]) where
  keyed := h.keyed.of_accepts ha
  custody d workers hopen := by
    simp only [Ledger.of_concat, Ledger.note, Table.find_set] at hopen
    split_ifs at hopen with hd
    · -- the new connection waits for its login
      obtain rfl := Option.some.inj hopen
      subst hd
      refine .gate ?_ ?_ ?_
      · simp [ha.unloginUsers, Table.find_insert]
      · simp [ha.watches]
      · rw [ha.wokers]
        exact logicsUnder_eq_nil hfree
    · apply (h.custody d workers hopen).congr
      · simp [ha.unloginUsers, Table.find_insert, hd]
      · simp [ha.watches, hd]
      · rw [ha.wokers]

/-- The connection that leaves waited for its login. -/
theorem Custody.of_leaves {msg : UserMsg} {fd : Int32} {workers : List ℕ}
    (h : Custody g fd workers) (hk : Keyed g) (hl : Leaves g g' msg fd) :
    workers = [] ∧ logicsUnder g.wokers fd = [] := by
  obtain ⟨_, p, hp, _⟩ := hl.find hk
  cases h with
  | gate _ _ hlogics => exact ⟨rfl, hlogics⟩
  | logic hfind _ => rw [hp] at hfind; cases hfind
  | user hfind _ _ => rw [hp] at hfind; cases hfind

/-- Nothing changes for the other descriptors. -/
theorem Custody.leaves_of_ne {msg : UserMsg} {fd d : Int32} {workers : List ℕ}
    (h : Custody g d workers) (hl : Leaves g g' msg fd) (hd : d ≠ fd)
    (hlogics : logicsUnder g'.wokers d = logicsUnder g.wokers d) : Custody g' d workers := by
  apply h.congr _ (hl.watches d hd) hlogics
  rw [hl.unloginUsers, Table.find_erase, if_neg hd]

theorem Placed.replies {log ms : List Movement} {f : Int32 → Bool} {msg : UserMsg}
    (h : Placed (g, log)) (hr : Replied f g g' msg ms) (hc : connsTaken.reply f (g, log) msg) :
    Placed (g', log ++ ms) := by
  refine ⟨h.keyed.of_replied hr, ?_⟩
  have hfree : ∀ {fd}, Leaves g g' msg fd → g'.unloginUsers.find fd = none := by
    intro fd hl
    simp [hl.unloginUsers, Table.find_erase]
  cases hr with
  | unchanged hcloses =>
      have hsame := (h.closes hcloses).custody
      simpa using hsame
  | @verified fd hmsg hl hinit hwokers =>
      intro d workers hopen
      rw [Ledger.of_concat] at hopen
      have hcust := h.custody d workers hopen
      by_cases hd : d = fd
      · -- the new worker is its owner
        subst hd
        obtain ⟨rfl, hlogics⟩ := hcust.of_leaves h.keyed hl
        have hown : logicsUnder g'.wokers d = [g.wokers.length] := by
          rw [hwokers, logicsUnder_concat, hlogics]
          simp
        exact .logic (hfree hl) hown
      · apply hcust.leaves_of_ne hl hd
        rw [hwokers, logicsUnder_concat, if_neg (Ne.symm hd), List.append_nil]
  | @dropped fd hmsg hl hinit hwokers =>
      obtain ⟨p, hp, hfd⟩ := hl.user
      have hstarts := (hc p hp).1 hmsg
      rw [hfd, hinit] at hstarts
      cases hstarts
  | @handed fd uid i hmsg hl hworker hwokers hwatch =>
      have hlogics : ∀ d, logicsUnder g'.wokers d = logicsUnder g.wokers d := by
        rw [hwokers]
        apply logicsUnder_congr
        exact map_modify_eq (f := handOver fd uid) (fun _ => rfl) g.wokers i
      intro d workers hopen
      rw [Ledger.of_concat, Ledger.note] at hopen
      by_cases hd : d = fd
      · -- the worker chosen is its owner
        subst hd
        cases hconn : (Ledger.of log).conns.find d with
        | none => simp [hconn] at hopen
        | some ws =>
            obtain ⟨rfl, hnone⟩ := (h.custody d ws hconn).of_leaves h.keyed hl
            obtain rfl : [i] = workers := by simpa [hconn] using hopen
            exact .user (hfree hl) hwatch ((hlogics d).trans hnone)
      · have hold : (Ledger.of log).conns.find d = some workers := by
          cases hconn : (Ledger.of log).conns.find fd with
          | none => simpa [hconn] using hopen
          | some ws => simpa [hconn, Table.find_set, hd] using hopen
        exact (h.custody d workers hold).leaves_of_ne hl hd (hlogics d)
  | @stranded fd hmsg hl hworker hwokers =>
      obtain ⟨p, hp, hfd⟩ := hl.user
      have hfound := (hc p hp).2 hmsg
      rw [hfd] at hfound
      exact absurd hworker (Comm.findWorker_ne_none hfound)

theorem Placed.worker {log : List Movement} {i : ℕ} {r : WorkerRound} (h : Placed (g, log)) :
    Placed (tracedStep rt (g, log) (.worker i r)) := by
  cases hw : g.wokers[i]? with
  | none =>
      rw [tracedStep_worker_none rt hw]
      exact h
  | some w =>
      rw [tracedStep_worker rt hw]
      refine ⟨h.keyed.of_find rfl (fun _ => rfl) (fun _ _ => id), ?_⟩
      intro fd workers hopen
      obtain ⟨hconns, _⟩ := Ledger.foldl_closed (workerClosed rt w { r with ioevs := [] }) (Ledger.of log)
      simp only [workerMovements, Ledger.of_append, List.foldl_append, Ledger.foldl_forwarded,
        hconns] at hopen
      split_ifs at hopen with hfd
      refine (h.custody fd workers hopen).congr rfl (watches_foldl_delEpev _ _ fd hfd) ?_
      apply logicsUnder_congr
      exact map_modify_eq (fun w => (GateWorker.threadLoop_inbox rt w _).1) _ _

theorem stepInvariant_placed : StepInvariant rt connsTaken Placed where
  closes h hc := h.closes hc
  accepts h ha hfree := h.accepts ha hfree
  replies h hr hc := h.replies hr hc
  worker h _ := h.worker rt

/-- **No connection is left without an owner, and none has two**, in every run in
which each new connection has a descriptor that no worker keeps as that of its
Logic connection, each verification starts its worker, and each login finds one. -/
theorem owned_of_along {sockFd : Int32} {acts : List Act}
    (h : Along (tracedStep rt) (connsTaken.On rt) (init sockFd, []) acts) :
    Owned (Rubo.Foundation.run (tracedStep rt) (init sockFd, []) acts) := by
  have hplaced := run_invariant_of_along (I := Placed)
    (fun _ _ hs hc => (stepInvariant_placed rt).step hs hc) (placed_init sockFd) h
  intro fd workers hopen
  exact (hplaced.custody fd workers hopen).exists_owner

/-! ## Runs on fixed inputs -/

/-- The client of `clientLogsIn` reaches its worker and hangs up. The next client
gets its descriptor. -/
def clientReplaced : List Act :=
  clientLogsIn ++
    [.worker 0 {},
     .worker 0 { ready := .one ⟨5, true, false⟩, io := fun _ => { reads := [.eof] } },
     .io { ready := .one ⟨3, true, false⟩, accepts := [.conn 5 "" 0 true] }]

/-- In `clientReplaced` the second client is open at the end, and has an owner. -/
theorem owned_clientReplaced :
    Owned (Rubo.Foundation.run (tracedStep .proto2) (init 3, []) clientReplaced) ∧
      (Ledger.of (Rubo.Foundation.run (tracedStep .proto2) (init 3, []) clientReplaced).2).conns.find
        5 = some [] := by
  constructor
  · apply owned_of_along
    decide +kernel
  · decide +kernel

/-- A client logs in before any Logic server is there. -/
def zeroWorkers : List Act :=
  [.io { ready := .one ⟨3, true, false⟩, accepts := [.conn 5 "" 0 true] },
   .io { ready := .one ⟨5, true, false⟩
         io := fun _ => { reads := [.data loginFrame.encode] }
         dbs := [oneUserDb] }]

/-- Connections can lose their owner: the client of `zeroWorkers` is no longer in
`_unlogin_users`, no worker has it, and its descriptor is open. -/
theorem not_owned_zeroWorkers :
    ¬ ∀ (rt : Runtime) (sockFd : Int32) (acts : List Act),
      Owned (Rubo.Foundation.run (tracedStep rt) (init sockFd, []) acts) := by
  intro h
  have hopen : (Ledger.of (Rubo.Foundation.run (tracedStep .proto2) (init 3, []) zeroWorkers).2).conns.find
      5 = some [] := by decide +kernel
  have hnone : owners (Rubo.Foundation.run (tracedStep .proto2) (init 3, []) zeroWorkers).1 5 [] = [] := by
    decide +kernel
  obtain ⟨owner, howner⟩ := h .proto2 3 zeroWorkers 5 [] hopen
  rw [hnone] at howner
  cases howner

end Rubo.Server.GateIO
