import Rubo.Server.GateIOSteps
import Rubo.Server.GateConns

/-!
# Descriptors and What Becomes of Them

A connection changes hands by its descriptor number alone, and the kernel gives
a number that was closed to the next connection. So the Gate is followed with a
log of what each step does with which number (`Movement`), and `Ledger` says
which connections that makes.

- `Closes`, `Accepts` and `Replied` are what the stages of a round can do to the
  tables;
- `StepInvariant` is the rule for properties of the tables and the log.
-/

namespace Rubo.Server.GateIO

open Rubo.Foundation Rubo.Msgs Rubo.Util

variable (rt : Runtime)

/-! ## The log of a run -/

/-- What is done with a descriptor. -/
inductive Movement where
  /-- `accept()` has returned a connection under it. -/
  | accepted (fd : Int32)
  /-- GateIO or a worker has closed it. -/
  | closed (fd : Int32)
  /-- A worker has been started for the Logic connection under it. -/
  | verified (fd : Int32)
  /-- A worker has been handed a CONNECT event for it. -/
  | handed (fd : Int32) (worker : ℕ)
  /-- A worker has written a message for Logic to it. -/
  | forwarded (fd : Int32) (worker : ℕ)
  deriving DecidableEq, Repr

def Movement.acceptedFd : Movement → Option Int32
  | .accepted fd => some fd
  | _ => none

/-- The descriptors closed between two states. -/
def closesOf (t t' : TcpOp) : List Movement := (t.closedSince t').map .closed

/-- A reply to a successful verification. -/
def IsVerified (msg : UserMsg) : Prop :=
  msg.msgId = ProtocolDefine.systemVerifyRsp.toInt ∧ msg.msg.isOK = true

instance (msg : UserMsg) : Decidable (IsVerified msg) := inferInstanceAs (Decidable (_ ∧ _))

instance (msg : UserMsg) : Decidable (IsLogin msg) := inferInstanceAs (Decidable (_ ∧ _))

/-- One event of `epoll_one`. -/
def acceptMovements (s : GateIO × List AcceptRes) (ev : EpollEvent) : List Movement :=
  let (g, accepts) := s
  if ev.fd = g.tcpOp.sockFd then
    match g.tcpOp.accept (accepts.headD .fail) with
    | (some node, _) => [.accepted node.sfd]
    -- a connection that cannot be set up is closed at once
    | (none, tcpOp) => closesOf g.tcpOp tcpOp
  else []

/-- One user of the loop of `handler_data`. -/
def serveMovements (io : Int32 → KernelIo) (g : GateIO) (user : Ptr) : List Movement :=
  closesOf g.tcpOp (g.serveUnlogin io user).tcpOp

/-- One user of `handler_unlogin_msgs`. -/
def parseMovements (s : GateIO × List MysqlDb) (user : Ptr) : List Movement :=
  closesOf s.1.tcpOp (parseUnlogin rt s user).1.tcpOp

/-- One message of `handler_replys`. -/
def replyMovements (workerInit : Int32 → Bool) (s : GateIO × List WriteRes) (msg : UserMsg) :
    List Movement :=
  let g := s.1
  match g.getUnloginUser msg.sfd with
  | none => []
  | some user =>
    let fd := (g.node user).sfd
    if IsVerified msg then
      if workerInit fd = false then [] else [.verified fd]
    else if IsLogin msg then
      match g.getWorker fd with
      | none => []
      | some worker => [.handed fd worker]
    else []

/-- A round of a worker: `handler_msgs`, which comes last, writes what the other
stages have gathered to `_logic->_sock`. -/
def workerMovements (w : GateWorker) (i : ℕ) (r : WorkerRound) : List Movement :=
  let v := w.gathered rt r
  (workerClosed rt w r).map .closed ++
    v.userMsgsIn.map fun _ => .forwarded (v.node v.logic).sfd i

/-- The state in which a round begins to reply. -/
def beforeReplying (g : GateIO) (r : IoRound) : GateIO :=
  (g.beforeParsing r).handlerUnloginMsgs rt r.dbs

/-- The part of a round before the replies. -/
def movementsBefore (g : GateIO) (r : IoRound) : List Movement :=
  let g₁ := g.epollOne r.events r.accepts
  let g₂ := g.beforeParsing r
  logOf epollEvent acceptMovements (g, r.accepts) r.events ++
    (logOf (serveUnlogin r.io) (serveMovements r.io) g₁ g₁.unloginEvents ++
      logOf (parseUnlogin rt) (parseMovements rt) (g₂, r.dbs) g₂.unloginReads)

/-- One step of the Gate. -/
def movements (g : GateIO) : Act → List Movement
  | .io r =>
    let g₃ := g.beforeReplying rt r
    g.movementsBefore rt r ++
      logOf (handlerReply rt r.workerInit) (replyMovements r.workerInit) (g₃, r.writes) g₃.rspMsgs
  | .worker i r =>
    match g.wokers[i]? with
    | none => []
    | some w => workerMovements rt w i { r with ioevs := [] }

/-- The Gate and the log of its descriptors. -/
abbrev Traced := GateIO × List Movement

/-- The Gate and the outcomes of `accept` still to come. -/
abbrev Accepting := GateIO × List AcceptRes

/-- The Gate and the kernel's answers still to come. -/
abbrev Replying := GateIO × List WriteRes

/-- A step of the Gate, with its log. -/
def tracedStep : Traced → Act → Traced := logged (step rt) (movements rt)

/-! ## The ledger -/

/-- What the log amounts to: the descriptors that are open, with the workers each
was handed to since it was accepted, and for each worker the descriptor of its
Logic connection and whether that connection is still open. -/
structure Ledger where
  conns : Table Int32 (List ℕ)
  logics : List (Int32 × Bool)

namespace Ledger

def empty : Ledger := ⟨.empty, []⟩

/-- Whether the descriptor is open. -/
def isOpen (l : Ledger) (fd : Int32) : Bool := (l.conns.find fd).isSome

def note (l : Ledger) : Movement → Ledger
  | .accepted fd => { l with conns := l.conns.set fd [] }
  | .closed fd =>
    { conns := l.conns.erase fd
      logics := l.logics.map fun c => (c.1, c.2 && decide (c.1 ≠ fd)) }
  | .verified fd => { l with logics := l.logics ++ [(fd, l.isOpen fd)] }
  | .handed fd worker =>
    match l.conns.find fd with
    | none => l
    | some workers => { l with conns := l.conns.set fd (workers ++ [worker]) }
  | .forwarded _ _ => l

/-- The ledger of a log. -/
def of (log : List Movement) : Ledger := log.foldl note empty

theorem of_append (log log' : List Movement) : of (log ++ log') = log'.foldl note (of log) :=
  List.foldl_append

theorem of_concat (log : List Movement) (m : Movement) : of (log ++ [m]) = (of log).note m :=
  of_append log [m]

/-- Closing takes the descriptors out and ends the Logic connections under them. -/
theorem foldl_closed (fds : List Int32) (l : Ledger) :
    (∀ fd, ((fds.map Movement.closed).foldl note l).conns.find fd =
        if fd ∈ fds then none else l.conns.find fd) ∧
      ((fds.map Movement.closed).foldl note l).logics =
        l.logics.map fun c => (c.1, c.2 && decide (c.1 ∉ fds)) := by
  induction fds generalizing l with
  | nil => simp
  | cons fd fds ih =>
      obtain ⟨hconns, hlogics⟩ := ih (l.note (.closed fd))
      rw [List.map_cons, List.foldl_cons]
      refine ⟨?_, ?_⟩
      · intro fd'
        rw [hconns]
        by_cases hfd : fd' = fd <;> simp [note, Table.find_erase, hfd]
      · rw [hlogics]
        simp only [note, List.map_map]
        apply List.map_congr_left
        intro c _
        by_cases hfd : c.1 = fd <;> simp [hfd]

/-- Forwarding opens and closes nothing. -/
theorem foldl_forwarded {α : Type*} (msgs : List α) (fd : Int32) (i : ℕ) (l : Ledger) :
    (msgs.map fun _ => Movement.forwarded fd i).foldl note l = l := by
  induction msgs with
  | nil => rfl
  | cons _ _ ih => simpa [note] using ih

end Ledger

/-! ## What a stage can do -/

/-- The worker is the same up to its inbox, which has no new CONNECT event. -/
structure Mild (w w' : GateWorker) : Prop where
  eq : w' = { w with eventsIo := w'.eventsIo, ioevsIn := w'.ioevsIn }
  connects : ∀ ev ∈ w'.ioevsIn ++ w'.eventsIo, ev.event.has FdEvent.connect = true →
    ev ∈ w.ioevsIn ++ w.eventsIo

theorem Mild.refl (w : GateWorker) : Mild w w := ⟨rfl, fun _ hev _ => hev⟩

theorem Mild.forall₂_refl (ws : List GateWorker) : List.Forall₂ Mild ws ws :=
  List.forall₂_same.mpr fun w _ => .refl w

/-- Stages that at most close descriptors. -/
structure Closes (g g' : GateIO) (fds : List Int32) : Prop where
  next : g'.heap.next = g.heap.next
  sfd : ∀ p, (g'.node p).sfd = (g.node p).sfd
  find : ∀ fd p, g'.unloginUsers.find fd = some p → g.unloginUsers.find fd = some p
  kept : ∀ fd ∉ fds, g'.unloginUsers.find fd = g.unloginUsers.find fd
  watches : ∀ fd ∉ fds, g'.tcpOp.watches fd = g.tcpOp.watches fd
  wokers : List.Forall₂ Mild g.wokers g'.wokers

/-- `on_accept()` with a new connection. -/
structure Accepts (g g' : GateIO) (fd : Int32) : Prop where
  next : g'.heap.next = g.heap.next + 1
  sfd : ∀ p, (g'.node p).sfd = if p = g.heap.next then fd else (g.node p).sfd
  unloginUsers : g'.unloginUsers = g.unloginUsers.insert fd g.heap.next
  watches : ∀ d, g'.tcpOp.watches d = (d == fd || g.tcpOp.watches d)
  wokers : g'.wokers = g.wokers

/-- The connection answered leaves `_unlogin_users`. -/
structure Leaves (g g' : GateIO) (msg : UserMsg) (fd : Int32) : Prop where
  next : g'.heap.next = g.heap.next
  sfd : ∀ p, (g'.node p).sfd = (g.node p).sfd
  user : ∃ p, g.unloginUsers.find msg.sfd = some p ∧ (g.node p).sfd = fd
  unloginUsers : g'.unloginUsers = g.unloginUsers.erase fd
  watches : ∀ d, d ≠ fd → g'.tcpOp.watches d = g.tcpOp.watches d

/-- A worker with one more CONNECT event. -/
def handOver (fd uid : Int32) (w : GateWorker) : GateWorker :=
  { w with
    eventsIo := w.eventsIo ++ [{ uid := uid, sfd := fd, event := FdEvent.connect }]
    fdSet := insert fd w.fdSet }

/-- What one reply can do to the tables. -/
inductive Replied (workerInit : Int32 → Bool) (g g' : GateIO) (msg : UserMsg) :
    List Movement → Prop
  | unchanged : Closes g g' [] → Replied workerInit g g' msg []
  | verified {fd : Int32} : IsVerified msg → Leaves g g' msg fd → workerInit fd = true →
      g'.wokers = g.wokers ++ [GateWorker.init fd] → Replied workerInit g g' msg [.verified fd]
  /-- The worker could not start. -/
  | dropped {fd : Int32} : IsVerified msg → Leaves g g' msg fd → workerInit fd = false →
      g'.wokers = g.wokers → Replied workerInit g g' msg []
  | handed {fd uid : Int32} {i : ℕ} : IsLogin msg → Leaves g g' msg fd →
      g.getWorker fd = some i → g'.wokers = g.wokers.modify i (handOver fd uid) →
      g'.tcpOp.watches fd = false → Replied workerInit g g' msg [.handed fd i]
  /-- There was no worker. -/
  | stranded {fd : Int32} : IsLogin msg → Leaves g g' msg fd →
      g.getWorker fd = none → g'.wokers = g.wokers → Replied workerInit g g' msg []

theorem Mild.forall₂_modify {f : GateWorker → GateWorker} (hf : ∀ w, Mild w (f w))
    (ws : List GateWorker) (i : ℕ) : List.Forall₂ Mild ws (ws.modify i f) := by
  induction ws generalizing i with
  | nil => cases i <;> exact .nil
  | cons w ws ih =>
      cases i with
      | zero => exact .cons (hf w) (forall₂_refl ws)
      | succ i => exact .cons (.refl w) (ih i)

theorem Mild.forall₂_map {f : GateWorker → GateWorker} (hf : ∀ w, Mild w (f w))
    (ws : List GateWorker) : List.Forall₂ Mild ws (ws.map f) := by
  induction ws with
  | nil => exact .nil
  | cons w ws ih => exact .cons (hf w) ih

variable {g g' : GateIO}

theorem Closes.refl (g : GateIO) : Closes g g [] :=
  ⟨rfl, fun _ => rfl, fun _ _ => id, fun _ _ => rfl, fun _ _ => rfl, Mild.forall₂_refl _⟩

/-! ## The stages -/

/-- Stages that only change the lists of a round, the message centre or the node of
a user. -/
theorem Closes.of_eq {fds : List Int32} (hnext : g'.heap.next = g.heap.next)
    (hsfd : ∀ p, (g'.node p).sfd = (g.node p).sfd) (husers : g'.unloginUsers = g.unloginUsers)
    (hwatches : ∀ fd ∉ fds, g'.tcpOp.watches fd = g.tcpOp.watches fd)
    (hwokers : List.Forall₂ Mild g.wokers g'.wokers) : Closes g g' fds :=
  ⟨hnext, hsfd, fun _ _ h => husers ▸ h, fun _ _ => by rw [husers], hwatches, hwokers⟩

theorem sfd_setNode {user : Ptr} {sock : SocketNode} (h : sock.sfd = (g.node user).sfd) (p : Ptr) :
    ((g.setNode user sock).node p).sfd = (g.node p).sfd := by
  rw [node_setNode]
  split_ifs with hp
  · rw [h, hp]
  · rfl

/-- An event of a descriptor is no CONNECT event. -/
theorem has_connect_mark (ev : EpollEvent) :
    (ev.mark FdEvent.none).has FdEvent.connect = false := by
  -- the descriptor does not matter
  have hall : ∀ canRead canWrite : Bool,
      (EpollEvent.mark ⟨0, canRead, canWrite⟩ FdEvent.none).has FdEvent.connect = false := by decide
  exact hall ev.canRead ev.canWrite

/-- **One event** of `epoll_one`. -/
theorem moves_epollEvent (s : GateIO × List AcceptRes) (ev : EpollEvent) :
    (∃ fds, acceptMovements s ev = fds.map .closed ∧ Closes s.1 (epollEvent s ev).1 fds) ∨
      ∃ fd, acceptMovements s ev = [.accepted fd] ∧ Accepts s.1 (epollEvent s ev).1 fd := by
  obtain ⟨g, accepts⟩ := s
  unfold acceptMovements epollEvent
  simp only
  split_ifs
  · -- the listening socket
    have haccept := g.tcpOp.accept_epoll (accepts.headD .fail)
    unfold onAccept
    generalize g.tcpOp.accept (accepts.headD .fail) = a at haccept ⊢
    obtain ⟨_ | node, t⟩ := a
    · obtain ⟨fds, hclosed, hwatches⟩ := haccept
      refine .inl ⟨fds, ?_, Closes.of_eq rfl (fun _ => rfl) rfl hwatches (Mild.forall₂_refl _)⟩
      simp only [closesOf, TcpOp.closedSince_of_append hclosed]
    · refine .inr ⟨node.sfd, rfl, rfl, ?_, rfl, haccept.2, rfl⟩
      intro p
      show ((g.heap.alloc { sock := some node }).2.obj p).node.sfd = _
      rw [Heap.obj_alloc]
      split_ifs <;> rfl
  · refine .inl ⟨[], rfl, ?_⟩
    split
    · next user _ =>
      -- a connection that has not logged in is marked
      have hsfd := @sfd_setNode g user { g.node user with event := ev.mark (g.node user).event } rfl
      exact Closes.of_eq rfl hsfd rfl (fun _ _ => rfl) (Mild.forall₂_refl _)
    · unfold loginedSockop
      split
      · exact .refl g
      · have hmild : ∀ w : GateWorker, Mild w { w with
            eventsIo := w.eventsIo ++ [{ sfd := ev.fd, event := ev.mark FdEvent.none }] } := by
          intro w
          refine ⟨rfl, ?_⟩
          intro ev' hev' hconnect
          -- the new event is none of CONNECT
          rcases List.mem_append.mp hev' with hin | hio
          · exact List.mem_append_left _ hin
          · rcases List.mem_append.mp hio with hio | hnew
            · exact List.mem_append_right _ hio
            · rw [List.mem_singleton.mp hnew, has_connect_mark] at hconnect
              cases hconnect
        exact Closes.of_eq rfl (fun _ => rfl) rfl (fun _ _ => rfl) (Mild.forall₂_modify hmild _ _)

/-- **One user** of the loop of `handler_data`. -/
theorem closes_serveUnlogin (io : Int32 → KernelIo) (g : GateIO) (user : Ptr) :
    ∃ fds, serveMovements io g user = fds.map .closed ∧ Closes g (g.serveUnlogin io user) fds := by
  obtain ⟨hclosed, hwatches⟩ := TcpOp.eventOp_epoll g.tcpOp (g.node user) (io (g.node user).sfd)
  obtain ⟨delta, hgrown, _⟩ := TcpOp.grown_eventOp g.tcpOp (g.node user) (io (g.node user).sfd)
  unfold serveMovements serveUnlogin
  generalize g.tcpOp.eventOp (g.node user) (io (g.node user).sfd) = op at hclosed hwatches hgrown ⊢
  obtain ⟨ret, tcpOp, sock⟩ := op
  simp only at hclosed hwatches hgrown ⊢
  have hsfd := @sfd_setNode g user sock hgrown.sfd
  by_cases herror : ret.has FdEvent.error = true
  · -- the descriptor is closed, and whoever is stored under it erased
    rw [if_pos herror] at hclosed ⊢
    refine ⟨[(g.node user).sfd], ?_, rfl, hsfd, ?_, ?_, ?_, Mild.forall₂_refl _⟩
    · exact congrArg _ (TcpOp.closedSince_of_append hclosed)
    · intro fd p hp
      exact (Table.find_erase_eq_some.mp hp).2
    · intro fd hfd
      have hne : fd ≠ (g.node user).sfd := by simpa using hfd
      have hsame : ((g.setNode user sock).node user).sfd = (g.node user).sfd := hsfd user
      show (g.unloginUsers.erase ((g.setNode user sock).node user).sfd).find fd = _
      rw [hsame, Table.find_erase, if_neg hne]
    · intro fd hfd
      have hne : fd ≠ (g.node user).sfd := by simpa using hfd
      show tcpOp.watches fd = _
      simp [hwatches, hne]
  · have hnone : closesOf g.tcpOp tcpOp = [] := by
      rw [if_neg herror] at hclosed
      exact congrArg _ (TcpOp.closedSince_of_append hclosed)
    have hsame : ∀ fd, tcpOp.watches fd = g.tcpOp.watches fd := by simp [hwatches, herror]
    rw [if_neg herror]
    refine ⟨[], ?_, ?_⟩
    · split_ifs <;> exact hnone
    · split_ifs <;>
        exact Closes.of_eq rfl hsfd rfl (fun fd _ => hsame fd) (Mild.forall₂_refl _)

/-- **One user** of `handler_unlogin_msgs`. -/
theorem closes_parseUnlogin (s : GateIO × List MysqlDb) (user : Ptr) :
    ∃ fds, parseMovements rt s user = fds.map .closed ∧
      Closes s.1 (parseUnlogin rt s user).1 fds := by
  have hj := judged_parseUnlogin rt s user
  obtain ⟨v, hparsed, hparse⟩ := parseUnlogin_eq rt s user
  have hfunc : ∀ msg msgFunc, verdictOn rt s.1 user = .handle msg msgFunc →
      Gate.getMsgHandler msg.msgId = some msgFunc := fun _ _ => verdictOn_handle
  obtain ⟨_, _, happly⟩ := apply_spec (g := v) s.2 user hfunc
  obtain ⟨buff, hnode, _⟩ := hparsed.node
  have hsfd : (v.node user).sfd = (s.1.node user).sfd := by rw [hnode]
  have htcp : v.tcpOp = s.1.tcpOp := by rw [hparsed.fields]
  have hwokers : (parseUnlogin rt s user).1.wokers = s.1.wokers := by
    rw [hparse, happly, hparsed.fields]
  have hop : (parseUnlogin rt s user).1.tcpOp = if (verdictOn rt s.1 user).isKick = true then
      s.1.tcpOp.closeOp (s.1.node user).sfd else s.1.tcpOp := by
    rw [hparse, happly, hsfd, htcp]
  have hall : List.Forall₂ Mild s.1.wokers (parseUnlogin rt s user).1.wokers := by
    rw [hwokers]
    exact Mild.forall₂_refl _
  have husers := hj.unloginUsers
  by_cases hkick : (verdictOn rt s.1 user).isKick = true
  · rw [if_pos hkick] at hop husers
    refine ⟨[(s.1.node user).sfd], ?_, hj.next, fun p => (hj.received p).2, ?_, ?_, ?_, hall⟩
    · rw [parseMovements, hop]
      exact congrArg _ (TcpOp.closedSince_of_append rfl)
    · intro fd p hp
      rw [husers] at hp
      exact (Table.find_erase_eq_some.mp hp).2
    · intro fd hfd
      have hne : fd ≠ (s.1.node user).sfd := by simpa using hfd
      rw [husers, Table.find_erase, if_neg hne]
    · intro fd hfd
      have hne : fd ≠ (s.1.node user).sfd := by simpa using hfd
      simp [hop, TcpOp.watches_closeOp, hne]
  · rw [if_neg hkick] at hop husers
    refine ⟨[], ?_, Closes.of_eq hj.next (fun p => (hj.received p).2) husers ?_ hall⟩
    · rw [parseMovements, hop]
      exact congrArg _ (TcpOp.closedSince_of_append (List.append_nil _).symm)
    · intro fd _
      rw [hop]

/-- The state in which the reply is written, which changes the node of the user only. -/
structure Written (v g' : GateIO) : Prop where
  next : g'.heap.next = v.heap.next
  sfd : ∀ p, (g'.node p).sfd = (v.node p).sfd
  unloginUsers : g'.unloginUsers = v.unloginUsers
  watches : ∀ fd, g'.tcpOp.watches fd = v.tcpOp.watches fd
  wokers : g'.wokers = v.wokers

theorem written_writeMsg (v : GateIO) (user : Ptr) (msg : UserMsg) (writes : List WriteRes) :
    Written v { v.setNode user (v.tcpOp.writeMsg rt.toProtobuf (v.node user) msg writes).2.2.1 with
      tcpOp := (v.tcpOp.writeMsg rt.toProtobuf (v.node user) msg writes).2.1 } where
  next := rfl
  sfd := sfd_setNode (TcpOp.kept_writeMsg rt.toProtobuf v.tcpOp (v.node user) msg writes).sfd
  unloginUsers := rfl
  watches _ := rfl
  wokers := rfl

theorem Leaves.of_written {v : GateIO} {msg : UserMsg} {fd : Int32} (h : Leaves g v msg fd)
    (hw : Written v g') : Leaves g g' msg fd where
  next := hw.next.trans h.next
  sfd p := (hw.sfd p).trans (h.sfd p)
  user := h.user
  unloginUsers := hw.unloginUsers.trans h.unloginUsers
  watches d hd := (hw.watches d).trans (h.watches d hd)

theorem watches_delEpev (t : TcpOp) (sockFd fd : Int32) :
    (t.delEpev sockFd).watches fd = (fd != sockFd && t.watches fd) := TcpOp.watches_closeOp t sockFd fd

theorem Replied.of_written {v : GateIO} {workerInit : Int32 → Bool} {msg : UserMsg}
    {ms : List Movement} (h : Replied workerInit g v msg ms) (hw : Written v g') :
    Replied workerInit g g' msg ms := by
  cases h with
  | unchanged hc =>
      refine .unchanged ⟨hw.next.trans hc.next, fun p => (hw.sfd p).trans (hc.sfd p), ?_, ?_,
        fun fd hfd => (hw.watches fd).trans (hc.watches fd hfd), hw.wokers ▸ hc.wokers⟩
      · intro fd p hp
        exact hc.find fd p (hw.unloginUsers ▸ hp)
      · intro fd hfd
        rw [hw.unloginUsers]
        exact hc.kept fd hfd
  | verified hmsg hleave hinit hwokers =>
      exact .verified hmsg (hleave.of_written hw) hinit (hw.wokers.trans hwokers)
  | dropped hmsg hleave hinit hwokers =>
      exact .dropped hmsg (hleave.of_written hw) hinit (hw.wokers.trans hwokers)
  | handed hmsg hleave hworker hwokers hwatch =>
      exact .handed hmsg (hleave.of_written hw) hworker (hw.wokers.trans hwokers)
        ((hw.watches _).trans hwatch)
  | stranded hmsg hleave hworker hwokers =>
      exact .stranded hmsg (hleave.of_written hw) hworker (hw.wokers.trans hwokers)

variable {msg : UserMsg} {user : Ptr}

theorem replied_onLogicVerifyed (workerInit : Int32 → Bool) (hmsg : IsVerified msg)
    (huser : g.unloginUsers.find msg.sfd = some user) :
    Replied workerInit g (g.onLogicVerifyed user workerInit) msg
      (if workerInit (g.node user).sfd = false then [] else [.verified (g.node user).sfd]) := by
  have hwatches : ∀ d, d ≠ (g.node user).sfd →
      (g.tcpOp.delEpev (g.node user).sfd).watches d = g.tcpOp.watches d := by
    intro d hd
    simp [watches_delEpev, hd]
  unfold onLogicVerifyed
  simp only
  split_ifs with hinit
  · exact .dropped hmsg ⟨rfl, fun _ => rfl, ⟨user, huser, rfl⟩, rfl, hwatches⟩ hinit rfl
  · exact .verified hmsg ⟨rfl, fun _ => rfl, ⟨user, huser, rfl⟩, rfl, hwatches⟩
      (by simpa using hinit) rfl

theorem replied_onUserLogined (workerInit : Int32 → Bool) (userId : Int32) (hmsg : IsLogin msg)
    (huser : g.unloginUsers.find msg.sfd = some user) :
    Replied workerInit g (g.onUserLogined user userId msg) msg
      (match g.getWorker (g.node user).sfd with
        | none => []
        | some worker => [.handed (g.node user).sfd worker]) := by
  have hwatches : ∀ d, (g.tcpOp.delEpev (g.node user).sfd).watches d =
      (d != (g.node user).sfd && g.tcpOp.watches d) := watches_delEpev g.tcpOp _
  unfold onUserLogined
  -- the choice does not look at `_unlogin_users`
  have hsame : getWorker { g with unloginUsers := g.unloginUsers.erase (g.node user).sfd }
      (g.node user).sfd = g.getWorker (g.node user).sfd := rfl
  simp only [hsame]
  cases hworker : g.getWorker (g.node user).sfd with
  | none =>
      exact .stranded hmsg ⟨rfl, fun _ => rfl, ⟨user, huser, rfl⟩, rfl, fun _ _ => rfl⟩ hworker rfl
  | some worker =>
      refine .handed hmsg ⟨rfl, fun _ => rfl, ⟨user, huser, rfl⟩, rfl, ?_⟩ hworker rfl ?_
      · intro d hd
        simp [modifyWorker, hwatches, hd]
      · simp [modifyWorker, hwatches]

/-- **One message** of `handler_replys`. -/
theorem replied_handlerReply (workerInit : Int32 → Bool) (s : GateIO × List WriteRes)
    (msg : UserMsg) :
    Replied workerInit s.1 (handlerReply rt workerInit s msg).1 msg
      (replyMovements workerInit s msg) := by
  obtain ⟨g, writes⟩ := s
  unfold handlerReply replyMovements
  simp only
  cases huser : g.getUnloginUser msg.sfd with
  | none => exact .unchanged (.refl g)
  | some user =>
      refine Replied.of_written ?_ (written_writeMsg rt (g.applyReply workerInit user msg) user msg writes)
      have hids : ProtocolDefine.systemVerifyRsp.toInt ≠ ProtocolDefine.userLoginRsp.toInt := by
        decide
      unfold applyReply
      by_cases hverified : IsVerified msg
      · simp only [if_pos hverified, if_pos hverified.1, if_pos hverified.2]
        exact replied_onLogicVerifyed workerInit hverified huser
      · by_cases hlogin : IsLogin msg
        · have hid : msg.msgId ≠ ProtocolDefine.systemVerifyRsp.toInt := hlogin.1 ▸ hids.symm
          simp only [if_neg hverified, if_neg hid, if_pos hlogin, if_pos hlogin.1, if_pos hlogin.2]
          exact replied_onUserLogined workerInit _ hlogin huser
        · -- any other reply is only written
          simp only [if_neg hverified, if_neg hlogin]
          split_ifs with hid hok hid' hok
          · exact absurd ⟨hid, hok⟩ hverified
          · exact .unchanged (.refl g)
          · exact absurd ⟨hid', hok⟩ hlogin
          · exact .unchanged (.refl g)
          · exact .unchanged (.refl g)

/-- Handing over moves events from one list of the inbox to the other. -/
theorem closes_notifyWorkers (g : GateIO) : Closes g g.notifyWorkers [] := by
  have hmild : ∀ w : GateWorker, Mild w (if w.eventsIo = [] then w else w.moveIoEventToIn) := by
    intro w
    split_ifs
    · exact .refl w
    · refine ⟨rfl, ?_⟩
      intro ev hev _
      simpa [GateWorker.moveIoEventToIn] using hev
  exact Closes.of_eq rfl (fun _ => rfl) rfl (fun _ _ => rfl) (Mild.forall₂_map hmild _)

theorem Mild.exists_of_mem {ws ws' : List GateWorker} (h : List.Forall₂ Mild ws ws')
    {w' : GateWorker} (hw' : w' ∈ ws') : ∃ w ∈ ws, Mild w w' := by
  induction h with
  | nil => cases hw'
  | cons hmild _ ih =>
      rcases List.mem_cons.mp hw' with rfl | hmem
      · exact ⟨_, List.mem_cons_self .., hmild⟩
      · obtain ⟨w, hw, hmild'⟩ := ih hmem
        exact ⟨w, List.mem_cons_of_mem _ hw, hmild'⟩

/-- The workers are the same ones, in the same order. -/
theorem Mild.map_getLogicfd {ws ws' : List GateWorker} (h : List.Forall₂ Mild ws ws') :
    ws'.map GateWorker.getLogicfd = ws.map GateWorker.getLogicfd := by
  induction h with
  | nil => rfl
  | cons hw _ ih =>
      rw [List.map_cons, List.map_cons, ih, hw.eq]
      rfl

/-! ## Users under their descriptors -/

/-- Each entry of `_unlogin_users` is stored under the descriptor of its user. -/
structure Keyed (g : GateIO) : Prop where
  sfd : ∀ {fd p}, g.unloginUsers.find fd = some p → (g.node p).sfd = fd
  lt : ∀ {fd p}, g.unloginUsers.find fd = some p → p < g.heap.next

theorem keyed_init (sockFd : Int32) : Keyed (init sockFd) := by
  refine ⟨?_, ?_⟩ <;>
    · intro fd p hp
      cases hp

theorem Keyed.of_find (h : Keyed g) (hnext : g'.heap.next = g.heap.next)
    (hsfd : ∀ p, (g'.node p).sfd = (g.node p).sfd)
    (hfind : ∀ fd p, g'.unloginUsers.find fd = some p → g.unloginUsers.find fd = some p) :
    Keyed g' where
  sfd hp := (hsfd _).trans (h.sfd (hfind _ _ hp))
  lt hp := by
    rw [hnext]
    exact h.lt (hfind _ _ hp)

theorem Keyed.of_closes (h : Keyed g) {fds : List Int32} (hc : Closes g g' fds) : Keyed g' :=
  h.of_find hc.next hc.sfd hc.find

theorem Keyed.of_leaves (h : Keyed g) {fd : Int32} (hl : Leaves g g' msg fd) : Keyed g' := by
  apply h.of_find hl.next hl.sfd
  intro d p hp
  rw [hl.unloginUsers] at hp
  exact (Table.find_erase_eq_some.mp hp).2

theorem Keyed.of_accepts (h : Keyed g) {fd : Int32} (ha : Accepts g g' fd) : Keyed g' := by
  -- an entry is the new user, or one that was there
  have hfind : ∀ {d p}, g'.unloginUsers.find d = some p →
      (d = fd ∧ p = g.heap.next) ∨ g.unloginUsers.find d = some p := by
    intro d p hp
    rw [ha.unloginUsers] at hp
    exact Table.find_insert_eq_some hp
  refine ⟨?_, ?_⟩
  · intro d p hp
    rw [ha.sfd]
    rcases hfind hp with ⟨rfl, rfl⟩ | hold
    · rw [if_pos rfl]
    · rw [if_neg (Nat.ne_of_lt (h.lt hold))]
      exact h.sfd hold
  · intro d p hp
    rw [ha.next]
    rcases hfind hp with ⟨_, rfl⟩ | hold
    · exact Nat.lt_succ_self _
    · exact Nat.lt_succ_of_lt (h.lt hold)

theorem Keyed.of_replied (h : Keyed g) {f : Int32 → Bool} {ms : List Movement}
    (hr : Replied f g g' msg ms) : Keyed g' := by
  cases hr with
  | unchanged hc => exact h.of_closes hc
  | verified _ hl _ _ => exact h.of_leaves hl
  | dropped _ hl _ _ => exact h.of_leaves hl
  | handed _ hl _ _ _ => exact h.of_leaves hl
  | stranded _ hl _ _ => exact h.of_leaves hl

/-- Whoever leaves was stored under its descriptor. -/
theorem Leaves.find {fd : Int32} (hl : Leaves g g' msg fd) (h : Keyed g) : msg.sfd = fd ∧
    ∃ p, g.unloginUsers.find fd = some p ∧ (g.node p).sfd = fd := by
  obtain ⟨p, hp, hfd⟩ := hl.user
  obtain rfl : msg.sfd = fd := (h.sfd hp).symm.trans hfd
  exact ⟨rfl, p, hp, hfd⟩

/-! ## Whole steps -/

/-- What a property of the tables and the log may rely on: about a descriptor
accepted, about a reply and about a round of a worker, each time in the state it
happens in. -/
structure Condition where
  accept : Traced → Int32 → Prop
  reply : (Int32 → Bool) → Traced → UserMsg → Prop
  worker : Traced → ℕ → WorkerRound → Prop

namespace Condition

variable (c : Condition)

/-- The condition on one event. -/
def onEvent (s : Accepting × List Movement) (ev : EpollEvent) : Prop :=
  ∀ fd ∈ (acceptMovements s.1 ev).filterMap Movement.acceptedFd, c.accept (s.1.1, s.2) fd

/-- The condition on one reply. -/
def onReply (workerInit : Int32 → Bool) (s : Replying × List Movement)
    (msg : UserMsg) : Prop :=
  c.reply workerInit (s.1.1, s.2) msg

/-- The condition on a step. -/
def On (s : Traced) : Act → Prop
  | .io r =>
    Along (logged epollEvent acceptMovements) c.onEvent ((s.1, r.accepts), s.2) r.events ∧
      Along (logged (handlerReply rt r.workerInit) (replyMovements r.workerInit))
        (c.onReply r.workerInit)
        ((s.1.beforeReplying rt r, r.writes), s.2 ++ s.1.movementsBefore rt r)
        (s.1.beforeReplying rt r).rspMsgs
  | .worker i r => c.worker s i { r with ioevs := [] }

/-- Two conditions at once. -/
def and (c c' : Condition) : Condition where
  accept s fd := c.accept s fd ∧ c'.accept s fd
  reply f s msg := c.reply f s msg ∧ c'.reply f s msg
  worker s i r := c.worker s i r ∧ c'.worker s i r

theorem on_and {c c' : Condition} {s : Traced} {a : Act} (h : c.On rt s a) (h' : c'.On rt s a) :
    (c.and c').On rt s a := by
  cases a with
  | worker i r => exact ⟨h, h'⟩
  | io r =>
      refine ⟨(h.1.and h'.1).mono ?_, h.2.and h'.2⟩
      intro s ev hboth fd hfd
      exact ⟨hboth.1 fd hfd, hboth.2 fd hfd⟩

section Decidable

variable {c} [∀ s fd, Decidable (c.accept s fd)] [∀ f s msg, Decidable (c.reply f s msg)]
  [∀ s i r, Decidable (c.worker s i r)]

instance (s : Accepting × List Movement) (ev : EpollEvent) :
    Decidable (c.onEvent s ev) :=
  -- by going through the list: `Int32` is finite, and instance search may try all of it
  List.decidableBAll (c.accept _) _

instance (f : Int32 → Bool) (s : Replying × List Movement) (msg : UserMsg) :
    Decidable (c.onReply f s msg) :=
  inferInstanceAs (Decidable (c.reply _ _ _))

instance (s : Traced) : (a : Act) → Decidable (c.On rt s a)
  | .io _ => inferInstanceAs (Decidable (_ ∧ _))
  | .worker _ _ => inferInstanceAs (Decidable (c.worker _ _ _))

end Decidable

end Condition

/-! ### Rounds of a worker -/

theorem watches_foldl_delEpev (fds : List Int32) (t : TcpOp) :
    ∀ fd ∉ fds, (fds.foldl TcpOp.delEpev t).watches fd = t.watches fd := by
  induction fds generalizing t with
  | nil => exact fun _ _ => rfl
  | cons d fds ih =>
      intro fd hfd
      simp only [List.mem_cons, not_or] at hfd
      rw [List.foldl_cons, ih _ fd hfd.2, watches_delEpev]
      simp [hfd.1]

/-- A round of a worker that exists. -/
theorem tracedStep_worker {w : GateWorker} {i : ℕ} {r : WorkerRound} (hw : g.wokers[i]? = some w)
    (log : List Movement) :
    let r' := { r with ioevs := [] }
    tracedStep rt (g, log) (.worker i r) =
      ({ g with
          wokers := g.wokers.modify i fun w => w.threadLoop rt r'
          tcpOp := (workerClosed rt w r').foldl TcpOp.delEpev g.tcpOp },
        log ++ workerMovements rt w i r') := by
  simp only [tracedStep, logged, movements, hw, step, modifyWorker]

/-- A worker that does not exist does nothing. -/
theorem tracedStep_worker_none {i : ℕ} {r : WorkerRound} (hw : g.wokers[i]? = none)
    (log : List Movement) : tracedStep rt (g, log) (.worker i r) = (g, log) := by
  simp [tracedStep, logged, movements, hw, step]

/-- A property of the tables and the log that every stage preserves. -/
structure StepInvariant (c : Condition) (I : Traced → Prop) : Prop where
  closes : ∀ {g g' log fds}, I (g, log) → Closes g g' fds → I (g', log ++ fds.map .closed)
  accepts : ∀ {g g' log fd}, I (g, log) → Accepts g g' fd → c.accept (g, log) fd →
    I (g', log ++ [.accepted fd])
  replies : ∀ {g g' log f msg ms}, I (g, log) → Replied f g g' msg ms → c.reply f (g, log) msg →
    I (g', log ++ ms)
  worker : ∀ {g log i r}, I (g, log) → c.worker (g, log) i { r with ioevs := [] } →
    I (tracedStep rt (g, log) (.worker i r))

section Steps

variable {rt} {c : Condition} {I : Traced → Prop}

theorem StepInvariant.quiet (hI : StepInvariant rt c I) {log : List Movement} (h : I (g, log))
    (hc : Closes g g' []) : I (g', log) := by
  have h' := hI.closes h hc
  rwa [List.map_nil, List.append_nil] at h'

/-- The loop of `epoll_one`. -/
theorem StepInvariant.accepting (hI : StepInvariant rt c I) {log : List Movement}
    {accepts : List AcceptRes} {events : List EpollEvent} (h : I (g, log))
    (hc : Along (logged epollEvent acceptMovements) c.onEvent ((g, accepts), log) events) :
    I (g.epollOne events accepts, log ++ logOf epollEvent acceptMovements (g, accepts) events) := by
  have hstep : ∀ (s : Accepting × List Movement) (ev : EpollEvent),
      I (s.1.1, s.2) → c.onEvent s ev → I ((epollEvent s.1 ev).1, s.2 ++ acceptMovements s.1 ev) := by
    intro s ev hs hev
    rcases moves_epollEvent s.1 ev with ⟨fds, hms, hmoves⟩ | ⟨fd, hms, hmoves⟩ <;> rw [hms]
    · exact hI.closes hs hmoves
    · apply hI.accepts hs hmoves
      exact hev fd (by simp [hms, Movement.acceptedFd])
  have hloop := run_invariant_of_along (I := fun s : Accepting × List Movement =>
    I (s.1.1, s.2)) hstep h hc
  rw [run_logged] at hloop
  exact hloop

/-- The loops of `handler_data` and `handler_unlogin_msgs`. -/
theorem StepInvariant.closing (hI : StepInvariant rt c I) {σ ι : Type} {f : σ → ι → σ}
    {emit : σ → ι → List Movement} (gate : σ → GateIO)
    (hf : ∀ s i, ∃ fds, emit s i = fds.map .closed ∧ Closes (gate s) (gate (f s i)) fds)
    (s : σ) {log : List Movement} (h : I (gate s, log)) (is : List ι) :
    I (gate (is.foldl f s), log ++ logOf f emit s is) := by
  have hstep : ∀ (s : σ × List Movement) (i : ι), I (gate s.1, s.2) →
      I (gate (f s.1 i), s.2 ++ emit s.1 i) := by
    intro s i hs
    obtain ⟨fds, hms, hmoves⟩ := hf s.1 i
    rw [hms]
    exact hI.closes hs hmoves
  have hloop : I (gate (Rubo.Foundation.run (logged f emit) (s, log) is).1,
      (Rubo.Foundation.run (logged f emit) (s, log) is).2) :=
    run_invariant (I := fun s : σ × List Movement => I (gate s.1, s.2)) hstep h is
  rw [run_logged] at hloop
  exact hloop

/-- The loop of `handler_replys`. -/
theorem StepInvariant.replying (hI : StepInvariant rt c I) {log : List Movement}
    {workerInit : Int32 → Bool} {writes : List WriteRes} {msgs : List UserMsg} (h : I (g, log))
    (hc : Along (logged (handlerReply rt workerInit) (replyMovements workerInit))
      (c.onReply workerInit) ((g, writes), log) msgs) :
    I ((msgs.foldl (handlerReply rt workerInit) (g, writes)).1,
      log ++ logOf (handlerReply rt workerInit) (replyMovements workerInit) (g, writes) msgs) := by
  have hstep : ∀ (s : Replying × List Movement) (msg : UserMsg), I (s.1.1, s.2) →
      c.onReply workerInit s msg →
        I ((handlerReply rt workerInit s.1 msg).1, s.2 ++ replyMovements workerInit s.1 msg) :=
    fun s msg hs hmsg => hI.replies hs (replied_handlerReply rt workerInit s.1 msg) hmsg
  have hloop := run_invariant_of_along (I := fun s : Replying × List Movement =>
    I (s.1.1, s.2)) hstep h hc
  rw [run_logged] at hloop
  exact hloop

/-- **Step rule**: what every stage preserves, a step preserves. -/
theorem StepInvariant.step (hI : StepInvariant rt c I) {s : Traced} {a : Act} (h : I s)
    (hc : c.On rt s a) : I (tracedStep rt s a) := by
  obtain ⟨g, log⟩ := s
  cases a with
  | worker i r => exact hI.worker h hc
  | io r =>
      obtain ⟨haccept, hreply⟩ := hc
      have hsame : ∀ {v v' : GateIO}, v'.heap = v.heap → v'.unloginUsers = v.unloginUsers →
          v'.tcpOp = v.tcpOp → v'.wokers = v.wokers → Closes v v' [] := by
        intro v v' hheap husers htcp hwokers
        refine Closes.of_eq (by rw [hheap]) ?_ husers (fun _ _ => by rw [htcp]) ?_
        · intro p
          exact congrArg (fun h : Heap User => (h.obj p).node.sfd) hheap
        · rw [hwokers]
          exact Mild.forall₂_refl _
      -- the stages up to the replies
      have h₁ := hI.accepting h haccept
      have h₂ := hI.closing id (closes_serveUnlogin r.io) _ h₁
        (g.epollOne r.events r.accepts).unloginEvents
      have h₃ := hI.closing Prod.fst (closes_parseUnlogin rt) (g.beforeParsing r, r.dbs)
        (hI.quiet h₂ (hsame rfl rfl rfl rfl)) (g.beforeParsing r).unloginReads
      rw [List.append_assoc, List.append_assoc] at h₃
      -- the replies, and the notification of the workers
      have h₄ := hI.replying h₃ hreply
      rw [List.append_assoc] at h₄
      have h₅ : I ((g.beforeReplying rt r).handlerReplys rt r.workerInit r.writes,
          log ++ movements rt g (.io r)) := hI.quiet h₄ (hsame rfl rfl rfl rfl)
      exact hI.quiet h₅ (closes_notifyWorkers _)

end Steps

end Rubo.Server.GateIO
