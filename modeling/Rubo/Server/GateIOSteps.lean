import Rubo.Server.LoginAttribution
import Rubo.Server.Verdict

/-!
# The Stages of a Round of GateIO

One specification for each stage, for the invariants to rely on: `Served` for a
user of `handler_data`, `Judged` for one of `handler_unlogin_msgs`, and `Still`
for everything that leaves the reading side of all connections alone. Beside the
state there is a log of what becomes of the connections (`Incident`).
-/

namespace Rubo.Server

open Rubo.Foundation Rubo.Msgs Rubo.Util
open SocketNode (Kept Grown)

namespace GateIO

variable (rt : Runtime)

/-! ## The log of a run -/

/-- What becomes of a connection object in a round. -/
inductive Incident where
  /-- `event_op` failed and closed the descriptor. -/
  | ended (user : Ptr)
  /-- `kick_out(user)` -/
  | kicked (user : Ptr)
  /-- A handler was called with a message of the connection. -/
  | handled (user : Ptr)
  deriving DecidableEq, Repr

/-- One user of the loop of `handler_data`. -/
def serveIncidents (io : Int32 → KernelIo) (g : GateIO) (user : Ptr) : List Incident :=
  let (ret, _, _) := g.tcpOp.eventOp (g.node user) (io (g.node user).sfd)
  if ret.has FdEvent.error then [.ended user] else []

/-- One user of `handler_unlogin_msgs`. -/
def parseIncidents (s : GateIO × List MysqlDb) (user : Ptr) : List Incident :=
  match verdictOn rt s.1 user with
  | .wait => []
  | .kick => [.kicked user]
  | .handle _ _ => [.handled user]

/-- One step of the Gate. -/
def incidents (g : GateIO) : Act → List Incident
  | .io r =>
    let g₁ := g.epollOne r.events r.accepts
    let g₂ := g.beforeParsing r
    logOf (serveUnlogin r.io) (serveIncidents r.io) g₁ g₁.unloginEvents ++
      logOf (parseUnlogin rt) (parseIncidents rt) (g₂, r.dbs) g₂.unloginReads
  | .worker _ _ => []

/-- The Gate and the log of what has become of its connections. -/
abbrev Logged := GateIO × List Incident

variable {g g' : GateIO}

/-! ## Reading -/

/-- What serving a user does: bytes arrive, and if any did then the user will be
parsed or its connection has ended. -/
structure Served (g g' : GateIO) (user : Ptr) (delta : List UInt8) (log : List Incident) : Prop where
  node : (g.node user).Grown (g'.node user) delta
  kept : ∀ p, p ≠ user → g'.node p = g.node p
  next : g'.heap.next = g.heap.next
  find : ∀ fd p, g'.unloginUsers.find fd = some p → g.unloginUsers.find fd = some p
  events : g'.unloginEvents = g.unloginEvents
  reads : g'.unloginReads = g.unloginReads ∨ g'.unloginReads = g.unloginReads ++ [user]
  noticed : delta = [] ∨ .ended user ∈ log ∨ user ∈ g'.unloginReads
  log : ∀ i ∈ log, i = .ended user

theorem served_serveUnlogin (io : Int32 → KernelIo) (g : GateIO) (user : Ptr) :
    ∃ delta, Served g (g.serveUnlogin io user) user delta (serveIncidents io g user) := by
  obtain ⟨delta, hgrown, hnoticed⟩ :=
    TcpOp.grown_eventOp g.tcpOp (g.node user) (io (g.node user).sfd)
  unfold serveUnlogin serveIncidents
  generalize g.tcpOp.eventOp (g.node user) (io (g.node user).sfd) = op at hgrown hnoticed ⊢
  obtain ⟨ret, tcpOp, sock⟩ := op
  have hself : (g.setNode user sock).node user = sock := by rw [node_setNode, if_pos rfl]
  have hother : ∀ p, p ≠ user → (g.setNode user sock).node p = g.node p := by
    intro p hp
    rw [node_setNode, if_neg hp]
  have hnode : (g.node user).Grown ((g.setNode user sock).node user) delta := by rwa [hself]
  refine ⟨delta, ?_⟩
  simp only at hnoticed ⊢
  split_ifs with herror hread
  · -- the descriptor is closed, and the table entry erased
    exact ⟨hnode, hother, rfl, fun _ _ hp => (Table.find_erase_eq_some.mp hp).2, rfl, .inl rfl,
      .inr (.inl (by simp)), by simp⟩
  · exact ⟨hnode, hother, rfl, fun _ _ => id, rfl, .inr rfl,
      .inr (.inr (List.mem_append_right _ (List.mem_singleton_self _))), by simp⟩
  · -- neither flag, so nothing was read
    have hnone : delta = [] := by
      rcases hnoticed with hnil | herror' | hread'
      · exact hnil
      · exact absurd herror' herror
      · exact absurd hread' hread
    exact ⟨hnode, hother, rfl, fun _ _ => id, rfl, .inl rfl, .inl hnone, by simp⟩

/-! ## Parsing -/

/-- What parsing a user leaves as it is. -/
structure Judged (g g' : GateIO) (user : Ptr) (kicked : Bool) : Prop where
  node : ∃ buff, g'.node user = { g.node user with rdBuff := buff } ∧
    buff.toList = (MsgCenter.taken (g.node user).rdBuff.toList).2
  kept : ∀ p, p ≠ user → g'.node p = g.node p
  next : g'.heap.next = g.heap.next
  unloginUsers : g'.unloginUsers =
    if kicked then g.unloginUsers.erase (g.node user).sfd else g.unloginUsers
  events : g'.unloginEvents = g.unloginEvents
  reads : g'.unloginReads = g.unloginReads

theorem judged_parseUnlogin (s : GateIO × List MysqlDb) (user : Ptr) :
    Judged s.1 (parseUnlogin rt s user).1 user (verdictOn rt s.1 user).isKick := by
  obtain ⟨g, hparsed, hparse⟩ := parseUnlogin_eq rt s user
  have hfunc : ∀ msg msgFunc, verdictOn rt s.1 user = .handle msg msgFunc →
      Gate.getMsgHandler msg.msgId = some msgFunc := fun _ _ => verdictOn_handle
  obtain ⟨hnodes, hnext, happly⟩ := apply_spec (g := g) s.2 user hfunc
  obtain ⟨buff, hnode, hbuff⟩ := hparsed.node
  have hsfd : (g.node user).sfd = (s.1.node user).sfd := by rw [hnode]
  rw [hparse]
  refine ⟨⟨buff, by rw [hnodes, hnode], hbuff⟩, ?_, hnext.trans hparsed.next, ?_, ?_, ?_⟩
  · intro p hp
    rw [hnodes, hparsed.kept p hp]
  · rw [happly, hsfd, hparsed.fields]
  · rw [happly, hparsed.fields]
  · rw [happly, hparsed.fields]

theorem Judged.received {user : Ptr} {kicked : Bool} (h : Judged g g' user kicked) (p : Ptr) :
    (g'.node p).received = (g.node p).received ∧ (g'.node p).sfd = (g.node p).sfd := by
  by_cases hp : p = user
  · obtain ⟨buff, hnode, _⟩ := h.node
    rw [hp, hnode]
    exact ⟨rfl, rfl⟩
  · rw [h.kept p hp]
    exact ⟨rfl, rfl⟩

theorem mem_parseIncidents {s : GateIO × List MysqlDb} {user : Ptr} {i : Incident}
    (h : i ∈ parseIncidents rt s user) :
    (i = .kicked user ∧ (verdictOn rt s.1 user).isKick = true) ∨ i = .handled user := by
  unfold parseIncidents at h
  cases hv : verdictOn rt s.1 user with
  | wait =>
      rw [hv] at h
      exact absurd h List.not_mem_nil
  | kick =>
      rw [hv] at h
      exact .inl ⟨List.mem_singleton.mp h, rfl⟩
  | handle _ _ =>
      rw [hv] at h
      exact .inr (List.mem_singleton.mp h)

/-! ## Replying -/

/-- Stages that leave the reading side of all connections alone. -/
structure Still (g g' : GateIO) : Prop where
  next : g'.heap.next = g.heap.next
  node : ∀ p, (g.node p).Kept (g'.node p)
  find : ∀ fd p, g'.unloginUsers.find fd = some p → g.unloginUsers.find fd = some p
  events : g'.unloginEvents = g.unloginEvents
  reads : g'.unloginReads = g.unloginReads

theorem Still.of_heap_eq (hheap : g'.heap = g.heap)
    (hfind : ∀ fd p, g'.unloginUsers.find fd = some p → g.unloginUsers.find fd = some p)
    (hevents : g'.unloginEvents = g.unloginEvents) (hreads : g'.unloginReads = g.unloginReads) :
    Still g g' := by
  refine ⟨by rw [hheap], fun p => ?_, hfind, hevents, hreads⟩
  have hnode : g'.node p = g.node p := congrArg (fun h : Heap User => (h.obj p).node) hheap
  rw [hnode]
  exact Kept.of_eq rfl rfl rfl rfl

theorem Still.trans {g₁ g₂ g₃ : GateIO} (h : Still g₁ g₂) (h' : Still g₂ g₃) : Still g₁ g₃ where
  next := h'.next.trans h.next
  node p := (h.node p).trans (h'.node p)
  find fd p hp := h.find fd p (h'.find fd p hp)
  events := h'.events.trans h.events
  reads := h'.reads.trans h.reads

theorem still_applyReply (g : GateIO) (workerInit : Int32 → Bool) (user : Ptr) (msg : UserMsg) :
    Still g (g.applyReply workerInit user msg) := by
  obtain ⟨hheap, hfind, _⟩ := applyReply_cases g workerInit user msg
  have hfields : (g.applyReply workerInit user msg).unloginEvents = g.unloginEvents ∧
      (g.applyReply workerInit user msg).unloginReads = g.unloginReads := by
    unfold applyReply
    split_ifs
    · unfold onLogicVerifyed
      simp only
      split_ifs <;> exact ⟨rfl, rfl⟩
    · exact ⟨rfl, rfl⟩
    · unfold onUserLogined
      simp only
      split <;> exact ⟨rfl, rfl⟩
    · exact ⟨rfl, rfl⟩
    · exact ⟨rfl, rfl⟩
  exact Still.of_heap_eq hheap (fun _ _ => hfind) hfields.1 hfields.2

theorem still_handlerReply (workerInit : Int32 → Bool) (s : GateIO × List WriteRes) (msg : UserMsg) :
    Still s.1 (handlerReply rt workerInit s msg).1 := by
  obtain ⟨g, writes⟩ := s
  unfold handlerReply
  simp only
  cases g.getUnloginUser msg.sfd with
  | none => exact Still.of_heap_eq rfl (fun _ _ => id) rfl rfl
  | some user =>
      simp only
      have happly := still_applyReply g workerInit user msg
      generalize g.applyReply workerInit user msg = v at happly ⊢
      have hkept := TcpOp.kept_writeMsg rt.toProtobuf v.tcpOp (v.node user) msg writes
      generalize v.tcpOp.writeMsg rt.toProtobuf (v.node user) msg writes = w at hkept ⊢
      obtain ⟨ret, tcpOp, sock, writes'⟩ := w
      -- the reply is written to the node of the user
      refine happly.trans ⟨rfl, fun p => ?_, fun _ _ => id, rfl, rfl⟩
      show (v.node p).Kept ((v.setNode user sock).node p)
      rw [node_setNode]
      split_ifs with hp
      · rw [hp]
        exact hkept
      · exact Kept.of_eq rfl rfl rfl rfl

theorem still_handlerReplys (g : GateIO) (workerInit : Int32 → Bool) (writes : List WriteRes) :
    Still g (g.handlerReplys rt workerInit writes) := by
  have hloop : Still g (Rubo.Foundation.run (handlerReply rt workerInit) (g, writes) g.rspMsgs).1 :=
    run_invariant (I := fun s => Still g s.1)
      (fun s msg h => h.trans (still_handlerReply rt workerInit s msg))
      (Still.of_heap_eq rfl (fun _ _ => id) rfl rfl) g.rspMsgs
  exact hloop.trans (Still.of_heap_eq rfl (fun _ _ => id) rfl rfl)

/-- The stages of a round behind the parsing. -/
theorem still_afterParsing (g : GateIO) (r : IoRound) :
    Still g (g.handlerReplys rt r.workerInit r.writes).notifyWorkers :=
  (still_handlerReplys rt g r.workerInit r.writes).trans
    (Still.of_heap_eq rfl (fun _ _ => id) rfl rfl)

end GateIO

end Rubo.Server
