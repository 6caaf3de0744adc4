import Rubo.Server.Descriptors
import Rubo.Util.ShortWrites

/-!
# What a Hand-Off Carries

A login or a verification moves a connection from GateIO to a worker, and the
worker builds a node of its own for it. The bytes of replies that are still to be
sent, and bytes read and not parsed, have to move along.

- `streamsKept_iff`: no byte is left behind exactly when there is none, the reply
  that announces the success included: nothing was pending, nothing unparsed, and
  the kernel takes the whole reply at once.
- `not_streamsKept_blocked`: the kernel refuses the reply to a verification, which
  stays in a node nobody looks at any more.
-/

namespace Rubo.Server.GateIO

open Rubo.Foundation Rubo.Msgs Rubo.Util
open SocketOp (writeCalls Completes)

variable (rt : Runtime) {g : GateIO} {workerInit : Int32 → Bool} {user : Ptr} {msg : UserMsg}
  {writes : List WriteRes} {before : UserManager} {worker : GateWorker} {p : Ptr}

/-! ## Taking over a connection -/

/-- A worker about to handle an event: some rounds are behind it, and some events of
this one. -/
def HandlesEvent (w : GateWorker) : Prop :=
  ∃ (logicFd : Int32) (rounds : List WorkerRound) (evs : List EventNode),
    w = Rubo.Foundation.run GateWorker.ioevent
      { Rubo.Foundation.run (GateWorker.threadLoop rt) (.init logicFd) rounds with ioevsIn := [] } evs

/-- On this reply to `user` a worker, whose users were `before`, takes the
connection over and builds the object `p` for it. -/
inductive TakesOver (g : GateIO) (workerInit : Int32 → Bool) (user : Ptr) (msg : UserMsg) :
    UserManager → GateWorker → Ptr → Prop
  /-- A verification starts the worker. -/
  | verifyed {worker : GateWorker} :
      (g.applyReply workerInit user msg).wokers = g.wokers ++ [worker] →
      TakesOver g workerInit user msg .new worker worker.logic
  /-- A login queues an event, which a worker handles later. -/
  | logined {pr : Promotion} {w : GateWorker} :
      (g.applyReply workerInit user msg).promotions = g.promotions ++ [pr] → HandlesEvent rt w →
      TakesOver g workerInit user msg w.users (w.onNewConnect pr.event) w.heap.next

/-- The node of `user` once the reply has been written to it. -/
def nodeWritten (g : GateIO) (workerInit : Int32 → Bool) (writes : List WriteRes) (user : Ptr)
    (msg : UserMsg) : SocketNode :=
  (handlerReply rt workerInit (g, writes) msg).1.node user

/-- The worker serves the descriptor with the node built for the connection. What
the kernel has not taken of the replies is pending there, and what was not parsed
is unparsed there. -/
structure StreamsKept (g : GateIO) (workerInit : Int32 → Bool) (writes : List WriteRes)
    (user : Ptr) (msg : UserMsg) (worker : GateWorker) (p : Ptr) : Prop where
  serves : worker.users.getUserBySock (g.node user).sfd = some p
  pending : (nodeWritten rt g workerInit writes user msg).accepted ++
      (worker.node p).wtBuff.toList =
    (g.node user).accepted ++ (g.node user).wtBuff.toList ++ (Frame.ofMsg rt.toProtobuf msg).encode
  unparsed : (worker.node p).rdBuff.toList = (g.node user).rdBuff.toList

/-- There is nothing to carry over, and the worker can file the descriptor. -/
structure NothingLeft (g : GateIO) (writes : List WriteRes) (user : Ptr) (msg : UserMsg)
    (before : UserManager) : Prop where
  free : before.getUserBySock (g.node user).sfd = none ∧ 0 < (g.node user).sfd
  wtBuff : (g.node user).wtBuff.toList = []
  rdBuff : (g.node user).rdBuff.toList = []
  canWt : (g.node user).canWt = true
  writes : ∀ call ∈ writeCalls (Frame.ofMsg rt.toProtobuf msg).encode.length writes, Completes call

/-! ## The node of the worker -/

theorem worker_of_wokers
    (h : (g.applyReply workerInit user msg).wokers = g.wokers ++ [worker]) :
    worker = .init (g.node user).sfd := by
  unfold applyReply at h
  split_ifs at h
  · unfold onLogicVerifyed at h
    simp only at h
    split_ifs at h
    · simp at h
    · -- the worker that was started
      exact (List.singleton_inj.mp (List.append_cancel_left h)).symm
  · simp at h
  · -- a login changes a worker, but adds none
    have hlen := congrArg List.length h
    unfold onUserLogined at hlen
    simp only at hlen
    split at hlen <;> simp [modifyWorker] at hlen
  · simp at h
  · simp at h

theorem sfd_of_promotions {pr : Promotion}
    (h : (g.applyReply workerInit user msg).promotions = g.promotions ++ [pr]) :
    pr.event.sfd = (g.node user).sfd := by
  obtain ⟨_, _, hsame | ⟨_, event, _, hsfd, hmore⟩⟩ := applyReply_cases g workerInit user msg
  · rw [hsame] at h
    simp at h
  · rw [hmore] at h
    rw [← List.singleton_inj.mp (List.append_cancel_left h)]
    exact hsfd

theorem wellFormed_of_handlesEvent {w : GateWorker} (h : HandlesEvent rt w) :
    GateWorker.WellFormed rt w := by
  obtain ⟨logicFd, rounds, evs, rfl⟩ := h
  have hrounds : GateWorker.Idle rt
      (Rubo.Foundation.run (GateWorker.threadLoop rt) (.init logicFd) rounds) :=
    run_invariant (I := GateWorker.Idle rt) (fun _ r hw => GateWorker.idle_threadLoop hw r)
      (GateWorker.idle_init logicFd) rounds
  have hstart : GateWorker.WellFormed rt
      { Rubo.Foundation.run (GateWorker.threadLoop rt) (.init logicFd) rounds with ioevsIn := [] } :=
    hrounds.wellFormed.of_calm (.of_eq rfl rfl rfl rfl rfl) rfl
  refine run_invariant (fun w ev hw => ?_) hstart evs
  unfold GateWorker.ioevent
  split_ifs
  · exact GateWorker.wellFormed_onNewConnect hw ev
  · exact hw

/-- A new object gets the entry of its descriptor if that is valid and free. -/
theorem find_addSock_new {um : UserManager} {heap : Heap User}
    (hnew : ∀ {fd}, um.sockUsers.find fd ≠ some p) :
    (um.addSock heap p).sockUsers.find (heap.obj p).node.sfd = some p ↔
      um.getUserBySock (heap.obj p).node.sfd = none ∧ 0 < (heap.obj p).node.sfd := by
  rw [UserManager.find_sockUsers_addSock]
  constructor
  · intro h
    split_ifs at h with hfree
    · exact hfree.2
    · exact absurd h hnew
  · intro hfree
    rw [if_pos ⟨rfl, hfree⟩]

/-- The worker starts with an empty node, and uses it if it can file the descriptor. -/
theorem TakesOver.fresh (h : TakesOver rt g workerInit user msg before worker p) :
    (worker.node p).wtBuff.toList = [] ∧ (worker.node p).rdBuff.toList = [] ∧
      (worker.users.getUserBySock (g.node user).sfd = some p ↔
        before.getUserBySock (g.node user).sfd = none ∧ 0 < (g.node user).sfd) := by
  cases h with
  | verifyed hwokers =>
      rw [worker_of_wokers hwokers]
      generalize (g.node user).sfd = fd
      have hobj : (GateWorker.init fd).heap.obj 0 = GateWorker.logicUser fd := Heap.obj_alloc ..
      have hnode : ((GateWorker.init fd).heap.obj 0).node = { sfd := fd, type := .system } := by
        rw [hobj]
        rfl
      have hfiled := @find_addSock_new 0 (UserManager.new.addUid (GateWorker.init fd).heap 0)
        (GateWorker.init fd).heap (by simp [UserManager.new, Table.empty])
      rw [hnode] at hfiled
      have husers : (GateWorker.init fd).users =
          UserManager.new.addUser (GateWorker.init fd).heap 0 := rfl
      have hlogic : (GateWorker.init fd).node (GateWorker.init fd).logic =
          { sfd := fd, type := .system } := hnode
      rw [hlogic, husers, UserManager.addUser_eq]
      refine ⟨rfl, rfl, hfiled.trans ?_⟩
      rw [UserManager.getUserBySock, UserManager.sockUsers_addUid]
      exact Iff.rfl
  | @logined pr w hprom hw =>
      have hnode := GateWorker.node_onNewConnect w pr.event w.heap.next
      rw [if_pos rfl] at hnode
      rw [hnode]
      have hobj : (w.heap.alloc (GateWorker.connUser pr.event)).2.obj w.heap.next =
        GateWorker.connUser pr.event := by rw [Heap.obj_alloc, if_pos rfl]
      have hfiled := @find_addSock_new w.heap.next w.users
        (w.heap.alloc (GateWorker.connUser pr.event)).2 fun {fd} hfind =>
          Nat.lt_irrefl _ ((wellFormed_of_handlesEvent rt hw).found hfind).1
      have hsfd : (GateWorker.connUser pr.event).node.sfd = pr.event.sfd := rfl
      rw [hobj, hsfd, sfd_of_promotions hprom] at hfiled
      refine ⟨rfl, rfl, ?_⟩
      rw [GateWorker.users_onNewConnect, UserManager.getUserBySock, UserManager.sockUsers_addUid]
      exact hfiled

/-! ## The node GateIO writes to -/

theorem nodeWritten_eq (huser : g.getUnloginUser msg.sfd = some user) :
    nodeWritten rt g workerInit writes user msg =
      (SocketOp.send (g.node user) (Frame.ofMsg rt.toProtobuf msg).encode writes).2.1 := by
  have hheap := (applyReply_cases g workerInit user msg).1
  unfold nodeWritten handlerReply
  simp only [huser]
  generalize g.applyReply workerInit user msg = v at hheap ⊢
  have hnode : v.node user = g.node user := by
    rw [node, hheap]
    rfl
  show (v.setNode user _).node user = _
  rw [node_setNode, if_pos rfl, hnode]
  simp only [TcpOp.writeMsg, SocketOp.writeMsg, SocketOp.take_fillFrame]

/-- The kernel takes a part of the reply, and the whole of it exactly when the node
may write and each call completes. -/
theorem accepted_nodeWritten (huser : g.getUnloginUser msg.sfd = some user) :
    ∃ taken, (nodeWritten rt g workerInit writes user msg).accepted =
        (g.node user).accepted ++ taken ∧
      taken.length ≤ (Frame.ofMsg rt.toProtobuf msg).encode.length ∧
      (taken = (Frame.ofMsg rt.toProtobuf msg).encode ↔ (g.node user).canWt = true ∧
        ∀ call ∈ writeCalls (Frame.ofMsg rt.toProtobuf msg).encode.length writes, Completes call) := by
  rw [nodeWritten_eq rt huser]
  generalize hframe : (Frame.ofMsg rt.toProtobuf msg).encode = frame
  cases hcan : (g.node user).canWt with
  | false =>
      -- everything is queued, and a frame is not empty
      have hne : [] ≠ frame := by
        rintro rfl
        have := congrArg List.length hframe
        simp [Frame.encode] at this
      refine ⟨[], ?_, Nat.zero_le _, by simp [hne]⟩
      rw [SocketOp.send, if_pos hcan, List.append_nil]
  | true =>
      rw [SocketOp.send_of_canWt hcan]
      obtain ⟨taken, hacc, hlen, hall⟩ := @SocketOp.sendLoop_accepted frame (g.node user) 0 writes
      rw [Nat.sub_zero] at hlen hall
      rw [List.drop_zero] at hall
      exact ⟨taken, hacc, hlen, by simp [hall]⟩

/-- **A hand-off leaves no byte behind exactly when there is none to leave**: for
every reply that makes a worker take over a connection, in every state and for every
behaviour of the kernel. -/
theorem streamsKept_iff (huser : g.getUnloginUser msg.sfd = some user)
    (h : TakesOver rt g workerInit user msg before worker p) :
    StreamsKept rt g workerInit writes user msg worker p ↔ NothingLeft rt g writes user msg before := by
  obtain ⟨hwt, hrd, hserves⟩ := h.fresh
  obtain ⟨taken, hacc, hlen, hall⟩ := @accepted_nodeWritten rt g workerInit user msg writes huser
  constructor
  · rintro ⟨hfiled, hpending, hunparsed⟩
    rw [hacc, hwt, List.append_nil, List.append_assoc, List.append_cancel_left_eq] at hpending
    -- the kernel takes no more than the reply, so nothing else was pending
    have hempty : (g.node user).wtBuff.toList = [] := by
      have hlength := congrArg List.length hpending
      rw [List.length_append] at hlength
      exact List.eq_nil_of_length_eq_zero (by omega)
    rw [hempty, List.nil_append] at hpending
    obtain ⟨hcan, hcalls⟩ := hall.mp hpending
    exact ⟨hserves.mp hfiled, hempty, hunparsed.symm.trans hrd, hcan, hcalls⟩
  · intro hclean
    refine ⟨hserves.mpr hclean.free, ?_, hrd.trans hclean.rdBuff.symm⟩
    rw [hacc, hwt, hclean.wtBuff, hall.mpr ⟨hclean.canWt, hclean.writes⟩, List.append_nil,
      List.append_nil]

/-- A client under descriptor 4. -/
def oneClient : GateIO := (init 3).onAccept (.conn 4 "" 0 true)

/-- The answer to its verification. -/
def verifyRsp4 : UserMsg :=
  { sfd := 4, msgId := ProtocolDefine.systemVerifyRsp.toInt, msg := (Message.new .verifyRsp).setIsOK true }

/-- The kernel takes the answer at once, and nothing is left behind. -/
theorem streamsKept_oneClient :
    StreamsKept .proto2 oneClient (fun _ => true) [.took 2048] 0 verifyRsp4 (.init 4)
      (GateWorker.init 4).logic :=
  (streamsKept_iff .proto2 rfl (.verifyed rfl)).mpr
    ⟨by decide, by decide, by decide, by decide, by decide +kernel⟩

/-- The round of `logicConnects` that verifies the Logic server, about to reply. -/
def verifying : GateIO :=
  beforeReplying .proto2
    (Rubo.Foundation.run (step .proto2) (init 3)
      [.io { ready := .one ⟨3, true, false⟩, accepts := [.conn 4 "" 0 true] }])
    { ready := .one ⟨4, true, false⟩, io := fun _ => { reads := [.data verifyFrame.encode] } }

/-- Bytes are left behind in general: the kernel refuses the answer to a
verification, and the worker does not know of it. -/
theorem not_streamsKept_blocked :
    ¬ ∀ (rt : Runtime) (sockFd : Int32) (acts : List Act) (r : IoRound) (msg : UserMsg)
      (rest : List UserMsg) (user : Ptr) (before : UserManager) (worker : GateWorker) (p : Ptr),
      (beforeReplying rt (Rubo.Foundation.run (step rt) (init sockFd) acts) r).rspMsgs = msg :: rest →
      (beforeReplying rt (Rubo.Foundation.run (step rt) (init sockFd) acts) r).getUnloginUser
        msg.sfd = some user →
      TakesOver rt (beforeReplying rt (Rubo.Foundation.run (step rt) (init sockFd) acts) r)
        r.workerInit user msg before worker p →
      StreamsKept rt (beforeReplying rt (Rubo.Foundation.run (step rt) (init sockFd) acts) r)
        r.workerInit r.writes user msg worker p := by
  intro h
  have hone : verifying.rspMsgs.length = 1 := by decide +kernel
  obtain ⟨msg, hmsg⟩ := List.length_eq_one_iff.mp hone
  have hfacts : ∀ msg ∈ verifying.rspMsgs, verifying.getUnloginUser msg.sfd = some 0 ∧
      (verifying.applyReply (fun _ => true) 0 msg).wokers.length = 1 ∧
      (nodeWritten .proto2 verifying (fun _ => true) [] 0 msg).accepted.length = 0 := by
    decide +kernel
  obtain ⟨huser, hlen, hacc⟩ := hfacts msg (by simp [hmsg])
  obtain ⟨worker, hworker⟩ := List.length_eq_one_iff.mp hlen
  have hnone : verifying.wokers = [] := List.eq_nil_of_length_eq_zero (by decide +kernel)
  have htakes : TakesOver .proto2 verifying (fun _ => true) 0 msg .new worker worker.logic :=
    .verifyed (by rw [hworker, hnone, List.nil_append])
  have hkept : StreamsKept .proto2 verifying (fun _ => true) [] 0 msg worker worker.logic :=
    h .proto2 3 _ _ msg [] 0 .new worker worker.logic hmsg huser htakes
  -- the kernel has taken nothing and nothing is pending, but the answer is not empty
  have hpending := congrArg List.length hkept.pending
  simp only [List.length_append, hacc, htakes.fresh.1, List.length_nil, Frame.length_encode] at hpending
  omega

end Rubo.Server.GateIO
