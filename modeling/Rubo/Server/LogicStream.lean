import Rubo.Server.GateInvariant
import Rubo.Util.Outgoing

/-!
# What a GateWorker Sends to Logic

`Outbound` says that the stream of the Logic connection is made of whole frames
of messages handed to it, and that its presence messages are the gate's own. It
is kept by every round that meets `Honest`:

- no user connection sends a presence frame that `handler_epdata` lets through;
- the writes to Logic are orderly.
-/

namespace Rubo.Server

open Rubo.Foundation Rubo.Msgs Rubo.Util

/-- The ids of `UserOnlineReq` and `UserOfflineReq`. -/
def IsPresence (msgId : Int32) : Prop :=
  msgId = ProtocolDefine.userOnlineReq.toInt ∨ msgId = ProtocolDefine.userOfflineReq.toInt

instance : DecidablePred IsPresence := fun _ => inferInstanceAs (Decidable (_ ∨ _))

namespace GateWorker

open SocketNode (SameOutgoing)

variable (rt : Runtime) {w w' : GateWorker}

/-! ## The condition on a round -/

/-- Serving the Logic connection loses no pending bytes. -/
def FlushesSafely (io : Int32 → KernelIo) (w : GateWorker) (user : Ptr) : Prop :=
  user = w.logic → (w.node user).wtBuff.toList = [] ∨ ∀ r ∈ (io (w.node user).sfd).writes, r.Whole

instance (io : Int32 → KernelIo) (w : GateWorker) (user : Ptr) :
    Decidable (FlushesSafely io w user) :=
  inferInstanceAs (Decidable (_ → _ ∨ _))

/-- Of the frames that leave the read buffer of a user connection, none is a
presence frame with the uid of the connection. -/
def SendsNoPresence (w : GateWorker) (user : Ptr) : Prop :=
  (w.node user).type ≠ .system →
    ∀ f ∈ (MsgCenter.taken (w.node user).rdBuff.toList).1,
      f.uid = (w.heap.obj user).uid → ¬ IsPresence f.msgId

instance (w : GateWorker) (user : Ptr) : Decidable (SendsNoPresence w user) :=
  inferInstanceAs (Decidable (_ → ∀ f ∈ _, _ → _))

/-- Writing a message to Logic is orderly. -/
def SendsOrderly (s : GateWorker × List WriteRes) (msg : UserMsg) : Prop :=
  SocketOp.Orderly rt.toProtobuf (s.1.node s.1.logic) msg s.2

instance (s : GateWorker × List WriteRes) (msg : UserMsg) : Decidable (SendsOrderly rt s msg) :=
  inferInstanceAs (Decidable (SocketOp.Orderly ..))

/-- The condition on a round, stage by stage. -/
structure Honest (w : GateWorker) (r : WorkerRound) : Prop where
  serve : Along (serveUser r.io) (FlushesSafely r.io) (w.marked r) (w.marked r).epevUsers
  parse : Along (parseUser rt) SendsNoPresence (w.readIn r) (w.readIn r).rdUsers
  send : Along (sendToLogic rt) (SendsOrderly rt) ((w.readIn r).handlerEpdata rt, r.writes)
    ((w.readIn r).handlerEpdata rt).userMsgsIn

instance (w : GateWorker) (r : WorkerRound) : Decidable (Honest rt w r) :=
  decidable_of_iff (_ ∧ _ ∧ _)
    ⟨fun ⟨hserve, hparse, hsend⟩ => ⟨hserve, hparse, hsend⟩, fun h => ⟨h.serve, h.parse, h.send⟩⟩

/-! ## The invariant -/

/-- The stream of the Logic connection: whole frames of messages handed to it, in
order; some may be missing. -/
def Framed (w : GateWorker) : Prop :=
  (w.node w.logic).canWt = true ∧ ∃ kept : List UserMsg, kept.Sublist w.toLogic ∧
    (w.node w.logic).outgoing = kept.flatMap fun msg => (Frame.ofMsg rt.toProtobuf msg).encode

/-- What holds of the way to Logic between any two stages. -/
structure Outbound (w : GateWorker) : Prop where
  logic_lt : w.logic < w.heap.next
  /-- The Logic connection is not found by a uid, so nothing from Logic goes back. -/
  notLogic : ∀ {u p}, w.users.uidUsers.find u = some p → p ≠ w.logic
  genuine : ∀ msg ∈ w.queue, IsPresence msg.msgId → ∃ p, msg.src = .gate p
  framed : Framed rt w

/-- Stages that write nothing to Logic; what they queue for it is genuine. -/
structure Still (w w' : GateWorker) : Prop where
  next : w.heap.next ≤ w'.heap.next
  logic : w'.logic = w.logic
  toLogic : w'.toLogic = w.toLogic
  same : (w.node w.logic).SameOutgoing (w'.node w.logic)
  found : ∀ {u p}, w'.users.uidUsers.find u = some p →
    w.users.uidUsers.find u = some p ∨ w.heap.next ≤ p
  queued : ∀ msg ∈ w'.queue, msg ∈ w.queue ∨ (IsPresence msg.msgId → ∃ p, msg.src = .gate p)

variable {rt}

theorem Outbound.still (h : Outbound rt w) (hs : Still w w') : Outbound rt w' := by
  refine ⟨?_, ?_, ?_, ?_⟩
  · rw [hs.logic]
    exact Nat.lt_of_lt_of_le h.logic_lt hs.next
  · intro u p hp
    rw [hs.logic]
    rcases hs.found hp with hold | hnew
    · exact h.notLogic hold
    · -- a new object is not the one of Logic
      exact (Nat.ne_of_lt (Nat.lt_of_lt_of_le h.logic_lt hnew)).symm
  · intro msg hmsg
    rcases hs.queued msg hmsg with hold | hnew
    · exact h.genuine msg hold
    · exact hnew
  · obtain ⟨hcan, kept, hsub, hout⟩ := h.framed
    unfold Framed
    rw [hs.logic, hs.toLogic, hs.same.outgoing]
    exact ⟨hs.same.canWt hcan, kept, hsub, hout⟩

/-- Stages that leave the heap and the tables alone. -/
theorem Still.of_eq (hheap : w'.heap = w.heap) (hlogic : w'.logic = w.logic)
    (husers : w'.users = w.users) (hto : w'.toLogic = w.toLogic)
    (hqueue : ∀ msg ∈ w'.queue, msg ∈ w.queue ∨ (IsPresence msg.msgId → ∃ p, msg.src = .gate p)) :
    Still w w' where
  next := Nat.le_of_eq (by rw [hheap])
  logic := hlogic
  toLogic := hto
  same := by
    have hnode : w'.node w.logic = w.node w.logic := by rw [node, hheap]; rfl
    rw [hnode]
    exact SameOutgoing.of_eq rfl rfl rfl
  found hp := .inl (husers ▸ hp)
  queued := hqueue

theorem Still.trans {w₁ w₂ w₃ : GateWorker} (h : Still w₁ w₂) (h' : Still w₂ w₃) : Still w₁ w₃ where
  next := Nat.le_trans h.next h'.next
  logic := h'.logic.trans h.logic
  toLogic := h'.toLogic.trans h.toLogic
  same := h.same.trans (h.logic ▸ h'.same)
  found hp := by
    rcases h'.found hp with hold | hnew
    · exact h.found hold
    · exact .inr (Nat.le_trans h.next hnew)
  queued msg hmsg := by
    rcases h'.queued msg hmsg with hold | hnew
    · exact h.queued msg hold
    · exact .inr hnew

/-- Changing a node, if it is not the one of Logic or its stream stays. -/
theorem still_setNode {user : Ptr} {sock : SocketNode}
    (h : user = w.logic → (w.node user).SameOutgoing sock) : Still w (w.setNode user sock) where
  next := Nat.le_refl _
  logic := rfl
  toLogic := rfl
  same := by
    rw [node_setNode]
    split_ifs with hlogic
    · rw [hlogic]
      exact h hlogic.symm
    · exact SameOutgoing.of_eq rfl rfl rfl
  found hp := .inl hp
  queued _ hmsg := .inl hmsg

/-! ## Each stage -/

theorem still_markEvent (w : GateWorker) (ev : EpollEvent) : Still w (w.markEvent ev) := by
  unfold markEvent
  cases w.users.getUserBySock ev.fd with
  | none => exact Still.of_eq rfl rfl rfl rfl fun _ => .inl
  | some user =>
      have hset : Still w (w.setNode user
          { w.node user with event := ev.mark (w.node user).event }) :=
        still_setNode fun _ => SameOutgoing.of_eq rfl rfl rfl
      simp only
      split_ifs
      · exact hset.trans (Still.of_eq rfl rfl rfl rfl fun _ => .inl)
      · exact hset

/-- The new connection is a new object, and its online message is the gate's own. -/
theorem still_onNewConnect (h : w.logic < w.heap.next) (ev : EventNode) :
    Still w (w.onNewConnect ev) where
  next := Nat.le_succ _
  logic := rfl
  toLogic := rfl
  same := by
    rw [node_onNewConnect, if_neg (Nat.ne_of_lt h)]
    exact SameOutgoing.of_eq rfl rfl rfl
  found {u p} hp := by
    rw [users_onNewConnect, UserManager.find_uidUsers_addUid, UserManager.uidUsers_addSock] at hp
    split_ifs at hp
    · exact .inr (Nat.le_of_eq (Option.some.inj hp))
    · exact .inl hp
  queued msg hmsg := by
    rw [queue_onNewConnect] at hmsg
    rcases List.mem_append.mp hmsg with hold | hnew
    · exact .inl hold
    · rw [List.mem_singleton.mp hnew]
      exact .inr fun _ => ⟨_, rfl⟩

theorem still_onConnOffline (w : GateWorker) (user : Ptr) : Still w (w.onConnOffline user) where
  next := Nat.le_of_eq (by rw [(onConnOffline_fields w user).1])
  logic := (onConnOffline_fields w user).2.1
  toLogic := by
    unfold onConnOffline
    simp only [queuePresence_offline]
    split_ifs <;> rfl
  same := by
    rw [node_onConnOffline]
    exact SameOutgoing.of_eq rfl rfl rfl
  found {u p} hp := by
    rw [users_onConnOffline, UserManager.delConn] at hp
    split at hp
    · exact .inl hp
    · exact .inl (Table.find_erase_eq_some.mp hp).2
  queued msg hmsg := by
    rw [queue_onConnOffline] at hmsg
    rcases List.mem_append.mp hmsg with hold | hnew
    · exact .inl hold
    · split_ifs at hnew
      · exact absurd hnew List.not_mem_nil
      · rw [List.mem_singleton.mp hnew]
        exact .inr fun _ => ⟨_, rfl⟩

theorem still_serveUser {io : Int32 → KernelIo} {user : Ptr} (h : FlushesSafely io w user) :
    Still w (w.serveUser io user) := by
  have hserved : Still w (w.served io user) := by
    have hset : Still w (w.setNode user (w.eventOp io user).2.2) :=
      still_setNode fun hlogic => TcpOp.sameOutgoing_eventOp w.tcpOp (h hlogic)
    exact hset.trans (Still.of_eq rfl rfl rfl rfl fun _ => .inl)
  rcases serveUser_cases io w user with ⟨_, _, ⟨_, hw⟩ | ⟨_, hw⟩ | ⟨_, _, hw⟩⟩ <;> rw [hw]
  · exact hserved.trans (still_onConnOffline _ user)
  · exact hserved.trans (Still.of_eq rfl rfl rfl rfl fun _ => .inl)
  · exact hserved

variable (rt)

/-- What parsing queues is not genuine, but it is no presence message either. -/
theorem still_parseUser {user : Ptr} (h : SendsNoPresence w user) :
    Still w (w.parseUser rt user) := by
  obtain ⟨msgs, hp⟩ := parseUser_spec rt w user
  refine ⟨Nat.le_of_eq hp.next.symm, hp.logic, hp.toLogic, ?_, ?_, ?_⟩
  · obtain ⟨buff, hnode, _⟩ := hp.node
    by_cases huser : w.logic = user
    · rw [huser, hnode]
      exact SameOutgoing.of_eq rfl rfl rfl
    · rw [hp.kept _ huser]
      exact SameOutgoing.of_eq rfl rfl rfl
  · intro u p hfind
    rw [hp.users] at hfind
    exact .inl hfind
  · intro msg hmsg
    rw [hp.queue] at hmsg
    rcases List.mem_append.mp hmsg with hold | hnew
    · exact .inl hold
    · have henv := hp.envelopes
      split_ifs at henv with hsys
      · cases henv
        exact absurd hnew List.not_mem_nil
      · obtain ⟨f, hf, mc, t, _, rfl⟩ := exists_envelope henv hnew
        obtain ⟨hmem, hwant⟩ := List.mem_filter.mp hf
        -- the frame is forwarded for the connection, so it is no presence frame
        have hno := h hsys f hmem (wanted_iff.mp hwant).2
        exact .inr fun hpres => absurd hpres hno

/-- Writing a message to Logic: the stream grows by its frame, or it is lost. -/
theorem outbound_sendToLogic {s : GateWorker × List WriteRes} {msg : UserMsg}
    (h : Outbound rt s.1) (hord : SendsOrderly rt s msg) (hmsg : msg ∈ s.1.userMsgsIn) :
    Outbound rt (sendToLogic rt s msg).1 := by
  obtain ⟨w, writes⟩ := s
  obtain ⟨hcan, kept, hsub, hout⟩ := h.framed
  have hwritten := SocketOp.outgoing_writeMsg rt.toProtobuf w.tcpOp.sock hord hcan
  refine ⟨h.logic_lt, h.notLogic, ?_, ?_⟩
  · intro m hm
    apply h.genuine m
    rcases List.mem_append.mp hm with hsent | hwaiting
    · rcases List.mem_append.mp hsent with hold | hnew
      · exact List.mem_append_left _ hold
      · rw [List.mem_singleton.mp hnew]
        exact List.mem_append_right _ hmsg
    · exact List.mem_append_right _ hwaiting
  · -- the node of Logic after the write
    have hnode : (sendToLogic rt (w, writes) msg).1.node w.logic =
        (w.tcpOp.sock.writeMsg rt.toProtobuf (w.node w.logic) msg writes).2.2.1 := by
      show (w.setNode w.logic _).node w.logic = _
      rw [node_setNode, if_pos rfl]
      rfl
    show ((sendToLogic rt (w, writes) msg).1.node w.logic).canWt = true ∧
      ∃ kept : List UserMsg, kept.Sublist (w.toLogic ++ [msg]) ∧
        ((sendToLogic rt (w, writes) msg).1.node w.logic).outgoing = _
    rw [hnode]
    refine ⟨hwritten.1, ?_⟩
    rcases hwritten.2 with hlost | hsent
    · exact ⟨kept, hsub.trans (List.sublist_append_left ..), hlost.trans hout⟩
    · refine ⟨kept ++ [msg], hsub.append (List.Sublist.refl _), ?_⟩
      rw [hsent, hout, List.flatMap_append, List.flatMap_singleton]

theorem outbound_foldl_sendToLogic {msgs : List UserMsg} {s : GateWorker × List WriteRes}
    (h : Outbound rt s.1) (hord : Along (sendToLogic rt) (SendsOrderly rt) s msgs)
    (hmsgs : ∀ msg ∈ msgs, msg ∈ s.1.userMsgsIn) :
    Outbound rt (msgs.foldl (sendToLogic rt) s).1 := by
  induction msgs generalizing s with
  | nil => exact h
  | cons msg msgs ih =>
      obtain ⟨hone, hrest⟩ := hord
      apply ih (outbound_sendToLogic rt h hone (hmsgs msg (List.mem_cons_self ..))) hrest
      -- the list of messages to send is only cleared after the loop
      intro m hm
      exact hmsgs m (List.mem_cons_of_mem _ hm)

/-- Distributing what Logic sent writes to user connections only. -/
theorem outbound_sendToUser {s : GateWorker × List WriteRes} (h : Outbound rt s.1) (msg : UserMsg) :
    Outbound rt (sendToUser rt s msg).1 := by
  obtain ⟨w, writes⟩ := s
  unfold sendToUser
  simp only
  cases hfind : w.users.getUserByUid msg.uid with
  | none => exact h
  | some user =>
      have huser : user ≠ w.logic := h.notLogic hfind
      simp only
      split
      · exact h
      · -- another connection is written to
        have hset : ∀ sock, Still w (w.setNode user sock) :=
          fun sock => still_setNode fun hlogic => absurd hlogic huser
        exact (h.still (hset _)).still (Still.of_eq rfl rfl rfl rfl fun _ => .inl)

/-! ## Whole rounds -/

theorem outbound_handlerMsgs {writes : List WriteRes} (h : Outbound rt w)
    (hord : Along (sendToLogic rt) (SendsOrderly rt) (w, writes) w.userMsgsIn) :
    Outbound rt (w.handlerMsgs rt writes) := by
  have hsent := outbound_foldl_sendToLogic rt h hord fun _ hmsg => hmsg
  unfold handlerMsgs
  generalize w.userMsgsIn.foldl (sendToLogic rt) (w, writes) = s at hsent ⊢
  obtain ⟨v, writes'⟩ := s
  simp only
  have hclear : Still v { v with userMsgsIn := [] } := by
    refine Still.of_eq rfl rfl rfl rfl ?_
    intro msg hmsg
    rw [queue, List.append_nil] at hmsg
    exact .inl (List.mem_append_left _ hmsg)
  have hcleared : Outbound rt { v with userMsgsIn := [] } := hsent.still hclear
  have hdistributed : Outbound rt
      (Rubo.Foundation.run (sendToUser rt) ({ v with userMsgsIn := [] }, writes') v.logicMsgsIn).1 :=
    run_invariant (I := fun s : GateWorker × List WriteRes => Outbound rt s.1)
      (fun _ msg hs => outbound_sendToUser rt hs msg) hcleared v.logicMsgsIn
  exact hdistributed.still (Still.of_eq rfl rfl rfl rfl fun _ => .inl)

/-- **One round**: an honest round keeps the invariant. -/
theorem outbound_threadLoop {r : WorkerRound} (h : Outbound rt w) (hr : Honest rt w r) :
    Outbound rt (w.threadLoop rt r) := by
  have hstart : Outbound rt { w with ioevsIn := w.ioevsIn ++ r.ioevs } :=
    h.still (Still.of_eq rfl rfl rfl rfl fun _ => .inl)
  have hconnected : ∀ {v : GateWorker}, Outbound rt v → Outbound rt v.handlerIoevent := by
    intro v hv
    have hempty : Outbound rt { v with ioevsIn := [] } :=
      hv.still (Still.of_eq rfl rfl rfl rfl fun _ => .inl)
    refine run_invariant (I := Outbound rt) ?_ hempty v.ioevsIn
    intro u ev hu
    unfold ioevent
    split_ifs
    · exact hu.still (still_onNewConnect hu.logic_lt ev)
    · exact hu
  have hmarked : Outbound rt (w.marked r) :=
    run_invariant (I := Outbound rt) (fun u ev hu => hu.still (still_markEvent u ev))
      (hconnected hstart) r.events
  have hserved : Outbound rt (w.readIn r) := by
    have hall := run_invariant_of_along (I := Outbound rt)
      (fun u user hu hflush => hu.still (still_serveUser hflush)) hmarked hr.serve
    exact hall.still (Still.of_eq rfl rfl rfl rfl fun _ => .inl)
  have hparsed : Outbound rt ((w.readIn r).handlerEpdata rt) :=
    run_invariant_of_along (I := Outbound rt)
      (fun u user hu hno => hu.still (still_parseUser rt hno)) hserved hr.parse
  rw [threadLoop_eq]
  exact outbound_handlerMsgs rt hparsed hr.send

theorem outbound_init (logicFd : Int32) : Outbound rt (init logicFd) := by
  have hobj : (init logicFd).heap.obj 0 = logicUser logicFd := Heap.obj_alloc ..
  have hnode : (init logicFd).node 0 = { sfd := logicFd, type := .system } := by
    rw [node, hobj]
    rfl
  refine ⟨Nat.one_pos, ?_, ?_, ?_⟩
  · intro u p hp
    rw [find_uidUsers_init] at hp
    cases hp
  · intro msg hmsg
    exact absurd hmsg List.not_mem_nil
  · show ((init logicFd).node 0).canWt = true ∧ _
    rw [hnode]
    refine ⟨rfl, [], List.Sublist.refl _, ?_⟩
    show ((init logicFd).node 0).outgoing = _
    rw [hnode]
    rfl

end GateWorker

end Rubo.Server
