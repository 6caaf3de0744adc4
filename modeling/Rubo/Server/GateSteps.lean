import Rubo.Foundation.Machine
import Rubo.Msgs.Framing
import Rubo.Server.GateWorker

/-!
# What the Stages of a GateWorker Round Do

One lemma for each stage of `thread_loop`, in terms of what later proofs look at:
the reading side of every connection (`SocketNode.Grown`), the descriptor table,
and `queue`, all messages that were or will be written to Logic.
-/

namespace Rubo.Server.GateWorker

open Rubo.Foundation Rubo.Msgs Rubo.Util
open SocketNode (Kept Grown)

variable (rt : Runtime) {w w' : GateWorker}

/-! ## Messages for Logic -/

/-- What was written to Logic, then what is waiting to be. -/
def queue (w : GateWorker) : List UserMsg := w.toLogic ++ w.userMsgsIn

/-- The message about a new connection. -/
def onlineOf (user : Ptr) (uid : Int32) : UserMsg :=
  { uid := uid
    msgId := ProtocolDefine.userOnlineReq.toInt
    msg := (Message.new .userOnlineReq).setUid uid
    src := .gate user }

/-- The message about a connection that ended. -/
def offlineOf (user : Ptr) (uid : Int32) : UserMsg :=
  { uid := uid
    msgId := ProtocolDefine.userOfflineReq.toInt
    msg := (Message.new .userOfflineReq).setUid uid
    src := .gate user }

theorem queuePresence_offline (w : GateWorker) (user : Ptr) (uid : Int32) :
    w.queuePresence .userOfflineReq user uid =
      { w with userMsgsIn := w.userMsgsIn ++ [offlineOf user uid] } := rfl

/-! ## Steps that leave the connections alone -/

/-- No connection comes or goes, and nothing is read or parsed. -/
structure Calm (w w' : GateWorker) : Prop where
  next : w'.heap.next = w.heap.next
  logic : w'.logic = w.logic
  users : w'.users = w.users
  offline : w'.offline = w.offline
  rdUsers : w'.rdUsers = w.rdUsers
  uid : ∀ p, (w'.heap.obj p).uid = (w.heap.obj p).uid
  kept : ∀ p, (w.node p).Kept (w'.node p)

theorem Calm.trans {w₁ w₂ w₃ : GateWorker} (h : Calm w₁ w₂) (h' : Calm w₂ w₃) : Calm w₁ w₃ where
  next := h'.next.trans h.next
  logic := h'.logic.trans h.logic
  users := h'.users.trans h.users
  offline := h'.offline.trans h.offline
  rdUsers := h'.rdUsers.trans h.rdUsers
  uid p := (h'.uid p).trans (h.uid p)
  kept p := (h.kept p).trans (h'.kept p)

/-- Steps that do not touch the heap or the tables. -/
theorem Calm.of_eq (hheap : w'.heap = w.heap) (hlogic : w'.logic = w.logic)
    (husers : w'.users = w.users) (hoff : w'.offline = w.offline)
    (hrd : w'.rdUsers = w.rdUsers) : Calm w w' := by
  refine ⟨congrArg _ hheap, hlogic, husers, hoff, hrd, ?_, ?_⟩
  · intro p
    rw [hheap]
  · intro p
    unfold node
    rw [hheap]
    exact Kept.of_eq rfl rfl rfl rfl

theorem node_setNode (w : GateWorker) (user : Ptr) (sock : SocketNode) (p : Ptr) :
    (w.setNode user sock).node p = if p = user then sock else w.node p :=
  node_set_sock w.heap user sock p

theorem uid_setNode (w : GateWorker) (user : Ptr) (sock : SocketNode) (p : Ptr) :
    ((w.setNode user sock).heap.obj p).uid = (w.heap.obj p).uid :=
  uid_set_sock w.heap user sock p

theorem calm_setNode {user : Ptr} {sock : SocketNode} (h : (w.node user).Kept sock) :
    Calm w (w.setNode user sock) := by
  refine ⟨rfl, rfl, rfl, rfl, rfl, uid_setNode w user sock, ?_⟩
  intro p
  rw [node_setNode]
  split_ifs with hp
  · rw [hp]
    exact h
  · exact Kept.of_eq rfl rfl rfl rfl

/-! ## Marking -/

/-- Marking puts the user behind the descriptor on the list of this round. -/
theorem markEvent_spec (w : GateWorker) (ev : EpollEvent) :
    Calm w (w.markEvent ev) ∧ (w.markEvent ev).queue = w.queue ∧
      ((w.markEvent ev).epevUsers = w.epevUsers ∨
        ∃ user, w.users.sockUsers.find ev.fd = some user ∧
          (w.markEvent ev).epevUsers = w.epevUsers ++ [user]) := by
  unfold markEvent
  cases hfind : w.users.getUserBySock ev.fd with
  | none => exact ⟨Calm.of_eq rfl rfl rfl rfl rfl, rfl, .inl rfl⟩
  | some user =>
      have hkept : (w.node user).Kept
          { w.node user with event := ev.mark (w.node user).event } :=
        Kept.of_eq rfl rfl rfl rfl
      have hcalm := calm_setNode hkept
      simp only
      split_ifs
      · exact ⟨hcalm.trans (Calm.of_eq rfl rfl rfl rfl rfl), rfl, .inr ⟨user, hfind, rfl⟩⟩
      · exact ⟨hcalm, rfl, .inl rfl⟩

/-! ## Serving -/

/-- What `event_op` returns for a user. -/
def eventOp (io : Int32 → KernelIo) (w : GateWorker) (user : Ptr) : FdEvent × TcpOp × SocketNode :=
  w.tcpOp.eventOp (w.node user) (io (w.node user).sfd)

/-- The worker after `event_op`, before its result is looked at. -/
def served (io : Int32 → KernelIo) (w : GateWorker) (user : Ptr) : GateWorker :=
  { w.setNode user (w.eventOp io user).2.2 with tcpOp := (w.eventOp io user).2.1 }

/-- `event_op` reports an error. -/
def Fails (io : Int32 → KernelIo) (w : GateWorker) (user : Ptr) : Prop :=
  (w.eventOp io user).1.has FdEvent.error = true

instance (io : Int32 → KernelIo) (w : GateWorker) (user : Ptr) : Decidable (w.Fails io user) :=
  inferInstanceAs (Decidable (_ = _))

theorem node_served (io : Int32 → KernelIo) (w : GateWorker) (user p : Ptr) :
    (w.served io user).node p = if p = user then (w.eventOp io user).2.2 else w.node p :=
  node_setNode w user _ p

theorem uid_served (io : Int32 → KernelIo) (w : GateWorker) (user p : Ptr) :
    ((w.served io user).heap.obj p).uid = (w.heap.obj p).uid :=
  uid_setNode w user _ p

/-- Serving a user leaves the other connections alone. -/
theorem node_served_of_ne (io : Int32 → KernelIo) (w : GateWorker) {user p : Ptr} (h : p ≠ user) :
    (w.served io user).node p = w.node p := by
  rw [node_served, if_neg h]

/-- The three ways serving a user can end: the connection has failed; the user
may have sent something and is put on the list to parse; or nothing was read. -/
theorem serveUser_cases (io : Int32 → KernelIo) (w : GateWorker) (user : Ptr) :
    ∃ delta, (w.node user).Grown ((w.served io user).node user) delta ∧
      (w.Fails io user ∧ w.serveUser io user = (w.served io user).onConnOffline user ∨
        ¬ w.Fails io user ∧
          w.serveUser io user = { w.served io user with rdUsers := w.rdUsers ++ [user] } ∨
        ¬ w.Fails io user ∧ delta = [] ∧ w.serveUser io user = w.served io user) := by
  obtain ⟨delta, hgrown, hdelta⟩ := TcpOp.grown_eventOp w.tcpOp (w.node user) (io (w.node user).sfd)
  rw [node_served, if_pos rfl]
  refine ⟨delta, hgrown, ?_⟩
  by_cases herror : w.Fails io user
  · exact .inl ⟨herror, if_pos herror⟩
  · by_cases hread : (w.eventOp io user).1.has FdEvent.read = true
    · exact .inr (.inl ⟨herror, (if_neg herror).trans (if_pos hread)⟩)
    · refine .inr (.inr ⟨herror, ?_, (if_neg herror).trans (if_neg hread)⟩)
      -- neither flag is set, so nothing was read
      rcases hdelta with hnil | herror' | hread'
      · exact hnil
      · exact absurd herror' herror
      · exact absurd hread' hread

/-! ## Parsing -/

theorem foldl_takeMsg (user : Ptr) (msgs : List UserMsg) (w : GateWorker) :
    msgs.foldl (takeMsg user) w =
      if (w.node user).type = .system then { w with logicMsgsIn := w.logicMsgsIn ++ msgs }
      else { w with
        userMsgsIn := w.userMsgsIn ++ msgs.filter (fun m => (w.heap.obj user).uid = m.uid) } := by
  induction msgs generalizing w with
  | nil => split_ifs <;> simp
  | cons m msgs ih =>
      rw [List.foldl_cons, ih]
      by_cases hsys : (w.node user).type = .system
      · -- messages of Logic are all kept
        have hone : takeMsg user w m = { w with logicMsgsIn := w.logicMsgsIn ++ [m] } :=
          if_pos hsys
        rw [hone, if_pos hsys, List.append_cons w.logicMsgsIn m msgs]
        exact if_pos hsys
      · rw [if_neg hsys]
        by_cases huid : (w.heap.obj user).uid = m.uid
        · -- the uid of the connection
          have hone : takeMsg user w m = { w with userMsgsIn := w.userMsgsIn ++ [m] } :=
            (if_neg hsys).trans (if_neg (not_not.mpr huid))
          rw [hone, List.filter_cons, if_pos (decide_eq_true huid),
            List.append_cons w.userMsgsIn m (List.filter _ msgs)]
          exact if_neg hsys
        · -- another uid: the message is dropped
          have hone : takeMsg user w m = w := (if_neg hsys).trans (if_pos huid)
          have hdrop : ¬ decide ((w.heap.obj user).uid = m.uid) = true := by simp [huid]
          rw [hone, List.filter_cons, if_neg hdrop, if_neg hsys]

/-- The frames a worker forwards for a connection of uid `u`. -/
def Wanted (u : Int32) (f : Frame) : Bool := MsgCenter.registered f.msgId && f.uid == u

theorem wanted_iff {u : Int32} {f : Frame} :
    Wanted u f = true ↔ MsgCenter.registered f.msgId = true ∧ f.uid = u := by
  rw [Wanted, Bool.and_eq_true, beq_iff_eq]

/-- What parsing a user does: frames leave the read buffer, and of a user's own
frames the wanted ones are queued. -/
structure ParsedFrom (w w' : GateWorker) (user : Ptr) (taken : List Frame) (msgs : List UserMsg) :
    Prop where
  next : w'.heap.next = w.heap.next
  logic : w'.logic = w.logic
  users : w'.users = w.users
  offline : w'.offline = w.offline
  rdUsers : w'.rdUsers = w.rdUsers
  epevUsers : w'.epevUsers = w.epevUsers
  toLogic : w'.toLogic = w.toLogic
  uid : ∀ p, (w'.heap.obj p).uid = (w.heap.obj p).uid
  kept : ∀ p, p ≠ user → w'.node p = w.node p
  node : ∃ buff, w'.node user = { w.node user with rdBuff := buff } ∧
    MsgCenter.taken (w.node user).rdBuff.toList = (taken, buff.toList)
  userMsgsIn : w'.userMsgsIn = w.userMsgsIn ++ msgs
  envelopes : List.Forall₂ (MsgCenter.IsEnvelope rt user (w.node user).sfd) msgs
    (if (w.node user).type = .system then [] else taken.filter (Wanted (w.heap.obj user).uid))

/-- Each message parsed is the envelope of one of the frames. -/
theorem exists_envelope {R : UserMsg → Frame → Prop} {msgs : List UserMsg} {fs : List Frame}
    (h : List.Forall₂ R msgs fs) {msg : UserMsg} (hmsg : msg ∈ msgs) : ∃ f ∈ fs, R msg f := by
  induction h with
  | nil => exact absurd hmsg List.not_mem_nil
  | @cons m f msgs fs hm _ ih =>
      rcases List.mem_cons.mp hmsg with rfl | hmsg
      · exact ⟨f, List.mem_cons_self .., hm⟩
      · obtain ⟨g, hg, hR⟩ := ih hmsg
        exact ⟨g, List.mem_cons_of_mem _ hg, hR⟩

/-- Filtering envelopes by their uid is filtering the frames. -/
theorem filter_envelopes (user : Ptr) (sfd u : Int32) {msgs : List UserMsg} {fs : List Frame}
    (h : List.Forall₂ (MsgCenter.IsEnvelope rt user sfd) msgs fs) :
    List.Forall₂ (MsgCenter.IsEnvelope rt user sfd) (msgs.filter (fun m => u = m.uid))
      (fs.filter (Wanted u)) := by
  induction h with
  | nil => exact .nil
  | @cons m f msgs fs hm _ ih =>
      obtain ⟨mc, t, htype, rfl⟩ := hm
      have hreg : MsgCenter.registered f.msgId = true := MsgCenter.registered_iff.mpr ⟨t, htype⟩
      rw [List.filter_cons, List.filter_cons]
      by_cases hu : f.uid = u
      · -- kept on both sides
        have hwant : Wanted u f = true := wanted_iff.mpr ⟨hreg, hu⟩
        have hkeep : decide (u = (MsgCenter.envelope rt user sfd mc t f).uid) = true :=
          decide_eq_true hu.symm
        rw [if_pos hkeep, if_pos hwant]
        exact .cons ⟨mc, t, htype, rfl⟩ ih
      · -- dropped on both sides
        have hwant : ¬ Wanted u f = true := fun h => hu (wanted_iff.mp h).2
        have hdrop : ¬ decide (u = (MsgCenter.envelope rt user sfd mc t f).uid) = true := by
          rw [decide_eq_true_eq]
          exact fun heq => hu heq.symm
        rw [if_neg hdrop, if_neg hwant]
        exact ih

/-- Frames with unregistered ids are not wanted, so stopping there costs nothing. -/
theorem filter_wanted_takeWhile (u : Int32) (xs : List UInt8) :
    ((MsgCenter.taken xs).1.takeWhile fun f => MsgCenter.registered f.msgId).filter (Wanted u) =
      (MsgCenter.taken xs).1.filter (Wanted u) := by
  induction xs using Decoder.item_induction (d := frameDecoder) with
  | wait xs h => rw [MsgCenter.taken_of_none h]; rfl
  | item xs f r h ih =>
      cases htype : MsgCenter.typeOf f.msgId with
      | none =>
          -- the last frame taken, and it is not wanted
          have hreg : MsgCenter.registered f.msgId = false := by
            rw [MsgCenter.registered, htype]; rfl
          rw [MsgCenter.taken_of_unregistered h htype]
          simp [Wanted, hreg]
      | some t =>
          -- parsing goes on behind this frame
          have hreg : MsgCenter.registered f.msgId = true :=
            MsgCenter.registered_iff.mpr ⟨t, htype⟩
          rw [MsgCenter.taken_of_registered h htype, List.takeWhile_cons, hreg, if_pos rfl,
            List.filter_cons, List.filter_cons, ih]

theorem parseUser_spec (w : GateWorker) (user : Ptr) :
    ∃ msgs, ParsedFrom rt w (w.parseUser rt user) user
      (MsgCenter.taken (w.node user).rdBuff.toList).1 msgs := by
  obtain ⟨buff, hbuff, hparse⟩ := MsgCenter.parsePackage_eq rt user w.msgCenter (w.node user)
  have henv := MsgCenter.envelopes_forall₂ rt user (w.node user).sfd w.msgCenter
    (MsgCenter.taken (w.node user).rdBuff.toList).1
  unfold parseUser
  rw [hparse]
  simp only
  rw [foldl_takeMsg]
  have hnode : (w.setNode user { w.node user with rdBuff := buff }).node user =
      { w.node user with rdBuff := buff } := by
    rw [node_setNode, if_pos rfl]
  have hkept : ∀ p, p ≠ user →
      (w.setNode user { w.node user with rdBuff := buff }).node p = w.node p := by
    intro p hp
    rw [node_setNode, if_neg hp]
  have htaken : MsgCenter.taken (w.node user).rdBuff.toList =
      ((MsgCenter.taken (w.node user).rdBuff.toList).1, buff.toList) := by rw [hbuff]
  -- parsing changes the read buffer only
  have htype : ((w.setNode user { w.node user with rdBuff := buff }).node user).type =
      (w.node user).type := by rw [hnode]
  split_ifs with hsys
  · -- messages of Logic go to the other list
    have hsys' : (w.node user).type = .system := htype.symm.trans hsys
    refine ⟨[], rfl, rfl, rfl, rfl, rfl, rfl, rfl, uid_setNode w user _, hkept, ⟨buff, hnode, htaken⟩,
      (List.append_nil _).symm, ?_⟩
    rw [if_pos hsys']
    exact .nil
  · -- messages of a user: those about its own uid
    have hsys' : ¬ (w.node user).type = .system := fun h => hsys (htype.trans h)
    refine ⟨_, rfl, rfl, rfl, rfl, rfl, rfl, rfl, uid_setNode w user _, hkept, ⟨buff, hnode, htaken⟩,
      rfl, ?_⟩
    rw [if_neg hsys', ← filter_wanted_takeWhile, ← uid_setNode w user _ user]
    exact filter_envelopes rt user _ _ henv

/-! ## Forwarding and distributing -/

theorem sendToLogic_spec (msgs : List UserMsg) (s : GateWorker × List WriteRes) :
    Calm s.1 (msgs.foldl (sendToLogic rt) s).1 ∧
      (msgs.foldl (sendToLogic rt) s).1.toLogic = s.1.toLogic ++ msgs ∧
      (msgs.foldl (sendToLogic rt) s).1.epevUsers = s.1.epevUsers := by
  induction msgs generalizing s with
  | nil => exact ⟨Calm.of_eq rfl rfl rfl rfl rfl, (List.append_nil _).symm, rfl⟩
  | cons msg msgs ih =>
      obtain ⟨hcalm, hsent, hev⟩ := ih (sendToLogic rt s msg)
      refine ⟨Calm.trans ?_ hcalm, ?_, hev⟩
      · exact (calm_setNode (SocketOp.kept_writeMsg ..)).trans (Calm.of_eq rfl rfl rfl rfl rfl)
      · rw [List.foldl_cons, hsent, List.append_cons]
        rfl

/-- Distributing a message writes to a connection, or does nothing. -/
theorem sendToUser_cases (w : GateWorker) (writes : List WriteRes) (msg : UserMsg) :
    sendToUser rt (w, writes) msg = (w, writes) ∨
      ∃ user sock tcpOp writes', (w.node user).Kept sock ∧
        sendToUser rt (w, writes) msg = ({ w.setNode user sock with tcpOp := tcpOp }, writes') := by
  cases huser : w.users.getUserByUid msg.uid with
  | none => exact .inl (by simp only [sendToUser, huser])
  | some user =>
      cases hsock : (w.heap.obj user).sock with
      | none => exact .inl (by simp only [sendToUser, huser, hsock])
      | some sock =>
          have hnode : w.node user = sock := by rw [node, User.node, hsock]; rfl
          refine .inr ⟨user, _, _, _, ?_, by simp only [sendToUser, huser, hsock]; rfl⟩
          rw [hnode]
          exact SocketOp.kept_writeMsg ..

theorem sendToUser_spec (msgs : List UserMsg) (s : GateWorker × List WriteRes) :
    Calm s.1 (msgs.foldl (sendToUser rt) s).1 ∧
      (msgs.foldl (sendToUser rt) s).1.queue = s.1.queue ∧
      (msgs.foldl (sendToUser rt) s).1.userMsgsIn = s.1.userMsgsIn ∧
      (msgs.foldl (sendToUser rt) s).1.epevUsers = s.1.epevUsers := by
  induction msgs generalizing s with
  | nil => exact ⟨Calm.of_eq rfl rfl rfl rfl rfl, rfl, rfl, rfl⟩
  | cons msg msgs ih =>
      obtain ⟨w, writes⟩ := s
      rw [List.foldl_cons]
      rcases sendToUser_cases rt w writes msg with hone | ⟨user, sock, tcpOp, writes', hkept, hone⟩
      · -- the message is dropped
        rw [hone]
        exact ih (w, writes)
      · rw [hone]
        -- the message is written
        obtain ⟨hcalm, hrest⟩ := ih ({ w.setNode user sock with tcpOp := tcpOp }, writes')
        refine ⟨Calm.trans (calm_setNode hkept) (Calm.trans ?_ hcalm), hrest⟩
        exact Calm.of_eq rfl rfl rfl rfl rfl

/-- Forwarding empties `_user_msgs_in` into the stream. -/
theorem handlerMsgs_spec (w : GateWorker) (writes : List WriteRes) :
    Calm w (w.handlerMsgs rt writes) ∧ (w.handlerMsgs rt writes).queue = w.queue ∧
      (w.handlerMsgs rt writes).userMsgsIn = [] ∧
      (w.handlerMsgs rt writes).epevUsers = w.epevUsers := by
  obtain ⟨hcalm, hsent, hev⟩ := sendToLogic_spec rt w.userMsgsIn (w, writes)
  unfold handlerMsgs
  generalize w.userMsgsIn.foldl (sendToLogic rt) (w, writes) = s at hcalm hsent hev ⊢
  obtain ⟨v, writes'⟩ := s
  simp only
  obtain ⟨hcalm', hqueue, hin, hev'⟩ :=
    sendToUser_spec rt v.logicMsgsIn ({ v with userMsgsIn := [] }, writes')
  generalize v.logicMsgsIn.foldl (sendToUser rt) ({ v with userMsgsIn := [] }, writes') = s
    at hcalm' hqueue hin hev' ⊢
  have hv : Calm v { v with userMsgsIn := [] } := Calm.of_eq rfl rfl rfl rfl rfl
  refine ⟨((hcalm.trans hv).trans hcalm').trans (Calm.of_eq rfl rfl rfl rfl rfl), ?_, hin,
    hev'.trans hev⟩
  -- distributing leaves the stream alone; forwarding moved it over
  refine Eq.trans hqueue ?_
  show v.toLogic ++ [] = _
  rw [hsent, List.append_nil]
  rfl

/-! ## Connections come and go -/

/-- The user object of a new connection. -/
def connUser (ev : EventNode) : User :=
  { uid := ev.uid, connStatus := .logined, sock := some { sfd := ev.sfd, type := .user } }

/-- The new object is the only one that changes. -/
theorem obj_onNewConnect (w : GateWorker) (ev : EventNode) (p : Ptr) :
    (w.onNewConnect ev).heap.obj p = if p = w.heap.next then connUser ev else w.heap.obj p :=
  Heap.obj_alloc ..

theorem queue_onNewConnect (w : GateWorker) (ev : EventNode) :
    (w.onNewConnect ev).queue = w.queue ++ [onlineOf w.heap.next ev.uid] :=
  (List.append_assoc ..).symm

/-- `add_conn` fills the descriptor table first. -/
theorem users_onNewConnect (w : GateWorker) (ev : EventNode) :
    (w.onNewConnect ev).users =
      (w.users.addSock (w.heap.alloc (connUser ev)).2 w.heap.next).addUid
        (w.heap.alloc (connUser ev)).2 w.heap.next := rfl

/-- A descriptor leads to the user it led to before, or to the new one. -/
theorem find_onNewConnect {ev : EventNode} {fd : Int32} {p : Ptr}
    (h : (w.onNewConnect ev).users.sockUsers.find fd = some p) :
    p = w.heap.next ∧ fd = ev.sfd ∨ w.users.sockUsers.find fd = some p := by
  have hnew : ((w.heap.alloc (connUser ev)).2.obj w.heap.next).node.sfd = ev.sfd := by
    rw [Heap.obj_alloc, if_pos rfl]
    rfl
  rw [users_onNewConnect, UserManager.sockUsers_addUid, UserManager.find_sockUsers_addSock, hnew] at h
  split_ifs at h with hfree
  · exact .inl ⟨(Option.some.inj h).symm, hfree.1⟩
  · exact .inr h

/-- A valid descriptor that is free leads to the new user from now on. -/
theorem find_onNewConnect_of_free {ev : EventNode} (hfree : w.users.sockUsers.find ev.sfd = none)
    (hpos : 0 < ev.sfd) (fd : Int32) :
    (w.onNewConnect ev).users.sockUsers.find fd =
      if fd = ev.sfd then some w.heap.next else w.users.sockUsers.find fd := by
  have hnew : ((w.heap.alloc (connUser ev)).2.obj w.heap.next).node.sfd = ev.sfd := by
    rw [Heap.obj_alloc, if_pos rfl]
    rfl
  rw [users_onNewConnect, UserManager.sockUsers_addUid, UserManager.find_sockUsers_addSock, hnew]
  simp only [hfree, hpos, and_true]

theorem node_onNewConnect (w : GateWorker) (ev : EventNode) (p : Ptr) :
    (w.onNewConnect ev).node p =
      if p = w.heap.next then { sfd := ev.sfd, type := .user } else w.node p := by
  rw [node, obj_onNewConnect]
  split_ifs <;> rfl

/-- What `on_conn_offline` queues. -/
theorem queue_onConnOffline (w : GateWorker) (user : Ptr) :
    (w.onConnOffline user).queue =
      w.queue ++ if (w.node user).type = .system then []
        else [offlineOf user (w.heap.obj user).uid] := by
  unfold onConnOffline
  simp only [queuePresence_offline]
  split_ifs
  · exact (List.append_nil _).symm
  · exact (List.append_assoc ..).symm

theorem users_onConnOffline (w : GateWorker) (user : Ptr) :
    (w.onConnOffline user).users = w.users.delConn w.heap (w.node user).sfd := by
  unfold onConnOffline
  simp only [queuePresence_offline]
  split_ifs <;> rfl

/-- What `on_conn_offline` leaves in the descriptor table: nothing under the
descriptor of the user. -/
theorem find_onConnOffline {user p : Ptr} {fd : Int32}
    (h : (w.onConnOffline user).users.sockUsers.find fd = some p) :
    w.users.sockUsers.find fd = some p ∧ fd ≠ (w.node user).sfd := by
  rw [users_onConnOffline, UserManager.delConn] at h
  cases hfind : w.users.sockUsers.find (w.node user).sfd with
  | none =>
      -- nobody was there, so nothing is erased
      simp only [hfind] at h
      refine ⟨h, ?_⟩
      rintro rfl
      rw [hfind] at h
      cases h
  | some q =>
      -- the entry is erased, whoever it was
      simp only [hfind] at h
      exact (Table.find_erase_eq_some.mp h).symm

/-- The other fields of a worker after `on_conn_offline`. -/
theorem onConnOffline_fields (w : GateWorker) (user : Ptr) :
    (w.onConnOffline user).heap = w.heap ∧ (w.onConnOffline user).logic = w.logic ∧
      (w.onConnOffline user).offline = w.offline ++ [user] ∧
      (w.onConnOffline user).rdUsers = w.rdUsers := by
  unfold onConnOffline
  simp only [queuePresence_offline]
  split_ifs <;> exact ⟨rfl, rfl, rfl, rfl⟩

theorem node_onConnOffline (w : GateWorker) (user p : Ptr) :
    (w.onConnOffline user).node p = w.node p := by
  rw [node, (onConnOffline_fields w user).1]
  rfl

end Rubo.Server.GateWorker
