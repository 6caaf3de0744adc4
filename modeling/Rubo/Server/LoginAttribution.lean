import Rubo.Foundation.Machine
import Rubo.Msgs.Framing
import Rubo.Msgs.Proto2
import Rubo.Server.GateIO

/-!
# Who Is Promoted by a Login

A promotion should be earned by the connection promoted: the login request was
read from it, and the worker is told the uid of the reply. A connection is the user
object that `on_accept()` makes for it and `_unlogin_users` holds.

- `attributed_of_along`: so it is in every run in which a login is only handled
  for a user object while no other one waits under its descriptor.
- `not_attributed_reusedFd`: a user object that lost its connection stays in
  `_unlogin_reads`. Its login, parsed late, promotes whoever has the descriptor
  by then.
-/

namespace Rubo.Server.GateIO

open Rubo.Foundation Rubo.Msgs Rubo.Util
open SocketNode (Kept Grown)

variable (rt : Runtime) {g g' : GateIO}

/-! ## What a promotion should be -/

/-- The complete frames received on a connection. -/
def receivedFrames (g : GateIO) (user : Ptr) : List Frame :=
  (frameDecoder.drain (g.node user).received).1

/-- The login request behind the reply was received on the connection promoted,
and the event for the worker carries the uid of the reply. -/
def Attributed (g : GateIO) (pr : Promotion) : Prop :=
  ∃ r, pr.rsp.src = .received r ∧ r.user = pr.user ∧
    r.frame.msgId = ProtocolDefine.userLoginReq.toInt ∧ r.frame ∈ g.receivedFrames pr.user ∧
    pr.event.uid = pr.rsp.msg.userId

/-! ## The condition -/

/-- Parsing this user leads to a successful login: its buffer holds one message,
a login request, and the database knows the name and the password. -/
def logsIn (s : GateIO × List MysqlDb) (user : Ptr) : Bool :=
  match s.1.msgCenter.parsePackage rt user (s.1.node user) with
  | ([msg], _, sock) =>
    sock.rdBuff.dataSize == 0 && msg.msgId == ProtocolDefine.userLoginReq.toInt &&
      (s.2.headD {}).getUid msg.msg.name msg.msg.passwd != -1
  | _ => false

/-- If parsing this user leads to a login, nobody else waits under its descriptor. -/
def OwnLogin (s : GateIO × List MysqlDb) (user : Ptr) : Prop :=
  logsIn rt s user = true →
    s.1.getUnloginUser (s.1.node user).sfd = none ∨
      s.1.getUnloginUser (s.1.node user).sfd = some user

instance (s : GateIO × List MysqlDb) (user : Ptr) : Decidable (OwnLogin rt s user) :=
  inferInstanceAs (Decidable (_ → _ ∨ _))

/-- The state in which a round begins to parse. -/
def beforeParsing (g : GateIO) (r : IoRound) : GateIO :=
  (g.epollOne r.events r.accepts).serveUnlogins r.io

/-- The condition on a step: every user parsed meets `OwnLogin`. -/
def LoginsOwn (g : GateIO) : Act → Prop
  | .io r =>
    Along (parseUnlogin rt) (OwnLogin rt) (g.beforeParsing r, r.dbs) (g.beforeParsing r).unloginReads
  | .worker _ _ => True

instance (g : GateIO) : (a : Act) → Decidable (LoginsOwn rt g a)
  | .io _ => inferInstanceAs (Decidable (Along ..))
  | .worker _ _ => inferInstanceAs (Decidable True)

/-! ## How a state evolves -/

/-- Every read buffer holds what its connection has received and nobody has taken. -/
def Streams (g : GateIO) : Prop :=
  ∀ p, ∃ taken, frameDecoder.Accounts (g.node p).received taken (g.node p).rdBuff.toList

/-- The users waiting for a login exist. -/
def Found (g : GateIO) : Prop := ∀ {fd p}, g.unloginUsers.find fd = some p → p < g.heap.next

/-- What all stages have in common: objects stay, streams only grow. -/
structure Evolves (g g' : GateIO) : Prop where
  next_le : g.heap.next ≤ g'.heap.next
  received : ∀ p < g.heap.next, (g.node p).received <+: (g'.node p).received
  streams : Streams g → Streams g'
  found : Found g → Found g'

theorem Evolves.refl (g : GateIO) : Evolves g g :=
  ⟨Nat.le_refl _, fun _ _ => List.prefix_refl _, id, id⟩

theorem Evolves.trans {g₁ g₂ g₃ : GateIO} (h : Evolves g₁ g₂) (h' : Evolves g₂ g₃) :
    Evolves g₁ g₃ where
  next_le := Nat.le_trans h.next_le h'.next_le
  received p hp := (h.received p hp).trans (h'.received p (Nat.lt_of_lt_of_le hp h.next_le))
  streams hs := h'.streams (h.streams hs)
  found hf := h'.found (h.found hf)

/-- Attributions do not change later. -/
theorem Attributed.evolve {pr : Promotion} (h : Attributed g pr) (he : Evolves g g')
    (hp : pr.user < g.heap.next) : Attributed g' pr := by
  obtain ⟨r, hsrc, huser, hid, hframe, huid⟩ := h
  refine ⟨r, hsrc, huser, hid, ?_, huid⟩
  -- a longer stream has the frames of the shorter one
  obtain ⟨delta, hdelta⟩ := he.received _ hp
  unfold receivedFrames
  rw [← hdelta]
  exact (Decoder.drain_fst_prefix _ delta).subset hframe

/-- Stages that only take users off the table. -/
theorem Evolves.of_heap_eq (hheap : g'.heap = g.heap)
    (hfind : ∀ {fd p}, g'.unloginUsers.find fd = some p → g.unloginUsers.find fd = some p) :
    Evolves g g' := by
  have hnode : ∀ p, g'.node p = g.node p := fun p => by rw [node, hheap]; rfl
  refine ⟨Nat.le_of_eq (by rw [hheap]), ?_, ?_, ?_⟩
  · intro p _
    rw [hnode]
  · intro hs p
    rw [hnode]
    exact hs p
  · intro hf fd p hp
    rw [hheap]
    exact hf (hfind hp)

theorem node_setNode (g : GateIO) (user : Ptr) (sock : SocketNode) (p : Ptr) :
    (g.setNode user sock).node p = if p = user then sock else g.node p :=
  node_set_sock g.heap user sock p

theorem uid_setNode (g : GateIO) (user : Ptr) (sock : SocketNode) (p : Ptr) :
    ((g.setNode user sock).heap.obj p).uid = (g.heap.obj p).uid :=
  uid_set_sock g.heap user sock p

/-- Changing a node evolves the state if its own stream allows it. -/
theorem evolves_setNode {user : Ptr} {sock : SocketNode}
    (hrec : (g.node user).received <+: sock.received)
    (hacc : ∀ taken, frameDecoder.Accounts (g.node user).received taken
      (g.node user).rdBuff.toList →
        ∃ taken', frameDecoder.Accounts sock.received taken' sock.rdBuff.toList) :
    Evolves g (g.setNode user sock) := by
  refine ⟨Nat.le_refl _, ?_, ?_, id⟩
  · intro p _
    rw [node_setNode]
    split_ifs with hp
    · rw [hp]
      exact hrec
    · exact List.prefix_refl _
  · intro hs p
    rw [node_setNode]
    split_ifs with hp
    · obtain ⟨taken, h⟩ := hs user
      exact hacc taken h
    · exact hs p

theorem evolves_setNode_of_grown {user : Ptr} {sock : SocketNode} {delta : List UInt8}
    (h : (g.node user).Grown sock delta) : Evolves g (g.setNode user sock) := by
  apply evolves_setNode
  · rw [h.received]
    exact List.prefix_append ..
  · intro taken hacc
    rw [h.received, h.rdBuff]
    exact ⟨taken, hacc.append delta⟩

/-! ## Stages without replies -/

/-- Stages that neither answer nor promote anybody. -/
structure Quiet (g g' : GateIO) : Prop extends Evolves g g' where
  rspMsgs : g'.rspMsgs = g.rspMsgs
  promotions : g'.promotions = g.promotions

theorem Quiet.refl (g : GateIO) : Quiet g g := ⟨.refl g, rfl, rfl⟩

theorem Quiet.trans {g₁ g₂ g₃ : GateIO} (h : Quiet g₁ g₂) (h' : Quiet g₂ g₃) : Quiet g₁ g₃ :=
  ⟨h.toEvolves.trans h'.toEvolves, h'.rspMsgs.trans h.rspMsgs, h'.promotions.trans h.promotions⟩

/-- The node of a new connection is empty. -/
theorem accept_some {t t' : TcpOp} {res : AcceptRes} {sock : SocketNode}
    (h : t.accept res = (some sock, t')) : sock.received = [] ∧ sock.rdBuff = .new := by
  cases res with
  | fail => cases h
  | conn fd ip port options =>
      unfold TcpOp.accept at h
      simp only at h
      split_ifs at h
      · cases h
      · cases h
      · cases h
        exact ⟨rfl, rfl⟩

theorem quiet_onAccept (g : GateIO) (res : AcceptRes) : Quiet g (g.onAccept res) := by
  unfold onAccept
  split
  · exact ⟨Evolves.of_heap_eq rfl id, rfl, rfl⟩
  · next sock t haccept =>
    obtain ⟨hrec, hbuff⟩ := accept_some haccept
    have hobj : ∀ p, ((g.heap.alloc { sock := some sock }).2.obj p).node =
        if p = g.heap.next then sock else g.node p := by
      intro p
      rw [Heap.obj_alloc]
      split_ifs <;> rfl
    refine ⟨⟨Nat.le_succ _, ?_, ?_, ?_⟩, rfl, rfl⟩
    · intro p hp
      show _ <+: ((g.heap.alloc _).2.obj p).node.received
      rw [hobj, if_neg (Nat.ne_of_lt hp)]
    · intro hs p
      show ∃ taken, frameDecoder.Accounts ((g.heap.alloc _).2.obj p).node.received taken
        ((g.heap.alloc _).2.obj p).node.rdBuff.toList
      rw [hobj]
      split_ifs with hp
      · -- the new object: nothing received, nothing taken
        rw [hrec, hbuff]
        exact ⟨[], rfl⟩
      · exact hs p
    · intro hf fd p hp
      show p < g.heap.next + 1
      -- the entry is the new user, or one that was there
      rcases Table.find_insert_eq_some hp with ⟨_, rfl⟩ | hold
      · exact Nat.lt_succ_self _
      · exact Nat.lt_succ_of_lt (hf hold)

theorem quiet_epollEvent (s : GateIO × List AcceptRes) (ev : EpollEvent) :
    Quiet s.1 (epollEvent s ev).1 := by
  obtain ⟨g, accepts⟩ := s
  unfold epollEvent
  simp only
  split_ifs
  · -- the listening socket
    exact quiet_onAccept g _
  · split
    · next user _ =>
      have hkept : (g.node user).Kept { g.node user with event := ev.mark (g.node user).event } :=
        Kept.of_eq rfl rfl rfl rfl
      exact ⟨(evolves_setNode_of_grown hkept).trans (Evolves.of_heap_eq rfl id), rfl, rfl⟩
    · unfold loginedSockop
      split
      · exact .refl g
      · exact ⟨Evolves.of_heap_eq rfl id, rfl, rfl⟩

theorem quiet_epollOne (g : GateIO) (events : List EpollEvent) (accepts : List AcceptRes) :
    Quiet g (g.epollOne events accepts) := by
  have hloop : Quiet g (Rubo.Foundation.run epollEvent (g, accepts) events).1 :=
    run_invariant (I := fun s => Quiet g s.1) (fun s ev h => h.trans (quiet_epollEvent s ev))
      (.refl g) events
  exact hloop

theorem quiet_serveUnlogin (io : Int32 → KernelIo) (g : GateIO) (user : Ptr) :
    Quiet g (g.serveUnlogin io user) := by
  obtain ⟨delta, hgrown, _⟩ := TcpOp.grown_eventOp g.tcpOp (g.node user) (io (g.node user).sfd)
  have hserved := evolves_setNode_of_grown hgrown
  unfold serveUnlogin
  generalize g.tcpOp.eventOp (g.node user) (io (g.node user).sfd) = op at hserved ⊢
  obtain ⟨ret, tcpOp, sock⟩ := op
  simp only
  split_ifs
  · -- the connection has failed: an entry of the table is erased
    refine ⟨hserved.trans (Evolves.of_heap_eq rfl ?_), rfl, rfl⟩
    intro fd p hp
    exact (Table.find_erase_eq_some.mp hp).2
  · exact ⟨hserved.trans (Evolves.of_heap_eq rfl id), rfl, rfl⟩
  · exact ⟨hserved.trans (Evolves.of_heap_eq rfl id), rfl, rfl⟩

theorem quiet_beforeParsing (g : GateIO) (r : IoRound) : Quiet g (g.beforeParsing r) := by
  have hserve : ∀ v : GateIO, Quiet v (v.serveUnlogins r.io) := by
    intro v
    have hloop : Quiet v (v.unloginEvents.foldl (serveUnlogin r.io) v) :=
      run_invariant (I := Quiet v) (fun u user h => h.trans (quiet_serveUnlogin r.io u user))
        (.refl v) v.unloginEvents
    exact hloop.trans ⟨Evolves.of_heap_eq rfl id, rfl, rfl⟩
  exact (quiet_epollOne g r.events r.accepts).trans (hserve _)

/-! ## Parsing -/

/-- A reply to a successful login. -/
def IsLogin (msg : UserMsg) : Prop :=
  msg.msgId = ProtocolDefine.userLoginRsp.toInt ∧ msg.msg.isOK = true

/-- The reply answers the login request `r`: of a connection that still carries
the uid of the reply, and that nobody else has replaced. -/
structure Answers (g : GateIO) (msg : UserMsg) (r : Received) : Prop where
  src : msg.src = .received r
  sfd : msg.sfd = (g.node r.user).sfd
  msgId : r.frame.msgId = ProtocolDefine.userLoginReq.toInt
  frame : r.frame ∈ g.receivedFrames r.user
  uid : (g.heap.obj r.user).uid = msg.msg.userId
  own : g.getUnloginUser msg.sfd = none ∨ g.getUnloginUser msg.sfd = some r.user

theorem Answers.congr {msg : UserMsg} {r : Received} (h : Answers g msg r)
    (hsfd : (g'.node r.user).sfd = (g.node r.user).sfd)
    (hrec : (g'.node r.user).received = (g.node r.user).received)
    (huid : (g'.heap.obj r.user).uid = (g.heap.obj r.user).uid)
    (hfind : ∀ {fd p}, g'.unloginUsers.find fd = some p → g.unloginUsers.find fd = some p) :
    Answers g' msg r := by
  refine ⟨h.src, h.sfd.trans hsfd.symm, h.msgId, ?_, huid.trans h.uid, ?_⟩
  · unfold receivedFrames
    rw [hrec]
    exact h.frame
  · unfold getUnloginUser
    -- entries may go, but none is replaced
    cases hp : g'.unloginUsers.find msg.sfd with
    | none => exact .inl rfl
    | some p =>
        rcases h.own with hnone | hsome
        · rw [getUnloginUser, hfind hp] at hnone
          cases hnone
        · rw [getUnloginUser, hfind hp] at hsome
          exact .inr hsome

/-- While a round parses: whoever is about to be answered has nothing left to parse. -/
def RepliesOk (g : GateIO) : Prop :=
  ∀ msg ∈ g.rspMsgs, IsLogin msg → ∃ r, Answers g msg r ∧ (g.node r.user).rdBuff.toList = []

/-- What `handler_unlogin_msgs` can do with the messages of a user. -/
theorem takeUnlogin_cases (g : GateIO) (dbs : List MysqlDb) (user : Ptr) (msgs : List UserMsg) :
    (takeUnlogin (g, dbs) user msgs).1.promotions = g.promotions ∧
      (∀ {fd p}, (takeUnlogin (g, dbs) user msgs).1.unloginUsers.find fd = some p →
        g.unloginUsers.find fd = some p) ∧
      (((takeUnlogin (g, dbs) user msgs).1.heap = g.heap ∧
        ((takeUnlogin (g, dbs) user msgs).1.rspMsgs = g.rspMsgs ∨
          ∃ ret, (takeUnlogin (g, dbs) user msgs).1.rspMsgs = g.rspMsgs ++ [ret] ∧
            ret.msgId ≠ ProtocolDefine.userLoginRsp.toInt)) ∨
        ∃ msg, msgs = [msg] ∧ (g.node user).rdBuff.dataSize = 0 ∧
          msg.msgId = ProtocolDefine.userLoginReq.toInt ∧
          (takeUnlogin (g, dbs) user msgs).1.heap =
            (Gate.onUserLogin (dbs.headD {}) msg user (g.heap, g.rspMsgs)).1 ∧
          (takeUnlogin (g, dbs) user msgs).1.rspMsgs =
            (Gate.onUserLogin (dbs.headD {}) msg user (g.heap, g.rspMsgs)).2 ∧
          (takeUnlogin (g, dbs) user msgs).1.unloginUsers = g.unloginUsers) := by
  -- kicking out answers nobody
  have hkick : (g.kickOut user).promotions = g.promotions ∧
      (∀ {fd p}, (g.kickOut user).unloginUsers.find fd = some p →
        g.unloginUsers.find fd = some p) ∧
      (g.kickOut user).heap = g.heap ∧ (g.kickOut user).rspMsgs = g.rspMsgs :=
    ⟨rfl, fun hp => (Table.find_erase_eq_some.mp hp).2, rfl, rfl⟩
  cases msgs with
  | nil => exact ⟨rfl, id, .inl ⟨rfl, .inl rfl⟩⟩
  | cons msg msgs =>
      cases msgs with
      -- more than one message
      | cons msg' msgs => exact ⟨hkick.1, hkick.2.1, .inl ⟨rfl, .inl rfl⟩⟩
      | nil =>
          unfold takeUnlogin
          simp only
          split_ifs with hrest hid
          · exact ⟨hkick.1, hkick.2.1, .inl ⟨rfl, .inl rfl⟩⟩
          · exact ⟨hkick.1, hkick.2.1, .inl ⟨rfl, .inl rfl⟩⟩
          · split
            · exact ⟨hkick.1, hkick.2.1, .inl ⟨rfl, .inl rfl⟩⟩
            · next f hf =>
              -- a handler was called
              refine ⟨rfl, id, ?_⟩
              rcases Gate.getMsgHandler_cases hf with ⟨hlogin, rfl⟩ | hother
              · exact .inr ⟨msg, rfl, not_not.mp hrest, hlogin, rfl, rfl, rfl⟩
              · exact .inl (hother (dbs.headD {}) msg user g.heap g.rspMsgs)

/-- A message parsed alone is the envelope of a frame taken. -/
theorem exists_envelope_of_singleton {user : Ptr} {sfd : Int32} {msg : UserMsg} {xs : List UInt8}
    (h : List.Forall₂ (MsgCenter.IsEnvelope rt user sfd) [msg]
      ((MsgCenter.taken xs).1.takeWhile fun f => MsgCenter.registered f.msgId)) :
    ∃ f ∈ (MsgCenter.taken xs).1, MsgCenter.IsEnvelope rt user sfd msg f := by
  generalize hfs : ((MsgCenter.taken xs).1.takeWhile fun f => MsgCenter.registered f.msgId) = fs at h
  cases h with
  | @cons _ f _ fs henv _ =>
      refine ⟨f, ?_, henv⟩
      have hmem : f ∈ (MsgCenter.taken xs).1.takeWhile fun f => MsgCenter.registered f.msgId := by
        rw [hfs]
        exact List.mem_cons_self ..
      exact (List.takeWhile_prefix _).subset hmem

/-- The state after `parse_package`, before its messages are looked at. -/
theorem parseUnlogin_spec (g : GateIO) (dbs : List MysqlDb) (user : Ptr) :
    ∃ buff msgs mc, buff.toList = (MsgCenter.taken (g.node user).rdBuff.toList).2 ∧
      g.msgCenter.parsePackage rt user (g.node user) =
        (msgs, mc, { g.node user with rdBuff := buff }) ∧
      List.Forall₂ (MsgCenter.IsEnvelope rt user (g.node user).sfd) msgs
        ((MsgCenter.taken (g.node user).rdBuff.toList).1.takeWhile fun f =>
          MsgCenter.registered f.msgId) ∧
      parseUnlogin rt (g, dbs) user =
        takeUnlogin ({ g.setNode user { g.node user with rdBuff := buff } with msgCenter := mc }, dbs)
          user msgs := by
  obtain ⟨buff, hbuff, hparse⟩ := MsgCenter.parsePackage_eq rt user g.msgCenter (g.node user)
  refine ⟨buff, _, _, hbuff, hparse, MsgCenter.envelopes_forall₂ .., ?_⟩
  simp only [parseUnlogin, hparse]

/-- Parsing evolves the state: what leaves the buffer has been taken. -/
theorem evolves_parsed {user : Ptr} {buff : RingBuffPtr}
    (hbuff : buff.toList = (MsgCenter.taken (g.node user).rdBuff.toList).2) (mc : MsgCenter) :
    Evolves g { g.setNode user { g.node user with rdBuff := buff } with msgCenter := mc } := by
  have hset : Evolves g (g.setNode user { g.node user with rdBuff := buff }) := by
    refine evolves_setNode (List.prefix_refl _) ?_
    intro taken hacc
    refine ⟨taken ++ (MsgCenter.taken (g.node user).rdBuff.toList).1, ?_⟩
    rw [hbuff]
    exact hacc.drainUntil fun f => !MsgCenter.registered f.msgId
  exact hset.trans (Evolves.of_heap_eq rfl id)

/-- Changing the uid of a user leaves its node alone. -/
theorem evolves_setUid (user : Ptr) (uid : Int32) (heap : Heap User)
    (hheap : heap = g.heap.set user { g.heap.obj user with uid := uid })
    (hg : g'.heap = heap) (hfind : g'.unloginUsers = g.unloginUsers) : Evolves g g' := by
  have hnode : ∀ p, g'.node p = g.node p := by
    intro p
    rw [node, hg, hheap, Heap.obj_set]
    split_ifs with hp
    · rw [hp]
      rfl
    · rfl
  have hnext : g'.heap.next = g.heap.next := by rw [hg, hheap]; rfl
  refine ⟨Nat.le_of_eq hnext.symm, ?_, ?_, ?_⟩
  · intro p _
    rw [hnode]
  · intro hs p
    rw [hnode]
    exact hs p
  · intro hf fd p hp
    rw [hnext]
    rw [hfind] at hp
    exact hf hp

/-- The state `v` is `g` with this read buffer for the user. -/
structure WithRdBuff (g v : GateIO) (user : Ptr) (buff : RingBuffPtr) : Prop where
  node : ∀ p, v.node p = if p = user then { g.node user with rdBuff := buff } else g.node p
  uid : ∀ p, (v.heap.obj p).uid = (g.heap.obj p).uid
  unloginUsers : v.unloginUsers = g.unloginUsers
  rspMsgs : v.rspMsgs = g.rspMsgs
  promotions : v.promotions = g.promotions

theorem withRdBuff_setNode (g : GateIO) (user : Ptr) (buff : RingBuffPtr) (mc : MsgCenter) :
    WithRdBuff g { g.setNode user { g.node user with rdBuff := buff } with msgCenter := mc } user
      buff where
  node p := node_setNode g user _ p
  uid p := uid_setNode g user _ p
  unloginUsers := rfl
  rspMsgs := rfl
  promotions := rfl

variable {v w : GateIO} {user : Ptr} {buff : RingBuffPtr}

theorem WithRdBuff.kept (h : WithRdBuff g v user buff) (p : Ptr) :
    (v.node p).sfd = (g.node p).sfd ∧ (v.node p).received = (g.node p).received := by
  rw [h.node]
  split_ifs with hp
  · rw [hp]
    exact ⟨rfl, rfl⟩
  · exact ⟨rfl, rfl⟩

/-- Parsing leaves the answers as they are: a user about to be answered has
nothing to parse. -/
theorem RepliesOk.parsed (hok : RepliesOk g) (h : WithRdBuff g v user buff)
    (hbuff : buff.toList = (MsgCenter.taken (g.node user).rdBuff.toList).2) :
    ∀ msg ∈ v.rspMsgs, IsLogin msg → ∃ r, Answers v msg r ∧ (v.node r.user).rdBuff.toList = [] ∧
      (r.user = user → (g.node user).rdBuff.toList = []) := by
  intro msg hmsg hlogin
  rw [h.rspMsgs] at hmsg
  obtain ⟨r, hans, hempty⟩ := hok msg hmsg hlogin
  have hans' : Answers v msg r :=
    hans.congr (h.kept r.user).1 (h.kept r.user).2 (h.uid r.user) (by rw [h.unloginUsers]; exact id)
  refine ⟨r, hans', ?_, ?_⟩
  · rw [h.node]
    split_ifs with hp
    · rw [hp] at hempty
      show buff.toList = []
      rw [hbuff, hempty]
      rfl
    · exact hempty
  · intro hp
    rwa [hp] at hempty

/-- Nobody logs in: every login reply was there before. -/
theorem RepliesOk.of_heap_eq (hok : RepliesOk v) (hheap : w.heap = v.heap)
    (hfind : ∀ {fd p}, w.unloginUsers.find fd = some p → v.unloginUsers.find fd = some p)
    (hrsp : w.rspMsgs = v.rspMsgs ∨ ∃ ret, w.rspMsgs = v.rspMsgs ++ [ret] ∧
      ret.msgId ≠ ProtocolDefine.userLoginRsp.toInt) : RepliesOk w := by
  intro msg hmsg hlogin
  have hnode : ∀ p, w.node p = v.node p := fun p => by rw [node, hheap]; rfl
  have hmem : msg ∈ v.rspMsgs := by
    rcases hrsp with hsame | ⟨ret, hmore, hret⟩
    · rwa [hsame] at hmsg
    · rw [hmore] at hmsg
      rcases List.mem_append.mp hmsg with hmsg | hmsg
      · exact hmsg
      · rw [List.mem_singleton.mp hmsg] at hlogin
        exact absurd hlogin.1 hret
  obtain ⟨r, hans, hempty⟩ := hok msg hmem hlogin
  refine ⟨r, hans.congr (by rw [hnode]) (by rw [hnode]) (by rw [hheap]) hfind, ?_⟩
  rw [hnode]
  exact hempty

/-- A login request parsed alone is a frame received, and its user the one that
`OwnLogin` is about. -/
theorem exists_request {dbs : List MysqlDb} {msg : UserMsg} {mc : MsgCenter} (hs : Streams g)
    (hparse : g.msgCenter.parsePackage rt user (g.node user) =
      ([msg], mc, { g.node user with rdBuff := buff }))
    (henv : List.Forall₂ (MsgCenter.IsEnvelope rt user (g.node user).sfd) [msg]
      ((MsgCenter.taken (g.node user).rdBuff.toList).1.takeWhile fun f =>
        MsgCenter.registered f.msgId))
    (hempty : buff.toList.length = 0) (hid : msg.msgId = ProtocolDefine.userLoginReq.toInt)
    (huid : (dbs.headD {}).getUid msg.msg.name msg.msg.passwd ≠ -1) :
    logsIn rt (g, dbs) user = true ∧ msg.sfd = (g.node user).sfd ∧
      ∃ r : Received, msg.src = .received r ∧ r.user = user ∧
        r.frame.msgId = ProtocolDefine.userLoginReq.toInt ∧ r.frame ∈ g.receivedFrames user := by
  obtain ⟨f, hf, mc', t, htype, rfl⟩ := exists_envelope_of_singleton rt henv
  refine ⟨?_, rfl, _, rfl, rfl, hid, ?_⟩
  · simp only [logsIn, hparse, RingBuffPtr.dataSize_eq, hempty]
    rw [Bool.and_eq_true, Bool.and_eq_true, bne_iff_ne]
    exact ⟨⟨rfl, beq_iff_eq.mpr hid⟩, huid⟩
  · obtain ⟨taken, hacc⟩ := hs user
    exact hacc.mem_drain hf

/-- **Parsing one user**: the state evolves, nobody is promoted, and every login
reply answers a request of the user object waiting under its descriptor. -/
theorem parseUnlogin_ok {s : GateIO × List MysqlDb} (hs : Streams s.1)
    (hown : OwnLogin rt s user) (hok : RepliesOk s.1) :
    Evolves s.1 (parseUnlogin rt s user).1 ∧
      (parseUnlogin rt s user).1.promotions = s.1.promotions ∧
      RepliesOk (parseUnlogin rt s user).1 := by
  obtain ⟨g, dbs⟩ := s
  obtain ⟨buff, msgs, mc, hbuff, hparse, henv, heq⟩ := parseUnlogin_spec rt g dbs user
  have hparsed := evolves_parsed hbuff mc
  have hv := withRdBuff_setNode g user buff mc
  rw [heq]
  generalize { g.setNode user { g.node user with rdBuff := buff } with msgCenter := mc } = v
    at hparsed hv ⊢
  have hold := hok.parsed hv hbuff
  obtain ⟨hprom, hfind, hcases⟩ := takeUnlogin_cases v dbs user msgs
  generalize takeUnlogin (v, dbs) user msgs = w at hprom hfind hcases ⊢
  rcases hcases with ⟨hheap, hrsp⟩ | ⟨msg, rfl, hrest, hid, hheap, hrsp, husers⟩
  · refine ⟨hparsed.trans (Evolves.of_heap_eq hheap hfind), hprom.trans hv.promotions, ?_⟩
    have hokv : RepliesOk v := by
      intro msg hmsg hlogin
      obtain ⟨r, hans, hempty, _⟩ := hold msg hmsg hlogin
      exact ⟨r, hans, hempty⟩
    exact hokv.of_heap_eq hheap hfind hrsp
  · -- a login was handled: `_uid` is written and one reply added
    obtain ⟨ret, hlogin, hsrc, hsfd, huid⟩ :=
      Gate.onUserLogin_spec (dbs.headD {}) msg user v.heap v.rspMsgs
    rw [hlogin] at hheap hrsp
    have hnode : ∀ p, w.1.node p = v.node p := by
      intro p
      rw [node, hheap, Heap.obj_set]
      split_ifs with hp
      · rw [hp]
        rfl
      · rfl
    refine ⟨hparsed.trans (evolves_setUid user _ _ rfl hheap husers), hprom.trans hv.promotions, ?_⟩
    intro reply hreply hislogin
    rw [hrsp] at hreply
    rcases List.mem_append.mp hreply with hmem | hmem
    · obtain ⟨r, hans, hempty, hnone⟩ := hold reply hmem hislogin
      -- a reply from before: its user had nothing to parse
      have hne : r.user ≠ user := by
        intro hp
        rw [hnone hp] at henv
        cases henv
      refine ⟨r, hans.congr (by rw [hnode]) (by rw [hnode]) ?_ hfind, by rw [hnode]; exact hempty⟩
      rw [hheap, Heap.obj_set_of_ne _ hne]
    · -- the reply to the login just handled
      rw [List.mem_singleton.mp hmem] at hislogin ⊢
      have hwuser : w.1.node user = { g.node user with rdBuff := buff } := by
        rw [hnode, hv.node, if_pos rfl]
      have hempty : buff.toList.length = 0 := by
        rw [← hnode, hwuser, RingBuffPtr.dataSize_eq] at hrest
        exact hrest
      obtain ⟨hlogsIn, hmsgfd, r, hr, rfl, hreq, hframe⟩ :=
        exists_request rt hs hparse henv hempty hid (huid hislogin.2).1
      refine ⟨r, ⟨hsrc.trans hr, ?_, hreq, ?_, ?_, ?_⟩, ?_⟩
      · rw [hsfd, hmsgfd, hwuser]
      · rw [receivedFrames, hwuser]
        exact hframe
      · rw [hheap, Heap.obj_set_self, (huid hislogin.2).2]
      · -- this is what the condition is about
        rw [getUnloginUser, husers, hv.unloginUsers, hsfd, hmsgfd]
        exact hown hlogsIn
      · rw [hwuser]
        exact List.length_eq_zero_iff.mp hempty

/-- The loop of `handler_unlogin_msgs`. -/
theorem handlerUnloginMsgs_ok {dbs : List MysqlDb} (hs : Streams g) (hrsp : g.rspMsgs = [])
    (hown : Along (parseUnlogin rt) (OwnLogin rt) (g, dbs) g.unloginReads) :
    Evolves g (g.handlerUnloginMsgs rt dbs) ∧
      (g.handlerUnloginMsgs rt dbs).promotions = g.promotions ∧
      RepliesOk (g.handlerUnloginMsgs rt dbs) := by
  have hnone : RepliesOk g := by
    intro msg hmsg
    rw [hrsp] at hmsg
    exact absurd hmsg List.not_mem_nil
  refine run_invariant_of_along
    (I := fun s => Evolves g s.1 ∧ s.1.promotions = g.promotions ∧ RepliesOk s.1) ?_
    ⟨.refl g, rfl, hnone⟩ hown
  rintro s user ⟨he, hprom, hok⟩ huser
  obtain ⟨he', hprom', hok'⟩ := parseUnlogin_ok rt (he.streams hs) huser hok
  exact ⟨he.trans he', hprom'.trans hprom, hok'⟩

/-! ## Replying -/

/-- Promotions are attributed, to users that exist. -/
def PromotionsOk (g : GateIO) : Prop :=
  ∀ pr ∈ g.promotions, pr.user < g.heap.next ∧ Attributed g pr

theorem PromotionsOk.evolve (h : PromotionsOk g) (he : Evolves g g')
    (hprom : g'.promotions = g.promotions) : PromotionsOk g' := by
  intro pr hpr
  rw [hprom] at hpr
  obtain ⟨hlt, hatt⟩ := h pr hpr
  exact ⟨Nat.lt_of_lt_of_le hlt he.next_le, hatt.evolve he hlt⟩

/-- What a reply means for its connection: users may leave the table, and a login
promotes the user found there. -/
theorem applyReply_cases (g : GateIO) (workerInit : Int32 → Bool) (user : Ptr) (msg : UserMsg) :
    (g.applyReply workerInit user msg).heap = g.heap ∧
      (∀ {fd p}, (g.applyReply workerInit user msg).unloginUsers.find fd = some p →
        g.unloginUsers.find fd = some p) ∧
      ((g.applyReply workerInit user msg).promotions = g.promotions ∨
        IsLogin msg ∧ ∃ event : EventNode, event.uid = (g.heap.obj user).uid ∧
          event.sfd = (g.node user).sfd ∧
          (g.applyReply workerInit user msg).promotions = g.promotions ++ [⟨user, msg, event⟩]) := by
  unfold applyReply
  split_ifs with hverify hok hlogin hok
  · -- a verification takes the user off the table
    unfold onLogicVerifyed
    simp only
    split_ifs
    · exact ⟨rfl, fun hp => (Table.find_erase_eq_some.mp hp).2, .inl rfl⟩
    · exact ⟨rfl, fun hp => (Table.find_erase_eq_some.mp hp).2, .inl rfl⟩
  · exact ⟨rfl, id, .inl rfl⟩
  · -- a login also promotes, if there is a worker
    unfold onUserLogined
    simp only
    split
    · exact ⟨rfl, fun hp => (Table.find_erase_eq_some.mp hp).2, .inl rfl⟩
    · exact ⟨rfl, fun hp => (Table.find_erase_eq_some.mp hp).2,
        .inr ⟨⟨hlogin, hok⟩, _, rfl, rfl, rfl⟩⟩
  · exact ⟨rfl, id, .inl rfl⟩
  · exact ⟨rfl, id, .inl rfl⟩

/-- The replies still to be sent answer the users waiting for them. -/
def AnswersOk (g : GateIO) (msgs : List UserMsg) : Prop :=
  ∀ msg ∈ msgs, IsLogin msg → ∃ r, Answers g msg r

/-- The user found under the descriptor of a login reply is the one that asked. -/
theorem Answers.user_eq {msg : UserMsg} {r : Received} (h : Answers g msg r)
    (huser : g.getUnloginUser msg.sfd = some user) : r.user = user := by
  rcases h.own with hnone | hsome
  · rw [huser] at hnone
    cases hnone
  · rw [huser] at hsome
    exact (Option.some.inj hsome).symm

theorem promotionsOk_applyReply (workerInit : Int32 → Bool) {msg : UserMsg} {msgs : List UserMsg}
    (hf : Found g) (huser : g.getUnloginUser msg.sfd = some user)
    (hans : AnswersOk g (msg :: msgs)) (hprom : PromotionsOk g) :
    PromotionsOk (g.applyReply workerInit user msg) := by
  obtain ⟨hheap, hfind, hcases⟩ := applyReply_cases g workerInit user msg
  generalize g.applyReply workerInit user msg = v at hheap hfind hcases ⊢
  have hv : Evolves g v := Evolves.of_heap_eq hheap hfind
  rcases hcases with hsame | ⟨hlogin, event, hevent, _, hmore⟩
  · exact hprom.evolve hv hsame
  · intro pr hpr
    rw [hmore] at hpr
    rcases List.mem_append.mp hpr with hpr | hpr
    · obtain ⟨hlt, hatt⟩ := hprom pr hpr
      exact ⟨Nat.lt_of_lt_of_le hlt hv.next_le, hatt.evolve hv hlt⟩
    · rw [List.mem_singleton.mp hpr]
      obtain ⟨r, hr⟩ := hans msg (List.mem_cons_self ..) hlogin
      have hru := hr.user_eq huser
      refine ⟨Nat.lt_of_lt_of_le (hf huser) hv.next_le, r, hr.src, hru, hr.msgId, ?_, ?_⟩
      · have hnode : v.node user = g.node user := by
          rw [node, hheap]
          rfl
        show r.frame ∈ v.receivedFrames user
        rw [receivedFrames, hnode, ← hru]
        exact hr.frame
      · rw [hevent, ← hru]
        exact hr.uid

/-- Writing changes no reading side, so the other answers stay. -/
theorem AnswersOk.setNode {msgs : List UserMsg} {sock : SocketNode} (h : AnswersOk g msgs)
    (hk : (v.node user).Kept sock) (hheap : v.heap = g.heap)
    (hfind : ∀ {fd p}, v.unloginUsers.find fd = some p → g.unloginUsers.find fd = some p)
    (tcpOp : TcpOp) : AnswersOk { v.setNode user sock with tcpOp := tcpOp } msgs := by
  intro msg hmsg hlogin
  have hnode : ∀ p, v.node p = g.node p := fun p => by rw [node, hheap]; rfl
  obtain ⟨r, hr⟩ := h msg hmsg hlogin
  refine ⟨r, hr.congr ?_ ?_ ?_ hfind⟩
  · show ((v.setNode user sock).node r.user).sfd = _
    rw [node_setNode, ← hnode r.user]
    split_ifs with hp
    · rw [hk.sfd, hp]
    · rfl
  · show ((v.setNode user sock).node r.user).received = _
    rw [node_setNode, ← hnode r.user]
    split_ifs with hp
    · rw [hk.received, List.append_nil, hp]
    · rfl
  · show ((v.setNode user sock).heap.obj r.user).uid = _
    rw [uid_setNode, hheap]

/-- **Replying to one message**: if it promotes somebody, then its sender. -/
theorem handlerReply_ok (workerInit : Int32 → Bool) {s : GateIO × List WriteRes} {msg : UserMsg}
    {msgs : List UserMsg} (hf : Found s.1) (hans : AnswersOk s.1 (msg :: msgs))
    (hprom : PromotionsOk s.1) :
    Evolves s.1 (handlerReply rt workerInit s msg).1 ∧
      AnswersOk (handlerReply rt workerInit s msg).1 msgs ∧
      PromotionsOk (handlerReply rt workerInit s msg).1 := by
  obtain ⟨g, writes⟩ := s
  have hrest : AnswersOk g msgs := fun m hm => hans m (List.mem_cons_of_mem _ hm)
  unfold handlerReply
  simp only
  cases huser : g.getUnloginUser msg.sfd with
  | none => exact ⟨.refl g, hrest, hprom⟩
  | some user =>
      simp only
      have hpv := promotionsOk_applyReply workerInit hf huser hans hprom
      obtain ⟨hheap, hfind, _⟩ := applyReply_cases g workerInit user msg
      generalize g.applyReply workerInit user msg = v at hpv hheap hfind ⊢
      have hkept := TcpOp.kept_writeMsg rt.toProtobuf v.tcpOp (v.node user) msg writes
      generalize v.tcpOp.writeMsg rt.toProtobuf (v.node user) msg writes = w at hkept ⊢
      obtain ⟨ret, tcpOp, sock, writes'⟩ := w
      simp only at hkept ⊢
      have hsent : Evolves v { v.setNode user sock with tcpOp := tcpOp } :=
        (evolves_setNode_of_grown hkept).trans (Evolves.of_heap_eq rfl id)
      exact ⟨(Evolves.of_heap_eq hheap hfind).trans hsent,
        hrest.setNode hkept hheap hfind tcpOp, hpv.evolve hsent rfl⟩

/-- The loop of `handler_replys`. -/
theorem handlerReplys_ok (workerInit : Int32 → Bool) (writes : List WriteRes) (hf : Found g)
    (hans : AnswersOk g g.rspMsgs) (hprom : PromotionsOk g) :
    Evolves g (g.handlerReplys rt workerInit writes) ∧
      PromotionsOk (g.handlerReplys rt workerInit writes) := by
  have hloop : ∀ (msgs : List UserMsg) (s : GateIO × List WriteRes), Found s.1 →
      AnswersOk s.1 msgs → PromotionsOk s.1 →
        Evolves s.1 (msgs.foldl (handlerReply rt workerInit) s).1 ∧
          PromotionsOk (msgs.foldl (handlerReply rt workerInit) s).1 := by
    intro msgs
    induction msgs with
    | nil => exact fun s _ _ hprom => ⟨.refl s.1, hprom⟩
    | cons msg msgs ih =>
        intro s hf hans hprom
        obtain ⟨he, hans', hprom'⟩ := handlerReply_ok rt workerInit hf hans hprom
        obtain ⟨he', hprom''⟩ := ih _ (he.found hf) hans' hprom'
        exact ⟨he.trans he', hprom''⟩
  obtain ⟨he, hprom'⟩ := hloop g.rspMsgs (g, writes) hf hans hprom
  have hclear : Evolves (g.rspMsgs.foldl (handlerReply rt workerInit) (g, writes)).1
      (g.handlerReplys rt workerInit writes) := Evolves.of_heap_eq rfl id
  exact ⟨he.trans hclear, hprom'.evolve hclear rfl⟩

/-! ## Runs -/

/-- Between two steps nobody waits for a reply, and all promotions so far are
attributed. -/
structure Sound (g : GateIO) : Prop where
  streams : Streams g
  found : Found g
  rspMsgs : g.rspMsgs = []
  promotions : PromotionsOk g

theorem sound_init (sockFd : Int32) : Sound (init sockFd) where
  streams _ := ⟨[], rfl⟩
  found hp := by cases hp
  rspMsgs := rfl
  promotions _ hpr := by cases hpr

/-- The workers and the IO thread share no user object. -/
theorem Sound.of_wokers {v : GateIO} (h : Sound g)
    (hv : v = { g with wokers := v.wokers, tcpOp := v.tcpOp }) : Sound v := by
  have he : Evolves g v := by
    rw [hv]
    exact Evolves.of_heap_eq rfl id
  have hprom : v.promotions = g.promotions := by rw [hv]
  exact ⟨he.streams h.streams, he.found h.found, by rw [hv]; exact h.rspMsgs,
    h.promotions.evolve he hprom⟩

/-- A round of the IO thread. -/
theorem sound_run {r : IoRound} (h : Sound g) (hown : LoginsOwn rt g (.io r)) :
    Sound (g.run rt r) := by
  have hquiet := quiet_beforeParsing g r
  obtain ⟨he, hprom, hok⟩ :=
    handlerUnloginMsgs_ok rt (hquiet.streams h.streams) (hquiet.rspMsgs.trans h.rspMsgs) hown
  generalize hu : (g.beforeParsing r).handlerUnloginMsgs rt r.dbs = u at he hprom hok
  have hgu := hquiet.toEvolves.trans he
  have hans : AnswersOk u u.rspMsgs := by
    intro msg hmsg hlogin
    obtain ⟨q, hq, _⟩ := hok msg hmsg hlogin
    exact ⟨q, hq⟩
  rcases handlerReplys_ok rt r.workerInit r.writes (hgu.found h.found) hans
    (h.promotions.evolve hgu (hprom.trans hquiet.promotions)) with ⟨hreplys, hpromotions⟩
  have hsent := hgu.trans hreplys
  have hsound : Sound (u.handlerReplys rt r.workerInit r.writes) :=
    ⟨hsent.streams h.streams, hsent.found h.found, rfl, hpromotions⟩
  -- `notify_workers` only moves events
  have hrun : g.run rt r = (u.handlerReplys rt r.workerInit r.writes).notifyWorkers := by
    rw [← hu]
    rfl
  rw [hrun]
  exact hsound.of_wokers rfl

theorem sound_step {a : Act} (h : Sound g) (hown : LoginsOwn rt g a) : Sound (step rt g a) := by
  cases a with
  | io r => exact sound_run rt h hown
  | worker i r =>
      simp only [step]
      split
      · exact h
      · exact h.of_wokers rfl

/-- **Promotions are earned by the connection promoted**, in every run in which a
login is only handled for a user object while no other one waits under its
descriptor. -/
theorem attributed_of_along {sockFd : Int32} {acts : List Act}
    (hown : Along (step rt) (LoginsOwn rt) (init sockFd) acts) :
    ∀ pr ∈ (Rubo.Foundation.run (step rt) (init sockFd) acts).promotions,
      Attributed (Rubo.Foundation.run (step rt) (init sockFd) acts) pr := by
  intro pr hpr
  have h : Sound (Rubo.Foundation.run (step rt) (init sockFd) acts) :=
    run_invariant_of_along (fun g a => sound_step rt) (sound_init sockFd) hown
  exact (h.promotions pr hpr).2

/-! ## Runs on fixed inputs -/

/-- The verification of a Logic server named "a". -/
def verifyFrame : Frame := ⟨ProtocolDefine.systemVerifyReq.toInt, 0, [10, 1, 97]⟩

/-- The login of "a" with the password "b". -/
def loginFrame : Frame := ⟨ProtocolDefine.userLoginReq.toInt, 0, [10, 1, 97, 18, 1, 98]⟩

/-- A frame with an id that is not registered: `parse_package` stops behind it. -/
def unknownFrame : Frame := ⟨77, 0, [8, 1]⟩

/-- A database in which "a" with the password "b" has uid 1. -/
def oneUserDb : MysqlDb where
  getUid name passwd := if name = [97] ∧ passwd = [98] then 1 else -1

/-- A Logic server connects under descriptor 4 and is verified. -/
def logicConnects : List Act :=
  [.io { ready := .one ⟨3, true, false⟩, accepts := [.conn 4 "" 0 true] },
   .io { ready := .one ⟨4, true, false⟩, io := fun _ => { reads := [.data verifyFrame.encode] } }]

/-- Then a client connects and logs in. -/
def clientLogsIn : List Act :=
  logicConnects ++
    [.io { ready := .one ⟨3, true, false⟩, accepts := [.conn 5 "" 0 true] },
     .io { ready := .one ⟨5, true, false⟩
           io := fun _ => { reads := [.data loginFrame.encode] }
           dbs := [oneUserDb] }]

/-- The client of `clientLogsIn` is promoted with uid 1, and it has earned it. -/
theorem attributed_clientLogsIn :
    ((Rubo.Foundation.run (step .proto2) (init 3) clientLogsIn).promotions.map
        fun pr => (pr.user, pr.event.uid)) = [(1, 1)] ∧
      ∀ pr ∈ (Rubo.Foundation.run (step .proto2) (init 3) clientLogsIn).promotions,
        Attributed (Rubo.Foundation.run (step .proto2) (init 3) clientLogsIn) pr :=
  ⟨by decide +kernel, attributed_of_along .proto2 (by decide +kernel)⟩

/-- A client sends two unknown frames and its login, and leaves. The kernel gives
its descriptor to the next client in the round that parses the login. -/
def reusedFd : List Act :=
  logicConnects ++
    [.io { ready := .one ⟨3, true, false⟩, accepts := [.conn 5 "" 0 true] },
     .io { ready := .one ⟨5, true, false⟩
           io := fun _ =>
             { reads := [.data (unknownFrame.encode ++ unknownFrame.encode ++ loginFrame.encode)] } },
     .io { ready := .one ⟨5, true, false⟩, io := fun _ => { reads := [.eof] } },
     .io { ready := .one ⟨3, true, false⟩
           accepts := [.conn 5 "" 0 true]
           dbs := [oneUserDb] }]

/-- Promotions are not earned in general: the second client of `reusedFd`, which
has sent nothing, is promoted by the login of the first one, and the event for
the worker does not carry the uid of the reply either. -/
theorem not_attributed_reusedFd :
    ¬ ∀ (rt : Runtime) (sockFd : Int32) (acts : List Act),
      ∀ pr ∈ (Rubo.Foundation.run (step rt) (init sockFd) acts).promotions,
        Attributed (Rubo.Foundation.run (step rt) (init sockFd) acts) pr := by
  intro h
  have hpr : ∃ pr ∈ (Rubo.Foundation.run (step .proto2) (init 3) reusedFd).promotions,
      pr.user = 2 ∧ pr.event.uid = 0 ∧ pr.rsp.msg.userId = 1 ∧
        (match pr.rsp.src with
          | .received r => r.user == 1
          | _ => false) = true := by decide +kernel
  obtain ⟨pr, hmem, huser, _, _, hsrc⟩ := hpr
  obtain ⟨r, hr, hown, _⟩ := h .proto2 3 reusedFd pr hmem
  -- the request came from user 1, and user 2 was promoted
  rw [hr] at hsrc
  have hne : (1 : Ptr) = 2 := (beq_iff_eq.mp hsrc).symm.trans (hown.trans huser)
  exact absurd hne (by decide)

end Rubo.Server.GateIO
