import Mathlib.Logic.Function.Basic
import Rubo.Msgs.Proto2
import Rubo.Server.GateConns

/-!
# What the Descriptors of a GateWorker Carry

A worker knows a connection by an object it made. The kernel knows it by a
descriptor: the connection on a descriptor is that of the most recent CONNECT
event for it. What GateIO closes behind a worker's back shows in the CONNECT
events that follow. `Wire` keeps the kernel's view beside the worker: which connection
is on each descriptor, what has been read on the descriptor while it was, and
which connections have ended.

The two views differ when a CONNECT event comes for a descriptor that is still in
`_sock_users` (or that is not valid): `add_conn` then leaves the older entry, and
the older object goes on reading what the new connection sends.

- `ConnectsFresh`: no such event is handled in a round;
- `linked_run`: then the object that belongs to a connection is the one its
  descriptor leads to, and has read what the connection carried.
-/

namespace Rubo.Server

open Rubo.Foundation Rubo.Msgs Rubo.Util

/-- The connections of a worker as its descriptors have them. They are numbered in
the order they start: 0 is the one to Logic, and each CONNECT event starts the
next. -/
structure Wire where
  next : ℕ
  /-- The connection on a descriptor. -/
  current : Int32 → Option ℕ
  /-- The bytes read on the descriptor of a connection while it was on it. -/
  stream : ℕ → List UInt8
  /-- The connections whose descriptor was closed while they were on it. -/
  ended : List ℕ

namespace Wire

/-- The worker starts with the connection to Logic. -/
def new (logicFd : Int32) : Wire :=
  { next := 1
    current := fun fd => if fd = logicFd then some 0 else none
    stream := fun _ => []
    ended := [] }

/-- From now on the descriptor is that of the next connection. -/
def connect (wire : Wire) (fd : Int32) : Wire :=
  { wire with
    next := wire.next + 1
    current := Function.update wire.current fd (some wire.next) }

/-- What is read on a descriptor comes from the connection on it. -/
def read (wire : Wire) (fd : Int32) (bytes : List UInt8) : Wire :=
  match wire.current fd with
  | none => wire
  | some c => { wire with stream := Function.update wire.stream c (wire.stream c ++ bytes) }

/-- The descriptor is closed: the connection on it has ended. -/
def close (wire : Wire) (fd : Int32) : Wire :=
  match wire.current fd with
  | none => wire
  | some c =>
    { wire with
      current := Function.update wire.current fd none
      ended := wire.ended ++ [c] }

/-- One event of `handler_ioevent`. -/
def ioevent (wire : Wire) (ev : EventNode) : Wire :=
  if ev.event.has FdEvent.connect then wire.connect ev.sfd else wire

/-- The complete frames a connection has sent. -/
def frames (wire : Wire) (c : ℕ) : List Frame := (frameDecoder.drain (wire.stream c)).1

theorem read_of_current {wire : Wire} {fd : Int32} {c : ℕ} (h : wire.current fd = some c)
    (bytes : List UInt8) : wire.read fd bytes =
      { wire with stream := Function.update wire.stream c (wire.stream c ++ bytes) } := by
  simp only [read, h]

theorem close_of_current {wire : Wire} {fd : Int32} {c : ℕ} (h : wire.current fd = some c) :
    wire.close fd = { wire with
      current := Function.update wire.current fd none
      ended := wire.ended ++ [c] } := by
  simp only [close, h]

end Wire

namespace GateWorker

variable (rt : Runtime) {w w' : GateWorker} {wire : Wire}

/-! ## The wire of a run -/

/-- The bytes `event_op` reads for a user. -/
def bytesRead (io : Int32 → KernelIo) (w : GateWorker) (user : Ptr) : List UInt8 :=
  ((w.served io user).node user).received.drop (w.node user).received.length

/-- One user of the second loop of `handler_epevent`: its descriptor is read, and
closed if `event_op` reports an error. -/
def wireServe (io : Int32 → KernelIo) (s : GateWorker × Wire) (user : Ptr) : GateWorker × Wire :=
  let (w, wire) := s
  let wire := wire.read (w.node user).sfd (w.bytesRead io user)
  (w.serveUser io user, if w.Fails io user then wire.close (w.node user).sfd else wire)

/-- The worker and the wire when the users of a round are served. -/
def wireMarked (s : GateWorker × Wire) (r : WorkerRound) : GateWorker × Wire :=
  (s.1.marked r, (s.1.ioevsIn ++ r.ioevs).foldl Wire.ioevent s.2)

/-- The wire after a round. -/
def wireAfter (s : GateWorker × Wire) (r : WorkerRound) : Wire :=
  ((wireMarked s r).1.epevUsers.foldl (wireServe r.io) (wireMarked s r)).2

/-- `thread_loop()` with the wire beside it. -/
def wireLoop (s : GateWorker × Wire) (r : WorkerRound) : GateWorker × Wire :=
  (s.1.threadLoop rt r, wireAfter s r)

/-- A worker just made, and its wire. -/
def wireInit (logicFd : Int32) : GateWorker × Wire := (init logicFd, .new logicFd)

/-- The wire does not disturb the worker. -/
theorem fst_run_wireLoop (s : GateWorker × Wire) (rounds : List WorkerRound) :
    (run (wireLoop rt) s rounds).1 = run (threadLoop rt) s.1 rounds := by
  induction rounds generalizing s with
  | nil => rfl
  | cons r rounds ih =>
      rw [run_cons, run_cons, ih]
      rfl

theorem fst_run_wireInit (logicFd : Int32) (rounds : List WorkerRound) :
    (run (wireLoop rt) (wireInit logicFd) rounds).1 = run (threadLoop rt) (init logicFd) rounds :=
  fst_run_wireLoop rt (wireInit logicFd) rounds

theorem fst_foldl_wireServe (io : Int32 → KernelIo) (users : List Ptr) (s : GateWorker × Wire) :
    (users.foldl (wireServe io) s).1 = users.foldl (serveUser io) s.1 := by
  induction users generalizing s with
  | nil => rfl
  | cons user users ih =>
      rw [List.foldl_cons, List.foldl_cons, ih]
      rfl

/-! ## Fresh descriptors -/

/-- A CONNECT event is for a valid descriptor that no user is filed under. -/
def FreshConnect (w : GateWorker) (ev : EventNode) : Prop :=
  ev.event.has FdEvent.connect = true →
    0 < ev.sfd ∧ w.users.getUserBySock ev.sfd = none

instance (w : GateWorker) (ev : EventNode) : Decidable (FreshConnect w ev) :=
  inferInstanceAs (Decidable (_ → _ ∧ _))

/-- The events handled in a round meet the condition, each when it is handled. -/
def ConnectsFresh (w : GateWorker) (r : WorkerRound) : Prop :=
  Along ioevent FreshConnect { w with ioevsIn := [] } (w.ioevsIn ++ r.ioevs)

instance (w : GateWorker) (r : WorkerRound) : Decidable (ConnectsFresh w r) :=
  inferInstanceAs (Decidable (Along ..))

/-! ## Objects and connections -/

/-- Object `p` belongs to connection `p`: it has read what the connection carried,
and as long as the connection has not ended it is the connection on its
descriptor and the user filed under it. -/
structure Linked (w : GateWorker) (wire : Wire) : Prop where
  next : wire.next = w.heap.next
  ended : wire.ended = w.offline
  stream : ∀ p, p < w.heap.next → wire.stream p = (w.node p).received
  quiet : ∀ c, w.heap.next ≤ c → wire.stream c = []
  current : ∀ p, w.Live p → wire.current (w.node p).sfd = some p
  filed : ∀ p, w.Live p → 0 < (w.node p).sfd → w.Found p

theorem linked_init (logicFd : Int32) : Linked (init logicFd) (.new logicFd) := by
  have hobj : (init logicFd).heap.obj 0 = logicUser logicFd := Heap.obj_alloc ..
  have hnode : (init logicFd).node 0 = { sfd := logicFd, type := .system } := by
    rw [node, hobj]
    rfl
  -- the Logic connection is the only one
  have honly : ∀ p, p < (init logicFd).heap.next → p = 0 := fun p hp => Nat.lt_one_iff.mp hp
  refine ⟨rfl, rfl, ?_, fun _ _ => rfl, ?_, ?_⟩
  · intro p hp
    rw [honly p hp, hnode]
    rfl
  · intro p hp
    rw [honly p hp.1, hnode]
    exact if_pos rfl
  · intro p hp hpos
    rw [honly p hp.1] at hpos ⊢
    have husers : (init logicFd).users = UserManager.new.addUser (init logicFd).heap 0 := rfl
    rw [Found, husers, UserManager.addUser_eq, UserManager.find_sockUsers_addSock]
    refine if_pos ⟨rfl, ?_, hpos⟩
    rw [UserManager.sockUsers_addUid]
    rfl

/-- Stages that leave the connections alone. -/
theorem Linked.of_sameConns (h : Linked w wire) (hs : SameConns w w')
    (hreceived : ∀ p, (w'.node p).received = (w.node p).received)
    (husers : w'.users = w.users) (hoff : w'.offline = w.offline) : Linked w' wire := by
  have hlive : ∀ p, w'.Live p ↔ w.Live p := by
    intro p
    rw [Live, Live, hs.next, hoff]
  refine ⟨h.next.trans hs.next.symm, h.ended.trans hoff.symm, ?_, ?_, ?_, ?_⟩
  · intro p hp
    rw [hreceived]
    exact h.stream p (hs.next ▸ hp)
  · intro c hc
    exact h.quiet c (hs.next ▸ hc)
  · intro p hp
    rw [hs.sfd]
    exact h.current p ((hlive p).mp hp)
  · intro p hp hpos
    rw [hs.sfd] at hpos
    rw [Found, husers, hs.sfd]
    exact h.filed p ((hlive p).mp hp) hpos

theorem Linked.of_calm (h : Linked w wire) (hc : Calm w w') : Linked w' wire := by
  refine h.of_sameConns hc.sameConns ?_ hc.users hc.offline
  intro p
  rw [(hc.kept p).received, List.append_nil]

/-! ### Connecting -/

/-- A connection on a fresh descriptor takes it from nobody. -/
theorem linked_onNewConnect (h : Linked w wire) {ev : EventNode}
    (hpos : 0 < ev.sfd) (hfree : w.users.sockUsers.find ev.sfd = none) :
    Linked (w.onNewConnect ev) (wire.connect ev.sfd) := by
  have hnext : (w.onNewConnect ev).heap.next = w.heap.next + 1 := rfl
  have hnew : (w.onNewConnect ev).node w.heap.next = { sfd := ev.sfd, type := .user } := by
    rw [node_onNewConnect, if_pos rfl]
  -- a connection from before is live if it was, and on another descriptor
  have hold : ∀ p, p ≠ w.heap.next → (w.onNewConnect ev).Live p →
      w.Live p ∧ (w.onNewConnect ev).node p = w.node p ∧ (w.node p).sfd ≠ ev.sfd := by
    intro p hne hp
    have hlt : p < w.heap.next := Nat.lt_of_le_of_ne (Nat.le_of_lt_succ hp.1) hne
    refine ⟨⟨hlt, hp.2⟩, by rw [node_onNewConnect, if_neg hne], ?_⟩
    intro hsfd
    have hfound : w.users.sockUsers.find (w.node p).sfd = some p :=
      h.filed p ⟨hlt, hp.2⟩ (hsfd ▸ hpos)
    rw [hsfd, hfree] at hfound
    cases hfound
  refine ⟨?_, h.ended, ?_, ?_, ?_, ?_⟩
  · rw [hnext, ← h.next]
    rfl
  · intro p hp
    rw [node_onNewConnect]
    split_ifs with hne
    · -- nothing has been read for the new one
      exact h.quiet p (Nat.le_of_eq hne.symm)
    · exact h.stream p (Nat.lt_of_le_of_ne (Nat.le_of_lt_succ hp) hne)
  · intro c hc
    exact h.quiet c (Nat.le_of_succ_le hc)
  · intro p hp
    show Function.update wire.current ev.sfd (some wire.next) _ = some p
    by_cases hne : p = w.heap.next
    · rw [hne, hnew, h.next]
      exact Function.update_self ..
    · obtain ⟨hlive, hnode, hsfd⟩ := hold p hne hp
      rw [hnode, Function.update_of_ne hsfd]
      exact h.current p hlive
  · intro p hp hpos'
    rw [Found, find_onNewConnect_of_free hfree hpos]
    by_cases hne : p = w.heap.next
    · rw [hne, hnew]
      exact if_pos rfl
    · obtain ⟨hlive, hnode, hsfd⟩ := hold p hne hp
      rw [hnode] at hpos' ⊢
      rw [if_neg hsfd]
      exact h.filed p hlive hpos'

theorem linked_ioevents {evs : List EventNode} (h : Linked w wire)
    (hfresh : Along ioevent FreshConnect w evs) :
    Linked (evs.foldl ioevent w) (evs.foldl Wire.ioevent wire) := by
  induction evs generalizing w wire with
  | nil => exact h
  | cons ev evs ih =>
      obtain ⟨hev, hevs⟩ := hfresh
      rw [List.foldl_cons, List.foldl_cons]
      unfold ioevent at hevs ⊢
      unfold Wire.ioevent
      by_cases hconnect : ev.event.has FdEvent.connect = true
      · rw [if_pos hconnect] at hevs ⊢
        rw [if_pos hconnect]
        obtain ⟨hpos, hfree⟩ := hev hconnect
        exact ih (linked_onNewConnect h hpos hfree) hevs
      · rw [if_neg hconnect] at hevs ⊢
        rw [if_neg hconnect]
        exact ih h hevs

/-! ### Serving -/

/-- What is read for a user is read on the descriptor of its own connection. -/
theorem linked_served (h : Linked w wire) (io : Int32 → KernelIo) {user : Ptr}
    (hlive : w.Live user) :
    Linked (w.served io user) (wire.read (w.node user).sfd (w.bytesRead io user)) := by
  obtain ⟨delta, hgrown, _⟩ := serveUser_cases io w user
  have hbytes : w.bytesRead io user = delta := by
    rw [bytesRead, hgrown.received]
    exact List.drop_left ..
  have hsame := SameConns.served io w user
  rw [Wire.read_of_current (h.current user hlive), hbytes]
  refine ⟨h.next, h.ended, ?_, ?_, ?_, ?_⟩
  · intro p hp
    show Function.update wire.stream user _ p = _
    by_cases hpu : p = user
    · rw [hpu, Function.update_self, hgrown.received, h.stream user hlive.1]
    · rw [Function.update_of_ne hpu, node_served_of_ne io w hpu]
      exact h.stream p hp
  · intro c hc
    show Function.update wire.stream user _ c = _
    rw [Function.update_of_ne (Nat.ne_of_gt (Nat.lt_of_lt_of_le hlive.1 hc))]
    exact h.quiet c hc
  · intro p hp
    rw [hsame.sfd]
    exact h.current p hp
  · intro p hp hpos
    rw [hsame.sfd] at hpos
    exact (h.filed p hp hpos).served io user

/-- A connection that ends leaves its descriptor, and no other connection does. -/
theorem linked_onConnOffline (h : Linked w wire) {user : Ptr} (hlive : w.Live user)
    (hfound : w.Found user) :
    Linked (w.onConnOffline user) (wire.close (w.node user).sfd) := by
  obtain ⟨hheap, _, hoff, _⟩ := onConnOffline_fields w user
  have hcur := h.current user hlive
  -- who is live afterwards was live, and is another one
  have hothers : ∀ p, (w.onConnOffline user).Live p → w.Live p ∧ p ≠ user := by
    intro p hp
    rw [Live, hheap, hoff, List.mem_append, List.mem_singleton, not_or] at hp
    exact ⟨⟨hp.1, hp.2.1⟩, hp.2.2⟩
  rw [Wire.close_of_current hcur]
  refine ⟨?_, ?_, ?_, ?_, ?_, ?_⟩
  · rw [hheap]
    exact h.next
  · rw [hoff, ← h.ended]
  · intro p hp
    rw [node_onConnOffline]
    exact h.stream p (hheap ▸ hp)
  · intro c hc
    exact h.quiet c (hheap ▸ hc)
  · intro p hp
    obtain ⟨hp, hne⟩ := hothers p hp
    have hcur' := h.current p hp
    rw [node_onConnOffline]
    -- two connections are not on one descriptor
    refine (Function.update_of_ne ?_ _ _).trans hcur'
    intro hsfd
    rw [hsfd, hcur] at hcur'
    exact hne (Option.some.inj hcur').symm
  · intro p hp hpos
    obtain ⟨hp, hne⟩ := hothers p hp
    rw [node_onConnOffline] at hpos
    exact found_onConnOffline hfound (h.filed p hp hpos) hne

theorem linked_wireServe (h : Linked w wire) (io : Int32 → KernelIo) {user : Ptr}
    (hlive : w.Live user) (hfound : w.Found user) :
    Linked (wireServe io (w, wire) user).1 (wireServe io (w, wire) user).2 := by
  have hserved := linked_served h io hlive
  have hsfd := (SameConns.served io w user).sfd user
  unfold wireServe
  simp only
  rcases serveUser_cases io w user with ⟨_, _, ⟨hfails, hw⟩ | ⟨hfails, hw⟩ | ⟨hfails, _, hw⟩⟩ <;>
    rw [hw]
  · rw [if_pos hfails, ← hsfd]
    exact linked_onConnOffline (hsfd ▸ hserved) hlive (hfound.served io user)
  · rw [if_neg hfails]
    exact hserved.of_sameConns (SameConns.mk rfl rfl (fun _ => rfl) (fun _ => rfl) fun _ => rfl)
      (fun _ => rfl) rfl rfl
  · rw [if_neg hfails]
    exact hserved

/-- The user served is the connection on its descriptor. -/
def OnItsOwn (s : GateWorker × Wire) (user : Ptr) : Prop :=
  s.2.current (s.1.node user).sfd = some user

theorem linked_wireServes (io : Int32 → KernelIo) {users : List Ptr} (h : Linked w wire)
    (husers : Along (serveUser io) (fun v user => v.Live user ∧ v.Found user) w users) :
    Along (wireServe io) OnItsOwn (w, wire) users ∧
      Linked (users.foldl (wireServe io) (w, wire)).1 (users.foldl (wireServe io) (w, wire)).2 := by
  induction users generalizing w wire with
  | nil => exact ⟨trivial, h⟩
  | cons user users ih =>
      obtain ⟨⟨hlive, hfound⟩, hrest⟩ := husers
      obtain ⟨hown, hlinked⟩ := ih (linked_wireServe h io hlive hfound) hrest
      exact ⟨⟨h.current user hlive, hown⟩, hlinked⟩

/-! ### Rounds -/

theorem linked_wireMarked (h : Linked w wire) {r : WorkerRound} (hfresh : ConnectsFresh w r) :
    Linked (wireMarked (w, wire) r).1 (wireMarked (w, wire) r).2 := by
  have hstart : Linked { w with ioevsIn := [] } wire := h.of_calm (Calm.of_eq rfl rfl rfl rfl rfl)
  have hconn := linked_ioevents hstart hfresh
  exact run_invariant (I := fun v => Linked v (wireMarked (w, wire) r).2)
    (fun v ev hv => hv.of_calm (markEvent_spec v ev).1) hconn r.events

variable {rt}

/-- **A round with fresh descriptors**: whoever is served is the connection on its
descriptor, and objects and connections belong together. -/
theorem linked_gathered (hidle : Idle rt w) (h : Linked w wire) {r : WorkerRound}
    (hfresh : ConnectsFresh w r) :
    Along (wireServe r.io) OnItsOwn (wireMarked (w, wire) r) (w.marked r).epevUsers ∧
      Linked (w.gathered rt r) (wireAfter (w, wire) r) := by
  obtain ⟨_, hnodup, hlive⟩ := stageInvariant_wellFormed.marked hidle.wellFormed hidle.epevUsers r
  have husers := (along_live r.io hnodup hlive).and
    (along_found_marked hidle.wellFormed hidle.epevUsers r)
  obtain ⟨hown, hserved⟩ := linked_wireServes r.io (linked_wireMarked h hfresh) husers
  refine ⟨hown, ?_⟩
  rw [fst_foldl_wireServe] at hserved
  have hread : Linked (w.readIn r) (wireAfter (w, wire) r) :=
    hserved.of_calm (Calm.of_eq rfl rfl rfl rfl rfl)
  -- parsing takes bytes from the buffers, not from the streams
  refine run_invariant (I := fun v => Linked v (wireAfter (w, wire) r)) ?_ hread (w.readIn r).rdUsers
  intro v user hv
  obtain ⟨msgs, hp⟩ := parseUser_spec rt v user
  refine hv.of_sameConns hp.sameConns ?_ hp.users hp.offline
  intro p
  by_cases hpu : p = user
  · obtain ⟨buff, hnode, _⟩ := hp.node
    rw [hpu, hnode]
  · rw [hp.kept p hpu]

theorem linked_wireLoop (hidle : Idle rt w) (h : Linked w wire) {r : WorkerRound}
    (hfresh : ConnectsFresh w r) :
    Linked (w.threadLoop rt r) (wireAfter (w, wire) r) :=
  (linked_gathered hidle h hfresh).2.of_calm
    (handlerMsgs_spec rt (w.gathered rt r) r.writes).1

/-- **Runs with fresh descriptors**: objects and connections belong together. -/
theorem linked_run {logicFd : Int32} {rounds : List WorkerRound}
    (h : Along (threadLoop rt) ConnectsFresh (init logicFd) rounds) :
    Linked (run (wireLoop rt) (wireInit logicFd) rounds).1
      (run (wireLoop rt) (wireInit logicFd) rounds).2 := by
  induction rounds using List.reverseRecOn with
  | nil => exact linked_init logicFd
  | append_singleton rounds r ih =>
      obtain ⟨hrounds, hfresh, _⟩ := along_append.mp h
      have hlinked := ih hrounds
      have hidle := (apart_run rt logicFd rounds).idle
      rw [← fst_run_wireInit] at hidle hfresh
      rw [run_concat]
      exact linked_wireLoop hidle hlinked hfresh

/-- A request of uid 1 to do "a". -/
def dosthFrame : Frame := ⟨ProtocolDefine.userDosthReq.toInt, 1, [8, 1, 18, 1, 97]⟩

/-- A request of uid 1 arrives on a descriptor. -/
def requestOn (fd : Int32) : WorkerRound :=
  { ready := .one ⟨fd, true, false⟩
    io := fun _ => { reads := [.data dosthFrame.encode] } }

/-- A CONNECT event for a descriptor of which another user has not left
`_sock_users` yet. -/
def takenOver : List WorkerRound :=
  [{ ioevs := [{ sfd := 5, uid := 1, event := FdEvent.connect }] },
   { ioevs := [{ sfd := 5, uid := 2, event := FdEvent.connect }] }]

/-- What the second connection sends is read through the object of the first. -/
example :
    let s := run (wireLoop .proto2) (wireInit 3) (takenOver ++ [requestOn 5])
    (s.1.node 1).received = dosthFrame.encode ∧ s.2.stream 1 = [] ∧
      (s.1.node 2).received = [] ∧ s.2.stream 2 = dosthFrame.encode := by
  decide +kernel

end GateWorker

end Rubo.Server
