import Rubo.Server.GateInvariant

/-!
# The Connections of a GateWorker

- A connection object belongs to one CONNECT event for good (`Created`).
- `_uid_users` leads from a uid to a connection of that uid that has not ended
  (`UidTable`). A second login of a uid is not entered, and a connection that
  ends takes the entry of its uid with it.
- The users served in a round are those their descriptors lead to (`Found`).

`Apart` is what holds of these between any two rounds of any run.
-/

namespace Rubo.Server.GateWorker

open Rubo.Foundation Rubo.Msgs Rubo.Util

variable (rt : Runtime) {w w' : GateWorker} {evs : List EventNode}

/-! ## Connections and their CONNECT events -/

/-- The CONNECT events among those handed to a worker, in order. -/
def connects (rounds : List WorkerRound) : List EventNode :=
  rounds.flatMap fun r => r.ioevs.filter fun ev => ev.event.has FdEvent.connect

/-- The object made for a CONNECT event: the events are numbered in order, and the
objects follow the one of the Logic connection. -/
def CreatedBy (evs : List EventNode) (p : Ptr) (ev : EventNode) : Prop :=
  ∃ n, p = n + 1 ∧ evs[n]? = some ev

/-- The objects of a worker are that of the Logic connection and one for each
CONNECT event, as the event made it. -/
structure Created (evs : List EventNode) (w : GateWorker) : Prop where
  logic : w.logic = 0
  next : w.heap.next = evs.length + 1
  made : ∀ {p ev}, CreatedBy evs p ev → (w.heap.obj p).uid = ev.uid ∧
    (w.node p).sfd = ev.sfd ∧ (w.node p).type = .user

theorem Created.exists_event (h : Created evs w) {p : Ptr} (hp : w.IsConn p) :
    ∃ ev, CreatedBy evs p ev := by
  obtain ⟨hlt, hne⟩ := hp
  rw [h.logic] at hne
  rw [h.next] at hlt
  obtain ⟨n, rfl⟩ := Nat.exists_eq_succ_of_ne_zero hne
  have hindex : n < evs.length := Nat.lt_of_succ_lt_succ hlt
  exact ⟨evs[n], n, rfl, List.getElem?_eq_getElem hindex⟩

theorem Created.isConn (h : Created evs w) {p : Ptr} {ev : EventNode} (hp : CreatedBy evs p ev) :
    w.IsConn p := by
  obtain ⟨n, rfl, hn⟩ := hp
  obtain ⟨hlt, _⟩ := List.getElem?_eq_some_iff.mp hn
  refine ⟨?_, ?_⟩
  · rw [h.next]
    exact Nat.succ_lt_succ hlt
  · rw [h.logic]
    exact Nat.succ_ne_zero n

theorem Created.of_sameConns (h : Created evs w) (hs : SameConns w w') : Created evs w' where
  logic := hs.logic.trans h.logic
  next := hs.next.trans h.next
  made hp := by
    rw [hs.uid, hs.sfd, hs.type]
    exact h.made hp

theorem created_init (logicFd : Int32) : Created [] (init logicFd) where
  logic := rfl
  next := rfl
  made hp := by
    obtain ⟨n, _, hn⟩ := hp
    cases hn

/-- A CONNECT event makes the next object. -/
theorem created_onNewConnect (h : Created evs w) (ev : EventNode) :
    Created (evs ++ [ev]) (w.onNewConnect ev) where
  logic := h.logic
  next := by
    show w.heap.next + 1 = _
    simp [h.next]
  made {p ev'} hp := by
    obtain ⟨n, rfl, hn⟩ := hp
    rw [obj_onNewConnect, node_onNewConnect, h.next]
    rcases Nat.lt_trichotomy n evs.length with hlt | rfl | hgt
    · -- an object from before
      rw [List.getElem?_append_left hlt] at hn
      have hne : n + 1 ≠ evs.length + 1 := by simpa using Nat.ne_of_lt hlt
      rw [if_neg hne, if_neg hne]
      exact h.made ⟨n, rfl, hn⟩
    · -- the new object
      obtain rfl : ev = ev' := by simpa using hn
      rw [if_pos rfl, if_pos rfl]
      exact ⟨rfl, rfl, rfl⟩
    · -- there are no more events
      have hnone : (evs ++ [ev])[n]? = none := by simpa using Nat.succ_le_of_lt hgt
      rw [hnone] at hn
      cases hn

theorem created_ioevents (h : Created evs w) (l : List EventNode) :
    Created (evs ++ l.filter fun ev => ev.event.has FdEvent.connect) (l.foldl ioevent w) := by
  induction l generalizing evs w with
  | nil => simpa using h
  | cons ev l ih =>
      rw [List.foldl_cons, List.filter_cons, ioevent]
      split_ifs
      · rw [List.append_cons]
        exact ih (created_onNewConnect h ev)
      · exact ih h

/-! ## The table of uids -/

/-- `_uid_users` leads to connections of the uid that have not ended. -/
structure UidTable (w : GateWorker) : Prop where
  isConn : ∀ {u p}, w.users.uidUsers.find u = some p → w.IsConn p
  uid : ∀ {u p}, w.users.uidUsers.find u = some p → (w.heap.obj p).uid = u
  live : ∀ {u p}, w.users.uidUsers.find u = some p → p ∉ w.offline

/-- The user is the one its descriptor leads to. -/
def Found (w : GateWorker) (p : Ptr) : Prop := w.users.sockUsers.find (w.node p).sfd = some p

theorem UidTable.of_sameConns (h : UidTable w) (hs : SameConns w w')
    (hfind : ∀ {u p}, w'.users.uidUsers.find u = some p →
      w.users.uidUsers.find u = some p ∧ p ∉ w'.offline) : UidTable w' where
  isConn hp := (hs.isConn _).mpr (h.isConn (hfind hp).1)
  uid hp := (hs.uid _).trans (h.uid (hfind hp).1)
  live hp := (hfind hp).2

/-- A new connection is entered under the uid of its event, unless the uid is
taken. -/
theorem uidTable_onNewConnect (hwf : WellFormed rt w) (h : UidTable w) (ev : EventNode) :
    UidTable (w.onNewConnect ev) := by
  have hentry : ∀ {u p}, (w.onNewConnect ev).users.uidUsers.find u = some p →
      (w.onNewConnect ev).IsConn p ∧ ((w.onNewConnect ev).heap.obj p).uid = u ∧ p ∉ w.offline := by
    intro u p hp
    rw [users_onNewConnect, UserManager.find_uidUsers_addUid, UserManager.uidUsers_addSock] at hp
    split_ifs at hp with hnew
    · -- the new connection
      obtain rfl := Option.some.inj hp
      refine ⟨⟨Nat.lt_succ_self _, (Nat.ne_of_lt hwf.logic_lt).symm⟩, hnew.1.symm, ?_⟩
      exact fun hoff => Nat.lt_irrefl _ (hwf.offline_lt _ hoff)
    · have hconn := h.isConn hp
      refine ⟨⟨Nat.lt_succ_of_lt hconn.1, hconn.2⟩, ?_, h.live hp⟩
      rw [obj_onNewConnect, if_neg (Nat.ne_of_lt hconn.1)]
      exact h.uid hp
  exact ⟨fun hp => (hentry hp).1, fun hp => (hentry hp).2.1, fun hp => (hentry hp).2.2⟩

/-- A second login of uid 1 and a login of uid 2: the entry of uid 1 stays with the
first connection. -/
example :
    let w := handlerIoevent { init 3 with ioevsIn :=
      [{ sfd := 5, uid := 1, event := FdEvent.connect },
       { sfd := 6, uid := 1, event := FdEvent.connect },
       { sfd := 7, uid := 2, event := FdEvent.connect }] }
    w.users.uidUsers.find 1 = some 1 ∧ w.users.uidUsers.find 2 = some 3 ∧
      w.users.uidUsers.find 0 = none := by
  decide

/-- A connection that ends is found by its descriptor, so `del_conn` erases the
entry of its uid. -/
theorem uidTable_onConnOffline (h : UidTable w) {user : Ptr} (hfound : w.Found user) :
    UidTable (w.onConnOffline user) := by
  apply h.of_sameConns (sameConns_onConnOffline w user)
  intro u p hp
  rw [users_onConnOffline, UserManager.delConn, hfound] at hp
  obtain ⟨hne, hold⟩ := Table.find_erase_eq_some.mp hp
  refine ⟨hold, ?_⟩
  rw [(onConnOffline_fields w user).2.2.1, List.mem_append, List.mem_singleton]
  rintro (hdead | rfl)
  · exact h.live hold hdead
  · exact hne (h.uid hold).symm

theorem uidTable_serveUser (h : UidTable w) (io : Int32 → KernelIo) {user : Ptr}
    (hfound : w.Found user) : UidTable (w.serveUser io user) := by
  have hsame := SameConns.served io w user
  have hserved : UidTable (w.served io user) :=
    h.of_sameConns hsame fun hp => ⟨hp, h.live hp⟩
  rcases serveUser_cases io w user with ⟨_, _, ⟨_, hw⟩ | ⟨_, hw⟩ | ⟨_, _, hw⟩⟩ <;> rw [hw]
  · apply uidTable_onConnOffline hserved
    -- serving changes neither the table nor the descriptor
    unfold Found
    rw [hsame.sfd]
    exact hfound
  · exact ⟨hserved.isConn, hserved.uid, hserved.live⟩
  · exact hserved

/-- Well-formed, with a sound table of uids. -/
def Keeping (w : GateWorker) : Prop := WellFormed rt w ∧ UidTable w

variable {rt}

theorem stageInvariant_keeping :
    StageInvariant rt (fun _ w user => w.Found user) (Keeping rt) where
  wellFormed h := h.1
  calm h hc hq := by
    refine ⟨h.1.of_calm hc hq, h.2.of_sameConns hc.sameConns ?_⟩
    intro u p hp
    rw [hc.users] at hp
    rw [hc.offline]
    exact ⟨hp, h.2.live hp⟩
  connect ev h := ⟨wellFormed_onNewConnect h.1 ev, uidTable_onNewConnect rt h.1 h.2 ev⟩
  serve io h hlive hfound :=
    ⟨wellFormed_serveUser h.1 io hlive.1, uidTable_serveUser h.2 io hfound⟩
  parse {w user} h hlt := by
    obtain ⟨msgs, hp⟩ := parseUser_spec rt w user
    refine ⟨wellFormed_parseUser h.1 hlt, h.2.of_sameConns hp.sameConns ?_⟩
    intro u p hfind
    rw [hp.users] at hfind
    rw [hp.offline]
    exact ⟨hfind, h.2.live hfind⟩

/-! ## The users of a round -/

/-- A connection that ends takes no other entry with it. -/
theorem found_onConnOffline {user p : Ptr} (huser : w.Found user) (hp : w.Found p)
    (hne : p ≠ user) : (w.onConnOffline user).Found p := by
  have huser' : w.users.sockUsers.find (w.node user).sfd = some user := huser
  unfold Found
  rw [node_onConnOffline, users_onConnOffline, UserManager.delConn, huser']
  refine Table.find_erase_eq_some.mpr ⟨?_, hp⟩
  -- one descriptor leads to one user
  intro heq
  have hboth : some p = some user := (hp.symm.trans (heq ▸ huser'))
  exact hne (Option.some.inj hboth)

theorem Found.served {p : Ptr} (hp : w.Found p) (io : Int32 → KernelIo) (user : Ptr) :
    (w.served io user).Found p := by
  unfold Found
  rw [(SameConns.served io w user).sfd]
  exact hp

/-- Serving a user erases no other entry. -/
theorem found_serveUser (io : Int32 → KernelIo) {user p : Ptr} (huser : w.Found user)
    (hp : w.Found p) (hne : p ≠ user) : (w.serveUser io user).Found p := by
  rcases serveUser_cases io w user with ⟨_, _, ⟨_, hw⟩ | ⟨_, hw⟩ | ⟨_, _, hw⟩⟩ <;> rw [hw]
  · exact found_onConnOffline (huser.served io user) (hp.served io user) hne
  · exact hp.served io user
  · exact hp.served io user

theorem along_found (io : Int32 → KernelIo) {l : List Ptr} (hl : l.Nodup)
    (h : ∀ p ∈ l, w.Found p) : Along (serveUser io) Found w l := by
  induction l generalizing w with
  | nil => trivial
  | cons user l ih =>
      obtain ⟨hnot, hl⟩ := List.nodup_cons.mp hl
      have huser := h user (List.mem_cons_self ..)
      refine ⟨huser, ih hl ?_⟩
      intro p hp
      apply found_serveUser io huser (h p (List.mem_cons_of_mem _ hp))
      rintro rfl
      exact hnot hp

/-- The users marked are those their descriptors lead to. -/
theorem found_markEvent (hwf : WellFormed rt w) (h : ∀ p ∈ w.epevUsers, w.Found p)
    (ev : EpollEvent) : ∀ p ∈ (w.markEvent ev).epevUsers, (w.markEvent ev).Found p := by
  obtain ⟨hcalm, _, hlist⟩ := markEvent_spec w ev
  have hkeep : ∀ p, w.Found p → (w.markEvent ev).Found p := by
    intro p hp
    unfold Found
    rw [hcalm.users, (hcalm.kept p).sfd]
    exact hp
  intro p hp
  rcases hlist with hsame | ⟨user, hfind, hmore⟩
  · rw [hsame] at hp
    exact hkeep p (h p hp)
  · rw [hmore] at hp
    rcases List.mem_append.mp hp with hold | hnew
    · exact hkeep p (h p hold)
    · obtain rfl := List.mem_singleton.mp hnew
      apply hkeep
      unfold Found
      rw [(hwf.found hfind).2.1]
      exact hfind

/-- The marks of one `epoll_wait` are all on users that can be found. -/
theorem found_foldl_markEvent (hwf : WellFormed rt w) (hev : w.epevUsers = [])
    (evs : List EpollEvent) :
    WellFormed rt (evs.foldl markEvent w) ∧
      ∀ p ∈ (evs.foldl markEvent w).epevUsers, (evs.foldl markEvent w).Found p := by
  apply run_invariant (I := fun v => WellFormed rt v ∧ ∀ p ∈ v.epevUsers, v.Found p)
  · rintro v ev ⟨hv, hfound⟩
    obtain ⟨hcalm, hqueue, _⟩ := markEvent_spec v ev
    exact ⟨hv.of_calm hcalm hqueue, found_markEvent hv hfound ev⟩
  · refine ⟨hwf, ?_⟩
    rw [hev]
    simp

theorem along_found_marked (hwf : WellFormed rt w) (hev : w.epevUsers = []) (r : WorkerRound) :
    Along (serveUser r.io) Found (w.marked r) (w.marked r).epevUsers := by
  obtain ⟨_, hnodup, _⟩ := stageInvariant_wellFormed.marked hwf hev r
  have hconn : WellFormed rt (handlerIoevent { w with ioevsIn := w.ioevsIn ++ r.ioevs }) :=
    stageInvariant_wellFormed.handlerIoevent (hwf.of_calm (Calm.of_eq rfl rfl rfl rfl rfl) rfl)
  have hnone : GateWorker.epevUsers (handlerIoevent { w with ioevsIn := w.ioevsIn ++ r.ioevs }) =
      [] := (epevUsers_handlerIoevent _).trans hev
  exact along_found r.io hnodup (found_foldl_markEvent hconn hnone r.events).2

/-! ## Rounds -/

variable (rt)

/-- The worker when it begins to distribute, and the kernel's answers that are left. -/
def forwarded (w : GateWorker) (r : WorkerRound) : GateWorker × List WriteRes :=
  let (w, writes) := (w.gathered rt r).userMsgsIn.foldl (sendToLogic rt) (w.gathered rt r, r.writes)
  ({ w with userMsgsIn := [] }, writes)

/-- Write a message to one connection. -/
def writeTo (s : GateWorker × List WriteRes) (user : Ptr) (msg : UserMsg) :
    GateWorker × List WriteRes :=
  let (w, writes) := s
  let (_, tcpOp, sock, writes) := w.tcpOp.writeMsg rt.toProtobuf (w.node user) msg writes
  ({ w.setNode user sock with tcpOp := tcpOp }, writes)

variable {rt}

/-- A message for Logic carries the uid of the connection it comes from. -/
theorem Accounted.uid_eq {p : Ptr} {msg : UserMsg} (h : Accounted rt w p msg) :
    msg.uid = (w.heap.obj p).uid := by
  cases h with
  | online hmsg => rw [hmsg]; rfl
  | offline hmsg => rw [hmsg]; rfl
  | frame f huid henv =>
      obtain ⟨mc, t, _, rfl⟩ := henv
      exact huid

/-- What holds between two rounds; `evs` are the CONNECT events so far. -/
structure Apart (rt : Runtime) (evs : List EventNode) (w : GateWorker) : Prop where
  idle : Idle rt w
  uidTable : UidTable w
  created : Created evs w
  ioevsIn : w.ioevsIn = []

/-- A round up to the point where everything for Logic has been collected. -/
theorem Apart.gathered (h : Apart rt evs w) (r : WorkerRound) :
    Keeping rt (w.gathered rt r) ∧ Created (evs ++ connects [r]) (w.gathered rt r) := by
  have hfound := along_found_marked h.idle.wellFormed h.idle.epevUsers r
  have hread : Keeping rt (w.readIn r) :=
    stageInvariant_keeping.readIn ⟨h.idle.wellFormed, h.uidTable⟩ h.idle.epevUsers hfound
  refine ⟨stageInvariant_keeping.parsed hread hread.1.rdUsers_lt, ?_⟩
  -- only the first stage makes objects
  have hconn : Created (evs ++ connects [r])
      (handlerIoevent { w with ioevsIn := w.ioevsIn ++ r.ioevs }) := by
    have hstart : Created evs { w with ioevsIn := [] } := ⟨h.created.logic, h.created.next, h.created.made⟩
    have hall := created_ioevents hstart (w.ioevsIn ++ r.ioevs)
    rw [h.ioevsIn] at hall
    simpa [connects, handlerIoevent, h.ioevsIn] using hall
  have hmarked : Created (evs ++ connects [r]) (w.marked r) :=
    run_invariant (I := Created (evs ++ connects [r]))
      (fun v ev hv => hv.of_sameConns (markEvent_spec v ev).1.sameConns) hconn r.events
  have hserved : Created (evs ++ connects [r]) (w.readIn r) := by
    have hall := run_invariant (I := Created (evs ++ connects [r]))
      (fun v user hv => hv.of_sameConns (sameConns_serveUser r.io v user)) hmarked
      (w.marked r).epevUsers
    exact ⟨hall.logic, hall.next, hall.made⟩
  refine run_invariant (I := Created (evs ++ connects [r])) ?_ hserved (w.readIn r).rdUsers
  intro v user hv
  obtain ⟨msgs, hp⟩ := parseUser_spec rt v user
  exact hv.of_sameConns hp.sameConns

/-- Forwarding to Logic leaves the connections and the tables alone. -/
theorem calm_forwarded (w : GateWorker) (r : WorkerRound) :
    Calm (w.gathered rt r) (w.forwarded rt r).1 := by
  obtain ⟨hcalm, _⟩ := sendToLogic_spec rt (w.gathered rt r).userMsgsIn (w.gathered rt r, r.writes)
  exact hcalm.trans (Calm.of_eq rfl rfl rfl rfl rfl)

theorem UidTable.of_calm (h : UidTable w) (hc : Calm w w') : UidTable w' := by
  apply h.of_sameConns hc.sameConns
  intro u p hp
  rw [hc.users] at hp
  rw [hc.offline]
  exact ⟨hp, h.live hp⟩

theorem apart_threadLoop (h : Apart rt evs w) (r : WorkerRound) :
    Apart rt (evs ++ connects [r]) (w.threadLoop rt r) := by
  obtain ⟨hkeeping, hcreated⟩ := h.gathered r
  obtain ⟨hcalm, _⟩ := handlerMsgs_spec rt (w.gathered rt r) r.writes
  exact ⟨idle_threadLoop h.idle r, hkeeping.2.of_calm hcalm, hcreated.of_sameConns hcalm.sameConns,
    (threadLoop_inbox rt w r).2.1⟩

theorem apart_init (logicFd : Int32) : Apart rt [] (init logicFd) := by
  refine ⟨idle_init logicFd, ⟨?_, ?_, ?_⟩, created_init logicFd, rfl⟩
  all_goals
    intro u p hp
    rw [find_uidUsers_init] at hp
    cases hp

theorem connects_append (rounds rounds' : List WorkerRound) :
    connects (rounds ++ rounds') = connects rounds ++ connects rounds' := List.flatMap_append ..

variable (rt)

theorem apart_run (logicFd : Int32) (rounds : List WorkerRound) :
    Apart rt (connects rounds) (run (threadLoop rt) (init logicFd) rounds) := by
  induction rounds using List.reverseRecOn with
  | nil => exact apart_init logicFd
  | append_singleton rounds r ih =>
      rw [connects_append, run_concat]
      exact apart_threadLoop ih r

end Rubo.Server.GateWorker
