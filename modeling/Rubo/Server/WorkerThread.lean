import Rubo.Server.GateConns

/-!
# A Worker, Step by Step

`thread_loop` of `server/Gate/GateWorker.cpp` in the steps between which the IO
thread can act on what both threads see: the lists of events, `_fd_set`, and the
descriptor numbers of the kernel. A round stops after taking the events handed
over, after each new connection, after `epoll_wait`, after each `event_op`, and
twice in `on_conn_offline`: when the descriptor is closed but still in `_users`,
and when it is out of `_users` but still in `_fd_set`.

- `exists_run_pcStep_round`: undisturbed, the steps make up `thread_loop`;
- `Tidy` says how `_fd_set`, `_users` and the events in flight fit together at
  every stop, and `Tidy.pcStep` that every step keeps it.
-/

namespace Rubo.Server

open Rubo.Foundation Rubo.Msgs Rubo.Util

/-- Where a worker stands in `thread_loop`. -/
inductive Pc where
  | start
  /-- In the loop of `handler_ioevent`, with these of `_ev_lists` to come. -/
  | connecting (evLists : List EventNode)
  /-- In the second loop of `handler_epevent`, with these users to come. -/
  | serving (users : List Ptr)
  /-- `event_op` has closed the descriptor of the user; `on_conn_offline` comes next. -/
  | closed (user : Ptr) (users : List Ptr)
  /-- In `on_conn_offline`, before `del_fd`. -/
  | deleted (user : Ptr) (users : List Ptr)
  deriving DecidableEq

namespace Pc

/-- The events taken and not yet handled. -/
def evLists : Pc → List EventNode
  | .connecting evLists => evLists
  | _ => []

/-- The user whose connection has ended and whose `on_conn_offline` has not. -/
def leaving : Pc → Option Ptr
  | .closed user _ => some user
  | .deleted user _ => some user
  | _ => none

end Pc

namespace GateWorker

variable (rt : Runtime)

/-! ## The steps -/

/-- `on_conn_offline(user)` up to `del_fd`. -/
def offlineBefore (w : GateWorker) (user : Ptr) : GateWorker :=
  let sock := w.node user
  let w := { w with
    users := w.users.delConn w.heap sock.sfd
    offline := w.offline ++ [user] }
  if sock.type = .system then w
  else w.queuePresence .userOfflineReq user (w.heap.obj user).uid

theorem onConnOffline_eq (w : GateWorker) (user : Ptr) :
    w.onConnOffline user =
      if (w.node user).type = .system then w.offlineBefore user
      else (w.offlineBefore user).delFd (w.node user).sfd := by
  simp only [onConnOffline, offlineBefore]
  split_ifs <;> rfl

/-- One step of a round. -/
def pcStep (s : GateWorker × Pc) (r : WorkerRound) : GateWorker × Pc :=
  match s with
  | (w, .start) => ({ w with ioevsIn := [] }, .connecting w.ioevsIn)
  | (w, .connecting (ev :: evs)) => (w.ioevent ev, .connecting evs)
  | (w, .connecting []) =>
    -- `epoll_wait`, and the first loop of `handler_epevent`
    let w := r.events.foldl markEvent w
    (w, .serving w.epevUsers)
  | (w, .serving (user :: users)) =>
    let (ret, tcpOp, sock) := w.tcpOp.eventOp (w.node user) (r.io (w.node user).sfd)
    let w := { w.setNode user sock with tcpOp := tcpOp }
    if ret.has FdEvent.error then (w, .closed user users)
    else if ret.has FdEvent.read then ({ w with rdUsers := w.rdUsers ++ [user] }, .serving users)
    else (w, .serving users)
  | (w, .closed user users) =>
    if (w.node user).type = .system then (w.offlineBefore user, .serving users)
    else (w.offlineBefore user, .deleted user users)
  | (w, .deleted user users) => (w.delFd (w.node user).sfd, .serving users)
  | (w, .serving []) =>
    -- the rest of the round keeps to what only the worker sees
    let w := { w with epevUsers := [] }
    ((w.handlerEpdata rt).handlerMsgs rt r.writes, .start)

variable {w w' : GateWorker}

/-- The ways serving a user can end, as far as the step goes. -/
theorem pcStep_serving (w : GateWorker) (user : Ptr) (users : List Ptr) (r : WorkerRound) :
    w.Fails r.io user ∧
        pcStep rt (w, .serving (user :: users)) r = (w.served r.io user, .closed user users) ∨
      ¬ w.Fails r.io user ∧ ∃ rdUsers, rdUsers ⊆ w.rdUsers ++ [user] ∧
        pcStep rt (w, .serving (user :: users)) r =
          ({ w.served r.io user with rdUsers := rdUsers }, .serving users) := by
  by_cases herror : w.Fails r.io user
  · exact .inl ⟨herror, if_pos herror⟩
  · refine .inr ⟨herror, ?_⟩
    by_cases hread : (w.eventOp r.io user).1.has FdEvent.read = true
    · exact ⟨_, List.Subset.refl _, (if_neg herror).trans (if_pos hread)⟩
    · exact ⟨w.rdUsers, List.subset_append_left .., (if_neg herror).trans (if_neg hread)⟩

/-! ## Undisturbed rounds -/

theorem run_pcStep_connecting (r : WorkerRound) (evs : List EventNode) (w : GateWorker) :
    run (pcStep rt) (w, .connecting evs) (List.replicate evs.length r) =
      (evs.foldl ioevent w, .connecting []) := by
  induction evs generalizing w with
  | nil => rfl
  | cons ev evs ih =>
      rw [List.length_cons, List.replicate_succ, run_cons, List.foldl_cons, pcStep, ih]

/-- The steps that serve a user are `event_op` and, if that fails, all of
`on_conn_offline`. -/
theorem exists_run_pcStep_user (r : WorkerRound) (user : Ptr) (users : List Ptr) (w : GateWorker) :
    ∃ n, run (pcStep rt) (w, .serving (user :: users)) (List.replicate n r) =
      (w.serveUser r.io user, .serving users) := by
  by_cases herror : w.Fails r.io user
  · have hserve : w.serveUser r.io user = (w.served r.io user).onConnOffline user := if_pos herror
    have hclosed : pcStep rt (w, .serving (user :: users)) r =
        (w.served r.io user, .closed user users) := if_pos herror
    rw [hserve, onConnOffline_eq]
    by_cases hsys : ((w.served r.io user).node user).type = .system
    · refine ⟨2, ?_⟩
      rw [List.replicate_succ, run_cons, hclosed, List.replicate_one, run_cons, run_nil, pcStep,
        if_pos hsys, if_pos hsys]
    · refine ⟨3, ?_⟩
      have hnode : (((w.served r.io user).offlineBefore user).node user).sfd =
          ((w.served r.io user).node user).sfd := by
        unfold offlineBefore
        rw [if_neg hsys]
        rfl
      rw [List.replicate_succ, run_cons, hclosed, List.replicate_succ, run_cons, pcStep,
        if_neg hsys, if_neg hsys, List.replicate_one, run_cons, run_nil, pcStep, hnode]
  · refine ⟨1, ?_⟩
    have hserve : w.serveUser r.io user = if (w.eventOp r.io user).1.has FdEvent.read then
        { w.served r.io user with rdUsers := w.rdUsers ++ [user] } else w.served r.io user :=
      if_neg herror
    have hstep : pcStep rt (w, .serving (user :: users)) r =
        if (w.eventOp r.io user).1.has FdEvent.read then
          ({ w.served r.io user with rdUsers := w.rdUsers ++ [user] }, .serving users)
        else (w.served r.io user, .serving users) := if_neg herror
    rw [List.replicate_one, run_cons, run_nil, hstep, hserve]
    split_ifs <;> rfl

theorem exists_run_pcStep_users (r : WorkerRound) (users : List Ptr) (w : GateWorker) :
    ∃ n, run (pcStep rt) (w, .serving users) (List.replicate n r) =
      (users.foldl (serveUser r.io) w, .serving []) := by
  induction users generalizing w with
  | nil => exact ⟨0, rfl⟩
  | cons user users ih =>
      obtain ⟨m, hm⟩ := exists_run_pcStep_user rt r user users w
      obtain ⟨n, hn⟩ := ih (w.serveUser r.io user)
      refine ⟨m + n, ?_⟩
      rw [List.replicate_add, run_append, hm, hn, List.foldl_cons]

/-- **A round nobody disturbs** is `thread_loop`. -/
theorem exists_run_pcStep_round (w : GateWorker) (r : WorkerRound) :
    ∃ n, run (pcStep rt) (w, .start) (List.replicate n r) =
      (w.threadLoop rt { r with ioevs := [] }, .start) := by
  obtain ⟨n, hn⟩ := exists_run_pcStep_users rt r (w.marked { r with ioevs := [] }).epevUsers
    (w.marked { r with ioevs := [] })
  refine ⟨1 + (w.ioevsIn.length + (1 + (n + 1))), ?_⟩
  have hmarked : r.events.foldl markEvent (w.ioevsIn.foldl ioevent { w with ioevsIn := [] }) =
      w.marked { r with ioevs := [] } := by
    unfold marked handlerIoevent
    simp only [List.append_nil]
    rfl
  rw [List.replicate_add, run_append, List.replicate_one, run_cons, run_nil, pcStep,
    List.replicate_add, run_append, run_pcStep_connecting, List.replicate_add, run_append,
    List.replicate_one, run_cons, run_nil, pcStep, hmarked, List.replicate_add, run_append, hn,
    List.replicate_one, run_cons, run_nil, pcStep]
  rfl

/-! ## Steps that leave the descriptors alone -/

/-- No connection comes or goes, and what is shared with the IO thread stays. -/
structure Steady (w w' : GateWorker) : Prop where
  conns : SameConns w w'
  inbox : SameInbox w w'
  users : w'.users = w.users
  fdSet : w'.fdSet = w.fdSet
  closed : w'.tcpOp.closed = w.tcpOp.closed

/-- Steps that do not touch the heap. -/
theorem SameConns.of_heap (hheap : w'.heap = w.heap) (hlogic : w'.logic = w.logic) :
    SameConns w w' := by
  refine ⟨by rw [hheap], hlogic, ?_, ?_, ?_⟩ <;> intro p
  · rw [hheap]
  · rw [node, node, hheap]
  · rw [node, node, hheap]

theorem Steady.refl (w : GateWorker) : Steady w w :=
  ⟨.of_heap rfl rfl, ⟨rfl, rfl, rfl⟩, rfl, rfl, rfl⟩

theorem Steady.trans {w₁ w₂ w₃ : GateWorker} (h : Steady w₁ w₂) (h' : Steady w₂ w₃) :
    Steady w₁ w₃ where
  conns := h.conns.trans h'.conns
  inbox := h.inbox.trans h'.inbox
  users := h'.users.trans h.users
  fdSet := h'.fdSet.trans h.fdSet
  closed := h'.closed.trans h.closed

/-- What each step of a loop keeps, the loop keeps. -/
theorem Steady.foldl {σ ι : Type*} (step : σ → ι → σ) (worker : σ → GateWorker)
    (hstep : ∀ s i, Steady (worker s) (worker (step s i))) (s : σ) (is : List ι) :
    Steady (worker s) (worker (is.foldl step s)) :=
  run_invariant (I := fun s' => Steady (worker s) (worker s'))
    (fun s' i h => h.trans (hstep s' i)) (.refl _) is

theorem steady_markEvent (w : GateWorker) (ev : EpollEvent) : Steady w (w.markEvent ev) := by
  have hcalm := (markEvent_spec w ev).1
  refine ⟨hcalm.sameConns, sameInbox_markEvent w ev, hcalm.users, ?_, ?_⟩ <;>
  · unfold markEvent
    cases w.users.getUserBySock ev.fd with
    | none => rfl
    | some user =>
        simp only
        split_ifs <;> rfl

theorem steady_parseUser (w : GateWorker) (user : Ptr) : Steady w (w.parseUser rt user) := by
  obtain ⟨msgs, hparse⟩ := parseUser_spec rt w user
  refine ⟨hparse.sameConns, sameInbox_parseUser rt w user, hparse.users, ?_, ?_⟩ <;>
  · unfold parseUser
    simp only [foldl_takeMsg]
    split_ifs <;> rfl

theorem steady_setNode {user : Ptr} {sock : SocketNode} {tcpOp : TcpOp}
    (h : (w.node user).Kept sock) (hclosed : tcpOp.closed = w.tcpOp.closed) :
    Steady w { w.setNode user sock with tcpOp := tcpOp } :=
  ⟨(calm_setNode h).sameConns.trans (.of_heap rfl rfl), ⟨rfl, rfl, rfl⟩, rfl, rfl, hclosed⟩

theorem steady_sendToLogic (s : GateWorker × List WriteRes) (msg : UserMsg) :
    Steady s.1 (sendToLogic rt s msg).1 :=
  (steady_setNode (SocketOp.kept_writeMsg ..) rfl).trans
    ⟨.of_heap rfl rfl, ⟨rfl, rfl, rfl⟩, rfl, rfl, rfl⟩

theorem steady_sendToUser (s : GateWorker × List WriteRes) (msg : UserMsg) :
    Steady s.1 (sendToUser rt s msg).1 := by
  obtain ⟨w, writes⟩ := s
  unfold sendToUser
  cases huser : w.users.getUserByUid msg.uid with
  | none => simpa only [huser] using Steady.refl w
  | some user =>
      cases hsock : (w.heap.obj user).sock with
      | none => simpa only [huser, hsock] using Steady.refl w
      | some sock =>
          have hnode : w.node user = sock := by rw [node, User.node, hsock]; rfl
          simp only [huser, hsock]
          exact steady_setNode (hnode ▸ SocketOp.kept_writeMsg ..) rfl

theorem steady_handlerMsgs (w : GateWorker) (writes : List WriteRes) :
    Steady w (w.handlerMsgs rt writes) := by
  have hsent := Steady.foldl (sendToLogic rt) Prod.fst (steady_sendToLogic rt) (w, writes)
    w.userMsgsIn
  unfold handlerMsgs
  generalize w.userMsgsIn.foldl (sendToLogic rt) (w, writes) = s at hsent ⊢
  obtain ⟨v, writes'⟩ := s
  simp only
  have hdistributed := Steady.foldl (sendToUser rt) Prod.fst (steady_sendToUser rt)
    ({ v with userMsgsIn := [] }, writes') v.logicMsgsIn
  have hcleared : Steady v { v with userMsgsIn := [] } :=
    ⟨.of_heap rfl rfl, ⟨rfl, rfl, rfl⟩, rfl, rfl, rfl⟩
  exact (hsent.trans hcleared).trans
    (hdistributed.trans ⟨.of_heap rfl rfl, ⟨rfl, rfl, rfl⟩, rfl, rfl, rfl⟩)

/-! ## What holds at every stop -/

/-- The worker serves a user under the descriptor. -/
def Serves (w : GateWorker) (fd : Int32) : Prop :=
  ∃ user, w.users.getUserBySock fd = some user ∧ (w.node user).type = .user

/-- The events on their way to the worker. -/
def handed (w : GateWorker) (pc : Pc) : List EventNode := pc.evLists ++ w.ioevsIn ++ w.eventsIo

def handedFds (w : GateWorker) (pc : Pc) : List Int32 := (w.handed pc).map (·.sfd)

/-- The descriptor that is closed and still in `_users`. -/
def closedFd (w : GateWorker) : Pc → Option Int32
  | .closed user _ => some (w.node user).sfd
  | _ => none

/-- The descriptor that is out of `_users` and still in `_fd_set`. -/
def deletedFd (w : GateWorker) : Pc → Option Int32
  | .deleted user _ => some (w.node user).sfd
  | _ => none

/-- An open descriptor is this worker's. -/
def Holds (w : GateWorker) (pc : Pc) (fd : Int32) : Prop :=
  fd ∈ w.handedFds pc ∨ (w.users.sockUsers.find fd ≠ none ∧ w.closedFd pc ≠ some fd)

/-- The list a worker goes through holds distinct users it serves. -/
def Lists (w : GateWorker) (users : List Ptr) : Prop := users.Nodup ∧ ∀ p ∈ users, w.Found p

def Stands (w : GateWorker) : Pc → Prop
  | .start | .connecting _ => w.epevUsers = []
  | .serving users => w.Lists users
  | .closed user users => w.Lists (user :: users)
  | .deleted user users => w.Lists users ∧ (w.node user).type ≠ .system ∧
      w.users.sockUsers.find (w.node user).sfd = none

/-- At every stop `_fd_set` holds the descriptors served, those in CONNECT events on
their way, and the one that is on its way out. -/
structure Tidy (w : GateWorker) (pc : Pc) : Prop where
  wellFormed : WellFormed rt w
  connects : ∀ ev ∈ w.handed pc, ev.event.has FdEvent.connect = true ∧ 0 < ev.sfd
  nodup : (w.handedFds pc).Nodup
  /-- The descriptor of a Logic connection may come back while it is on its way out. -/
  fresh : ∀ fd ∈ w.handedFds pc, w.users.sockUsers.find fd = none ∨ w.closedFd pc = some fd
  /-- That of a user may not. -/
  gone : ∀ user, pc.leaving = some user → (w.node user).type ≠ .system →
    (w.node user).sfd ∉ w.handedFds pc
  stands : w.Stands pc
  table : ∀ fd, fd ∈ w.fdSet ↔
    w.Serves fd ∨ fd ∈ w.handedFds pc ∨ w.deletedFd pc = some fd

/-- What a step does: it closes descriptors the worker has, and takes hold of none. -/
structure TidyStep (s s' : GateWorker × Pc) : Prop where
  tidy : Tidy rt s'.1 s'.2
  holds : ∀ fd, s'.1.Holds s'.2 fd →
    s.1.Holds s.2 fd ∧ fd ∉ s.1.tcpOp.closedSince s'.1.tcpOp
  closes : ∀ fd ∈ s.1.tcpOp.closedSince s'.1.tcpOp, s.1.Holds s.2 fd

variable {rt} {pc pc' : Pc} {user : Ptr} {users : List Ptr} {fd : Int32}

/-- The same for a step that closes nothing. -/
theorem TidyStep.of_closed_eq {s s' : GateWorker × Pc} (h : Tidy rt s'.1 s'.2)
    (hclosed : s'.1.tcpOp.closed = s.1.tcpOp.closed)
    (hholds : ∀ fd, s'.1.Holds s'.2 fd → s.1.Holds s.2 fd) : TidyStep rt s s' := by
  have hsince : s.1.tcpOp.closedSince s'.1.tcpOp = [] :=
    TcpOp.closedSince_of_append (hclosed.trans (List.append_nil _).symm)
  refine ⟨h, fun fd hfd => ⟨hholds fd hfd, ?_⟩, ?_⟩ <;> rw [hsince]
  · exact List.not_mem_nil
  · exact nofun

/-- With no close under way, what is handed over is not served yet. -/
theorem Tidy.free_of_handed (h : Tidy rt w pc) (hpc : w.closedFd pc = none)
    (hfd : fd ∈ w.handedFds pc) : w.users.sockUsers.find fd = none := by
  refine (h.fresh fd hfd).resolve_right ?_
  rw [hpc]
  exact (Option.some_ne_none fd).symm

theorem Steady.serves (h : Steady w w') : w'.Serves fd ↔ w.Serves fd := by
  unfold Serves
  rw [h.users]
  simp only [h.conns.type]

theorem Steady.found (h : Steady w w') {p : Ptr} (hp : w.Found p) : w'.Found p := by
  unfold Found
  rw [h.users, h.conns.sfd]
  exact hp

theorem Steady.lists (h : Steady w w') (hl : w.Lists users) : w'.Lists users :=
  ⟨hl.1, fun p hp => h.found (hl.2 p hp)⟩

/-- The users of a worker are its Logic connection and users. -/
theorem Tidy.type_eq (h : Tidy rt w pc) (hfound : w.Found user)
    (hsys : (w.node user).type ≠ .system) : (w.node user).type = .user := by
  refine h.wellFormed.user_type ⟨(h.wellFormed.found hfound).1, ?_⟩
  rintro rfl
  exact hsys h.wellFormed.logic_type

/-- Between two connections that end, a step may go on with the same events. -/
theorem TidyStep.of_steady (h : Tidy rt w pc) (hs : Steady w w') (hwf : WellFormed rt w')
    (hev : pc'.evLists = pc.evLists) (hleaving : pc.leaving = none)
    (hleaving' : pc'.leaving = none) (hstands : w'.Stands pc') :
    TidyStep rt (w, pc) (w', pc') := by
  have hnone : ∀ (w : GateWorker) {pc : Pc}, pc.leaving = none →
      w.closedFd pc = none ∧ w.deletedFd pc = none := by
    intro w pc hpc
    cases pc <;> simp_all [Pc.leaving, closedFd, deletedFd]
  have hhanded : w'.handed pc' = w.handed pc := by
    rw [handed, handed, hev, hs.inbox.ioevsIn, hs.inbox.eventsIo]
  have hfds : w'.handedFds pc' = w.handedFds pc := by rw [handedFds, handedFds, hhanded]
  have hclosed := (hnone w hleaving).1
  have hclosed' := (hnone w' hleaving').1
  refine .of_closed_eq ⟨hwf, ?_, ?_, ?_, ?_, hstands, ?_⟩ hs.closed ?_
  · rw [hhanded]
    exact h.connects
  · rw [hfds]
    exact h.nodup
  · rw [hfds, hs.users, hclosed', ← hclosed]
    exact h.fresh
  · intro user hu
    rw [hleaving'] at hu
    cases hu
  · intro fd
    rw [hs.fdSet, hs.serves, hfds, (hnone w' hleaving').2, ← (hnone w hleaving).2]
    exact h.table fd
  · intro fd
    unfold Holds
    rw [hfds, hs.users, hclosed', hclosed]
    exact id

/-! ## Every step -/

/-- `handler_ioevent` takes the events handed over. -/
theorem tidyStep_start (h : Tidy rt w .start) (r : WorkerRound) :
    TidyStep rt (w, .start) (pcStep rt (w, .start) r) := by
  have hhanded : handed { w with ioevsIn := [] } (.connecting w.ioevsIn) = w.handed .start := by
    simp [handed, Pc.evLists]
  have hfds : handedFds { w with ioevsIn := [] } (.connecting w.ioevsIn) = w.handedFds .start := by
    rw [handedFds, handedFds, hhanded]
  refine .of_closed_eq ⟨?_, ?_, ?_, ?_, nofun, h.stands, ?_⟩ rfl ?_
  · exact h.wellFormed.of_calm (Calm.of_eq rfl rfl rfl rfl rfl) rfl
  · exact hhanded ▸ h.connects
  · exact hfds ▸ h.nodup
  · exact hfds ▸ h.fresh
  · exact hfds ▸ h.table
  · exact fun fd hfd => hfd.imp (fun hmem => hfds ▸ hmem) id

/-- `on_new_connect`: a descriptor on its way becomes one that is served. -/
theorem tidyStep_connect {ev : EventNode} {evs : List EventNode}
    (h : Tidy rt w (.connecting (ev :: evs))) (r : WorkerRound) :
    TidyStep rt (w, .connecting (ev :: evs)) (pcStep rt (w, .connecting (ev :: evs)) r) := by
  have hcons : w.handed (.connecting (ev :: evs)) = ev :: w.handed (.connecting evs) := rfl
  have hfds : w.handedFds (.connecting (ev :: evs)) = ev.sfd :: w.handedFds (.connecting evs) := rfl
  obtain ⟨hconnect, hpos⟩ := h.connects ev (hcons ▸ List.mem_cons_self)
  have hnodup := h.nodup
  rw [hfds, List.nodup_cons] at hnodup
  have hfree := h.free_of_handed rfl (hfds ▸ List.mem_cons_self : ev.sfd ∈ _)
  have hstep : pcStep rt (w, .connecting (ev :: evs)) r = (w.onNewConnect ev, .connecting evs) := by
    rw [pcStep, ioevent, if_pos hconnect]
  have hfind := find_onNewConnect_of_free hfree hpos
  -- the users there before keep their nodes
  have hserves : ∀ fd, (w.onNewConnect ev).Serves fd ↔ fd = ev.sfd ∨ w.Serves fd := by
    intro fd
    unfold Serves UserManager.getUserBySock
    rw [hfind]
    split_ifs with hfd
    · refine iff_of_true ⟨w.heap.next, rfl, ?_⟩ (.inl hfd)
      rw [node_onNewConnect, if_pos rfl]
    · rw [or_iff_right hfd]
      refine exists_congr fun user => and_congr_right fun huser => ?_
      rw [node_onNewConnect, if_neg (Nat.ne_of_lt (h.wellFormed.found huser).1)]
  rw [hstep]
  refine .of_closed_eq ⟨wellFormed_onNewConnect h.wellFormed ev, ?_, ?_, ?_, ?_, h.stands, ?_⟩
    rfl ?_
  · intro ev' hev'
    exact h.connects ev' (hcons ▸ List.mem_cons_of_mem ev hev')
  · exact hnodup.2
  · intro fd hfd
    have hne : fd ≠ ev.sfd := fun heq => hnodup.1 (heq ▸ hfd)
    rw [hfind, if_neg hne]
    exact .inl (h.free_of_handed rfl (hfds ▸ List.mem_cons_of_mem _ hfd))
  · rintro _ ⟨⟩
  · intro fd
    show fd ∈ w.fdSet ↔ (w.onNewConnect ev).Serves fd ∨ fd ∈ w.handedFds (.connecting evs) ∨ _
    rw [h.table, hserves, hfds, List.mem_cons, or_assoc, or_assoc]
    exact or_left_comm
  · rintro fd (hfd | ⟨hfd, -⟩)
    · exact .inl (hfds ▸ List.mem_cons_of_mem _ hfd)
    · rw [hfind] at hfd
      split_ifs at hfd with heq
      · exact .inl (hfds ▸ heq ▸ List.mem_cons_self)
      · exact .inr ⟨hfd, (Option.some_ne_none fd).symm⟩

/-- `epoll_wait` and the marks. -/
theorem tidyStep_wait (h : Tidy rt w (.connecting [])) (r : WorkerRound) :
    TidyStep rt (w, .connecting []) (pcStep rt (w, .connecting []) r) := by
  have hempty : w.epevUsers = [] := h.stands
  have hnone : ∀ p ∈ w.epevUsers, w.Live p ∧ (w.node p).sfd ∉ r.events.map EpollEvent.fd := by
    rw [hempty]
    exact fun _ hp => absurd hp List.not_mem_nil
  obtain ⟨hcalm, hqueue, hnodup, -⟩ :=
    foldl_markEvent_spec r.nodup_events h.wellFormed (hempty ▸ List.nodup_nil) hnone
  have hfound := found_foldl_markEvent h.wellFormed hempty r.events
  exact .of_steady h (Steady.foldl markEvent id steady_markEvent w r.events) hfound.1 rfl rfl rfl
    ⟨hnodup, hfound.2⟩

theorem closed_served (io : Int32 → KernelIo) (w : GateWorker) (user : Ptr) :
    (w.served io user).tcpOp.closed =
      w.tcpOp.closed ++ if w.Fails io user then [(w.node user).sfd] else [] :=
  (TcpOp.eventOp_epoll w.tcpOp (w.node user) (io (w.node user).sfd)).1

/-- `event_op`, and the end of the connection if it fails. -/
theorem tidyStep_serve (h : Tidy rt w (.serving (user :: users))) (r : WorkerRound) :
    TidyStep rt (w, .serving (user :: users)) (pcStep rt (w, .serving (user :: users)) r) := by
  obtain ⟨hnodup, hfound⟩ := h.stands
  have huser : w.Found user := hfound user List.mem_cons_self
  have hconns := SameConns.served r.io w user
  have hclosed := closed_served r.io w user
  have hwf := wellFormed_served h.wellFormed r.io user
  -- nobody hands over a descriptor that is served
  have hnot : (w.node user).sfd ∉ w.handedFds (.serving (user :: users)) := by
    intro hmem
    have hfree := h.free_of_handed rfl hmem
    rw [huser] at hfree
    cases hfree
  rcases pcStep_serving rt w user users r with ⟨hfail, hstep⟩ | ⟨hfail, rdUsers, hsub, hstep⟩ <;>
    rw [hstep]
  · have hserves : ∀ fd, (w.served r.io user).Serves fd ↔ w.Serves fd := fun fd => by
      unfold Serves
      simp only [hconns.type]
      rfl
    have hsince : w.tcpOp.closedSince (w.served r.io user).tcpOp = [(w.node user).sfd] := by
      apply TcpOp.closedSince_of_append
      rw [hclosed, if_pos hfail]
    refine ⟨⟨hwf, h.connects, h.nodup, ?_, ?_, ?_, ?_⟩, ?_, ?_⟩
    · exact fun fd hfd => .inl (h.free_of_handed rfl hfd)
    · rintro _ ⟨⟩ -
      rw [hconns.sfd]
      exact hnot
    · refine ⟨hnodup, fun p hp => ?_⟩
      unfold Found
      rw [hconns.sfd]
      exact hfound p hp
    · intro fd
      rw [hserves]
      exact h.table fd
    · intro fd hfd
      rw [hsince, List.mem_singleton]
      rcases hfd with hfd | ⟨hfd, hne⟩
      · exact ⟨.inl hfd, fun heq => hnot (heq ▸ hfd)⟩
      · refine ⟨.inr ⟨hfd, nofun⟩, fun heq => hne ?_⟩
        rw [closedFd, hconns.sfd, heq]
    · intro fd hfd
      rw [hsince, List.mem_singleton] at hfd
      refine .inr ⟨?_, nofun⟩
      rw [hfd, huser]
      exact nofun
  · have hsteady : Steady w { w.served r.io user with rdUsers := rdUsers } := by
      refine ⟨hconns.trans (.of_heap rfl rfl), ⟨rfl, rfl, rfl⟩, rfl, rfl, ?_⟩
      rw [hclosed, if_neg hfail, List.append_nil]
    refine .of_steady h hsteady ?_ rfl rfl rfl (hsteady.lists ⟨hnodup.of_cons, fun p hp =>
      hfound p (List.mem_cons_of_mem user hp)⟩)
    refine hwf.of_sameConns (.of_heap rfl rfl) ?_ ?_ ?_ ?_
    · exact fun hp => ⟨hp, (hwf.found hp).2.2⟩
    · exact fun msg hmsg => .inl hmsg
    · exact hwf.offline_lt
    · intro p hp
      rcases List.mem_append.mp (hsub hp) with hp | hp
      · exact h.wellFormed.rdUsers_lt p hp
      · rw [List.mem_singleton.mp hp]
        exact (h.wellFormed.found huser).1

/-! ### The end of a connection -/

/-- What the first part of `on_conn_offline` leaves alone. -/
theorem offlineBefore_fields (w : GateWorker) (user : Ptr) :
    (w.offlineBefore user).heap = w.heap ∧ (w.offlineBefore user).logic = w.logic ∧
      SameInbox w (w.offlineBefore user) ∧ (w.offlineBefore user).fdSet = w.fdSet ∧
      (w.offlineBefore user).tcpOp = w.tcpOp ∧
      (w.offlineBefore user).users = w.users.delConn w.heap (w.node user).sfd := by
  simp only [offlineBefore, queuePresence_offline]
  split_ifs <;> exact ⟨rfl, rfl, ⟨rfl, rfl, rfl⟩, rfl, rfl, rfl⟩

theorem wellFormed_offlineBefore (h : WellFormed rt w) (hlt : user < w.heap.next) :
    WellFormed rt (w.offlineBefore user) := by
  have hwhole := wellFormed_onConnOffline h hlt
  rw [onConnOffline_eq] at hwhole
  split_ifs at hwhole
  · exact hwhole
  · -- `del_fd` is not seen by any of it
    exact hwhole.of_calm (Calm.of_eq rfl rfl rfl rfl rfl) rfl

theorem find_offlineBefore (hfound : w.Found user) (fd : Int32) :
    (w.offlineBefore user).users.sockUsers.find fd =
      if fd = (w.node user).sfd then none else w.users.sockUsers.find fd := by
  obtain ⟨-, -, -, -, -, husers⟩ := offlineBefore_fields w user
  rw [husers, UserManager.delConn, hfound]
  exact Table.find_erase ..

theorem node_offlineBefore (w : GateWorker) (user p : Ptr) :
    (w.offlineBefore user).node p = w.node p := by
  rw [node, (offlineBefore_fields w user).1]
  rfl

theorem serves_offlineBefore (hfound : w.Found user) (fd : Int32) :
    (w.offlineBefore user).Serves fd ↔ fd ≠ (w.node user).sfd ∧ w.Serves fd := by
  unfold Serves UserManager.getUserBySock
  simp only [find_offlineBefore hfound, node_offlineBefore]
  split_ifs with hfd
  · simp [hfd]
  · simp [hfd]

/-- A user that leaves takes no other with it. -/
theorem Lists.offlineBefore (h : w.Lists (user :: users)) :
    (w.offlineBefore user).Lists users := by
  obtain ⟨hnodup, hfound⟩ := h
  refine ⟨hnodup.of_cons, fun p hp => ?_⟩
  have hmem := hfound p (List.mem_cons_of_mem user hp)
  have huser := hfound user List.mem_cons_self
  have hne : (w.node p).sfd ≠ (w.node user).sfd := by
    intro heq
    unfold Found at hmem huser
    rw [heq, huser] at hmem
    exact (List.nodup_cons.mp hnodup).1 (Option.some.inj hmem ▸ hp)
  unfold Found
  rw [node_offlineBefore, find_offlineBefore huser, if_neg hne]
  exact hmem

/-- Both continuations have the same events on their way. -/
theorem handed_offlineBefore (w : GateWorker) (user : Ptr) {pc : Pc} (hpc : pc.evLists = []) :
    (w.offlineBefore user).handed pc = w.handed (.closed user users) := by
  obtain ⟨-, -, hinbox, -⟩ := offlineBefore_fields w user
  rw [handed, hpc, hinbox.ioevsIn, hinbox.eventsIo]
  rfl

theorem handedFds_offlineBefore (w : GateWorker) (user : Ptr) {pc : Pc} (hpc : pc.evLists = []) :
    (w.offlineBefore user).handedFds pc = w.handedFds (.closed user users) := by
  rw [handedFds, handedFds, handed_offlineBefore w user hpc]

/-- What is on its way may have got the number that is given up, and no other. -/
theorem Tidy.fresh_offlineBefore (h : Tidy rt w (.closed user users)) (huser : w.Found user) :
    ∀ fd ∈ w.handedFds (.closed user users),
      (w.offlineBefore user).users.sockUsers.find fd = none := by
  intro fd hfd
  rw [find_offlineBefore huser]
  split_ifs with heq
  · rfl
  · refine (h.fresh fd hfd).resolve_right fun hclosed => heq ?_
    exact (Option.some.inj hclosed).symm

theorem holds_offlineBefore (huser : w.Found user) {pc : Pc} (hpc : pc.evLists = []) (fd : Int32)
    (h : (w.offlineBefore user).Holds pc fd) : w.Holds (.closed user users) fd := by
  rw [Holds, handedFds_offlineBefore w user hpc, find_offlineBefore huser] at h
  refine h.imp_right fun ⟨hfd, _⟩ => ?_
  split_ifs at hfd with heq
  · exact absurd rfl hfd
  · exact ⟨hfd, fun hclosed => heq (Option.some.inj hclosed).symm⟩

/-- `del_conn` and the offline message. -/
theorem tidyStep_offline (h : Tidy rt w (.closed user users)) (r : WorkerRound) :
    TidyStep rt (w, .closed user users) (pcStep rt (w, .closed user users) r) := by
  have hlists : w.Lists (user :: users) := h.stands
  have huser : w.Found user := hlists.2 user List.mem_cons_self
  obtain ⟨-, -, -, hfdSet, htcp, -⟩ := offlineBefore_fields w user
  have hwf := wellFormed_offlineBefore h.wellFormed (h.wellFormed.found huser).1
  have hserves := serves_offlineBefore huser
  have hfresh := h.fresh_offlineBefore huser
  have hclosed : (w.offlineBefore user).tcpOp.closed = w.tcpOp.closed := by rw [htcp]
  by_cases hsys : (w.node user).type = .system
  · have hstep : pcStep rt (w, .closed user users) r = (w.offlineBefore user, .serving users) :=
      if_pos hsys
    have hevs : (w.offlineBefore user).handed (.serving users) = w.handed (.closed user users) :=
      handed_offlineBefore w user rfl
    have hfds : (w.offlineBefore user).handedFds (.serving users) =
        w.handedFds (.closed user users) := handedFds_offlineBefore w user rfl
    rw [hstep]
    refine .of_closed_eq ⟨hwf, ?_, ?_, ?_, nofun, hlists.offlineBefore, ?_⟩ hclosed
      (holds_offlineBefore huser rfl)
    · exact hevs ▸ h.connects
    · exact hfds ▸ h.nodup
    · exact fun fd hfd => .inl (hfresh fd (hfds ▸ hfd))
    · -- the Logic connection is no user
      have hnot : ¬ w.Serves (w.node user).sfd := by
        rintro ⟨p, hp, htype⟩
        obtain rfl := Option.some.inj (huser.symm.trans hp)
        rw [hsys] at htype
        cases htype
      intro fd
      rw [hfdSet, hfds, hserves, h.table]
      refine or_congr_left ⟨fun hfd => ⟨?_, hfd⟩, And.right⟩
      rintro rfl
      exact hnot hfd
  · have hstep : pcStep rt (w, .closed user users) r =
        (w.offlineBefore user, .deleted user users) := if_neg hsys
    have hnode := node_offlineBefore w user user
    have hevs : (w.offlineBefore user).handed (.deleted user users) =
        w.handed (.closed user users) := handed_offlineBefore w user rfl
    have hfds : (w.offlineBefore user).handedFds (.deleted user users) =
        w.handedFds (.closed user users) := handedFds_offlineBefore w user rfl
    rw [hstep]
    refine .of_closed_eq ⟨hwf, ?_, ?_, ?_, ?_, ⟨hlists.offlineBefore, ?_, ?_⟩, ?_⟩ hclosed
      (holds_offlineBefore huser rfl)
    · exact hevs ▸ h.connects
    · exact hfds ▸ h.nodup
    · exact fun fd hfd => .inl (hfresh fd (hfds ▸ hfd))
    · rintro _ ⟨⟩ -
      rw [hnode, hfds]
      exact h.gone user rfl hsys
    · rw [hnode]
      exact hsys
    · rw [hnode, find_offlineBefore huser, if_pos rfl]
    · -- the user was served until now
      have hserved : w.Serves (w.node user).sfd := ⟨user, huser, h.type_eq huser hsys⟩
      intro fd
      rw [hfdSet, hfds, hserves, h.table, deletedFd, hnode]
      by_cases heq : fd = (w.node user).sfd
      · exact iff_of_true (.inl (heq ▸ hserved)) (.inr (.inr (congrArg some heq.symm)))
      · have hne : some (w.node user).sfd ≠ some fd := fun h => heq (Option.some.inj h).symm
        simp [heq, hne, deletedFd]

/-- `del_fd`: nothing else keeps the descriptor in the set. -/
theorem tidyStep_delFd (h : Tidy rt w (.deleted user users)) (r : WorkerRound) :
    TidyStep rt (w, .deleted user users) (pcStep rt (w, .deleted user users) r) := by
  obtain ⟨hlists, hsys, hfree⟩ := h.stands
  have hgone := h.gone user rfl hsys
  refine .of_closed_eq ⟨?_, h.connects, h.nodup, ?_, nofun, hlists, ?_⟩ rfl ?_
  · exact h.wellFormed.of_calm (Calm.of_eq rfl rfl rfl rfl rfl) rfl
  · exact fun fd hfd => .inl (h.free_of_handed rfl hfd)
  · intro fd
    show fd ∈ w.fdSet.erase (w.node user).sfd ↔
      w.Serves fd ∨ fd ∈ w.handedFds (.deleted user users) ∨ none = some fd
    rw [Finset.mem_erase, h.table]
    constructor
    · rintro ⟨hne, hserves | hfd | hfd⟩
      · exact .inl hserves
      · exact .inr (.inl hfd)
      · exact absurd (Option.some.inj hfd).symm hne
    · rintro (⟨p, hp, htype⟩ | hfd | hfd)
      · refine ⟨?_, .inl ⟨p, hp, htype⟩⟩
        rintro rfl
        rw [UserManager.getUserBySock, hfree] at hp
        cases hp
      · exact ⟨fun heq => hgone (heq ▸ hfd), .inr (.inl hfd)⟩
      · cases hfd
  · exact fun fd hfd => hfd.imp_right fun ⟨hfd, _⟩ => ⟨hfd, nofun⟩

/-- `handler_epdata` and `handler_msgs`. -/
theorem tidyStep_rest (h : Tidy rt w (.serving [])) (r : WorkerRound) :
    TidyStep rt (w, .serving []) (pcStep rt (w, .serving []) r) := by
  have hcleared : Steady w { w with epevUsers := [] } :=
    ⟨.of_heap rfl rfl, ⟨rfl, rfl, rfl⟩, rfl, rfl, rfl⟩
  have hwf : WellFormed rt { w with epevUsers := [] } :=
    h.wellFormed.of_calm (Calm.of_eq rfl rfl rfl rfl rfl) rfl
  have hparsed := stageInvariant_wellFormed.parsed hwf hwf.rdUsers_lt
  obtain ⟨hcalm, hqueue, -, hev⟩ := handlerMsgs_spec rt
    (handlerEpdata rt { w with epevUsers := [] }) r.writes
  refine .of_steady h ?_ (hparsed.of_calm hcalm hqueue) rfl rfl rfl ?_
  · exact (hcleared.trans (Steady.foldl (parseUser rt) id (steady_parseUser rt) _ _)).trans
      (steady_handlerMsgs rt _ r.writes)
  · exact hev.trans (handlerEpdata_fields _ _).1

/-- **Every step** of a worker. -/
theorem tidyStep_pcStep (h : Tidy rt w pc) (r : WorkerRound) :
    TidyStep rt (w, pc) (pcStep rt (w, pc) r) := by
  cases pc with
  | start => exact tidyStep_start h r
  | connecting evLists =>
      cases evLists with
      | nil => exact tidyStep_wait h r
      | cons ev evs => exact tidyStep_connect h r
  | serving users =>
      cases users with
      | nil => exact tidyStep_rest h r
      | cons user users => exact tidyStep_serve h r
  | closed user users => exact tidyStep_offline h r
  | deleted user users => exact tidyStep_delFd h r

end GateWorker

end Rubo.Server
