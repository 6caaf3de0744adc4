import Rubo.Server.Descriptors

/-!
# Finished Connections

GateIO is through with a connection when it has closed its descriptor or handed it
to a worker. The user object may stay in `_unlogin_reads`, which is never cleared,
and whatever its read buffer still holds is parsed in the rounds that follow: a
handler is called for somebody who is gone, or the descriptor number is closed once
more, whoever has it by then.

- `neverReturns_of_along`: GateIO leaves finished connections alone in every run in
  which those still in `_unlogin_reads` leave only frames with unregistered ids, and
  new connections do not get the number of a connection that is not finished.
- `not_neverReturns_leftFrames`: a client that sends two more requests than it waits
  for has the descriptor of its successor closed.
-/

namespace Rubo.Server.GateIO

open Rubo.Foundation Rubo.Msgs Rubo.Util

variable (rt : Runtime)

/-! ## The log of a run -/

/-- What GateIO does with a connection. -/
inductive Deed where
  /-- `on_accept()` has made a user object for it. -/
  | opened (user : Ptr) (fd : Int32)
  /-- It could not be set up and was closed at once. -/
  | refused (fd : Int32)
  /-- `parse_package` has returned a message of it. -/
  | parsed (user : Ptr)
  /-- A handler was called with the message. -/
  | handled (user : Ptr)
  /-- `event_op` or `kick_out` has closed its descriptor number. -/
  | closed (user : Ptr) (fd : Int32)
  /-- A worker has got it. -/
  | handed (user : Ptr)
  deriving DecidableEq, Repr

/-- The number the kernel has given to a new connection. -/
def Deed.newFd : Deed → Option Int32
  | .opened _ fd | .refused fd => some fd
  | _ => none

/-- The connection that is finished. -/
def Deed.finishes : Deed → Option Ptr
  | .closed user _ | .handed user => some user
  | _ => none

/-- The connection that is closed. -/
def Deed.closes : Deed → Option Ptr
  | .closed user _ => some user
  | _ => none

/-- One event of `epoll_one`. -/
def acceptDeeds (s : Accepting) (ev : EpollEvent) : List Deed :=
  let (g, accepts) := s
  if ev.fd = g.tcpOp.sockFd then
    match g.tcpOp.accept (accepts.headD .fail) with
    | (some node, _) => [.opened g.heap.next node.sfd]
    | (none, tcpOp) => (g.tcpOp.closedSince tcpOp).map .refused
  else []

/-- One user of the loop of `handler_data`. -/
def serveDeeds (io : Int32 → KernelIo) (g : GateIO) (user : Ptr) : List Deed :=
  let (ret, _, _) := g.tcpOp.eventOp (g.node user) (io (g.node user).sfd)
  if ret.has FdEvent.error then [.closed user (g.node user).sfd] else []

/-- One user of `handler_unlogin_msgs`; without a message nothing is decided. -/
def parseDeeds (s : GateIO × List MysqlDb) (user : Ptr) : List Deed :=
  match verdictOn rt s.1 user with
  | .wait => []
  | .kick => [.parsed user, .closed user (s.1.node user).sfd]
  | .handle _ _ => [.parsed user, .handled user]

/-- One message of `handler_replys`. -/
def replyDeeds (workerInit : Int32 → Bool) (s : Replying) (msg : UserMsg) : List Deed :=
  let g := s.1
  match g.getUnloginUser msg.sfd with
  | none => []
  | some user =>
    let fd := (g.node user).sfd
    if IsVerified msg then
      if workerInit fd = false then [] else [.handed user]
    else if IsLogin msg then
      match g.getWorker fd with
      | none => []
      | some _ => [.handed user]
    else []

/-- One step of the Gate. -/
def deeds (g : GateIO) : Act → List Deed
  | .io r =>
    let g₁ := g.epollOne r.events r.accepts
    let g₂ := g.beforeParsing r
    let g₃ := g.beforeReplying rt r
    logOf epollEvent acceptDeeds (g, r.accepts) r.events ++
      (logOf (serveUnlogin r.io) (serveDeeds r.io) g₁ g₁.unloginEvents ++
        (logOf (parseUnlogin rt) (parseDeeds rt) (g₂, r.dbs) g₂.unloginReads ++
          logOf (handlerReply rt r.workerInit) (replyDeeds r.workerInit) (g₃, r.writes) g₃.rspMsgs))
  | .worker _ _ => []

/-- The Gate and what GateIO has done so far. -/
abbrev Told := GateIO × List Deed

/-- A step of the Gate, with its log. -/
def toldStep : Told → Act → Told := logged (step rt) (deeds rt)

/-! ## The rule -/

/-- What the log amounts to: whose connection each descriptor number belongs to, as
far as GateIO knows, and which connections are finished. -/
structure Register where
  holder : Table Int32 Ptr
  finished : List Ptr

namespace Register

def empty : Register := ⟨.empty, []⟩

def note (r : Register) : Deed → Register
  | .opened user fd => { r with holder := r.holder.set fd user }
  | .refused fd => { r with holder := r.holder.erase fd }
  | .closed user fd => { holder := r.holder.erase fd, finished := r.finished ++ [user] }
  | .handed user => { r with finished := r.finished ++ [user] }
  | .parsed _ | .handled _ => r

/-- The register of a log. -/
def of (log : List Deed) : Register := log.foldl note empty

theorem of_concat (log : List Deed) (d : Deed) : of (log ++ [d]) = (of log).note d :=
  List.foldl_append

theorem finished_note (r : Register) (d : Deed) :
    (r.note d).finished = r.finished ++ d.finishes.toList := by
  cases d <;> simp [note, Deed.finishes]

/-- The connection that has the number, if any, is finished. -/
def Unused (r : Register) (fd : Int32) : Prop := ∀ p ∈ r.holder.find fd, p ∈ r.finished

/-- Nothing is parsed, handled or closed for a connection that is finished, and a
number is closed for the connection that has it. -/
def Admits (r : Register) : Deed → Prop
  | .parsed user | .handled user => user ∉ r.finished
  | .closed user fd => user ∉ r.finished ∧ r.holder.find fd = some user
  | .refused fd => r.Unused fd
  | .opened _ _ | .handed _ => True

instance (r : Register) (fd : Int32) : Decidable (r.Unused fd) :=
  inferInstanceAs (Decidable (∀ _ ∈ _, _))

instance (r : Register) : (d : Deed) → Decidable (r.Admits d)
  | .parsed _ | .handled _ => inferInstanceAs (Decidable (¬ _ ∈ _))
  | .closed _ _ => inferInstanceAs (Decidable (_ ∧ _))
  | .refused fd => inferInstanceAs (Decidable (r.Unused fd))
  | .opened _ _ | .handed _ => inferInstanceAs (Decidable True)

end Register

/-- GateIO never returns to a finished connection. -/
def NeverReturns (log : List Deed) : Prop := Along Register.note Register.Admits .empty log

instance (log : List Deed) : Decidable (NeverReturns log) := inferInstanceAs (Decidable (Along ..))

/-- The rule at work: no connection is closed that was finished before, and none is
closed twice. -/
theorem Register.nodup_closes {r : Register} {log : List Deed}
    (h : Along note Admits r log) :
    (log.filterMap Deed.closes).Nodup ∧ ∀ p ∈ log.filterMap Deed.closes, p ∉ r.finished := by
  induction log generalizing r with
  | nil => exact ⟨List.nodup_nil, nofun⟩
  | cons d log ih =>
      obtain ⟨hdup, hnot⟩ := ih h.2
      have hold : ∀ p ∈ log.filterMap Deed.closes, p ∉ r.finished := by
        intro p hp hfin
        apply hnot p hp
        rw [finished_note]
        exact List.mem_append_left _ hfin
      cases d with
      | closed user fd =>
          refine ⟨List.nodup_cons.mpr ⟨fun hp => hnot user hp ?_, hdup⟩, ?_⟩
          · simp [finished_note, Deed.finishes]
          · intro p hp
            rcases List.mem_cons.mp hp with rfl | hp
            · exact h.1.1
            · exact hold p hp
      | opened _ _ => exact ⟨hdup, hold⟩
      | refused _ => exact ⟨hdup, hold⟩
      | parsed _ => exact ⟨hdup, hold⟩
      | handled _ => exact ⟨hdup, hold⟩
      | handed _ => exact ⟨hdup, hold⟩

theorem NeverReturns.closed_once {log : List Deed} (h : NeverReturns log) :
    (log.filterMap Deed.closes).Nodup :=
  (Register.nodup_closes h).1

/-! ## The condition -/

/-- The kernel's promise: a new connection does not get the number of a connection
that is not finished. -/
def NewNumber (s : Accepting × List Deed) (ev : EpollEvent) : Prop :=
  ∀ fd ∈ (acceptDeeds s.1 ev).filterMap Deed.newFd, (Register.of s.2).Unused fd

/-- Every complete frame has an unregistered id. -/
def Spent (xs : List UInt8) : Prop :=
  ∀ f ∈ (frameDecoder.drain xs).1, MsgCenter.registered f.msgId = false

/-- Whoever is finished by these deeds and is still in `_unlogin_reads` has left
nothing to parse. -/
def LeavesNothing (g : GateIO) (ds : List Deed) : Prop :=
  ∀ p ∈ ds.filterMap Deed.finishes, p ∈ g.unloginReads → Spent (g.node p).rdBuff.toList

/-- New connections get numbers that are not in use. -/
def NumbersFresh (s : Told) : Act → Prop
  | .io r => Along (logged epollEvent acceptDeeds) NewNumber ((s.1, r.accepts), s.2) r.events
  | .worker _ _ => True

/-- Each connection that is finished leaves nothing. -/
def EndsClean (g : GateIO) : Act → Prop
  | .io r =>
    let g₁ := g.epollOne r.events r.accepts
    let g₂ := g.beforeParsing r
    let g₃ := g.beforeReplying rt r
    Along (serveUnlogin r.io) (fun v user => LeavesNothing (v.serveUnlogin r.io user)
        (serveDeeds r.io v user)) g₁ g₁.unloginEvents ∧
      Along (parseUnlogin rt) (fun s user => LeavesNothing (parseUnlogin rt s user).1
        (parseDeeds rt s user)) (g₂, r.dbs) g₂.unloginReads ∧
      Along (handlerReply rt r.workerInit) (fun s msg =>
        LeavesNothing (handlerReply rt r.workerInit s msg).1 (replyDeeds r.workerInit s msg))
        (g₃, r.writes) g₃.rspMsgs
  | .worker _ _ => True

instance (s : Accepting × List Deed) (ev : EpollEvent) : Decidable (NewNumber s ev) :=
  List.decidableBAll _ _

instance (xs : List UInt8) : Decidable (Spent xs) := List.decidableBAll _ _

instance (g : GateIO) (ds : List Deed) : Decidable (LeavesNothing g ds) := List.decidableBAll _ _

instance (s : Told) : (a : Act) → Decidable (NumbersFresh s a)
  | .io _ => inferInstanceAs (Decidable (Along ..))
  | .worker _ _ => inferInstanceAs (Decidable True)

instance (g : GateIO) : (a : Act) → Decidable (EndsClean rt g a)
  | .io _ => inferInstanceAs (Decidable (Along .. ∧ Along .. ∧ Along ..))
  | .worker _ _ => inferInstanceAs (Decidable True)

/-- The condition on a step. -/
def LeftAlone (s : Told) (a : Act) : Prop := NumbersFresh s a ∧ EndsClean rt s.1 a

instance (s : Told) (a : Act) : Decidable (LeftAlone rt s a) := inferInstanceAs (Decidable (_ ∧ _))

/-! ## What is left to parse -/

theorem Spent.not_startsAccepted {xs : List UInt8} (h : Spent xs) : ¬ StartsAccepted xs := by
  rintro ⟨f, r, ⟨hwell, hreg⟩, rfl⟩
  have hnext : frameDecoder.next (f.encode ++ r) = some (f, r) := by
    rw [frameDecoder_next]
    exact frameNext_encode hwell r
  have hnot := h f (by rw [Decoder.drain_of_some hnext]; exact List.mem_cons_self ..)
  rw [hreg] at hnot
  cases hnot

/-- What a call of the parser leaves is no better than what it found. -/
theorem Spent.taken {xs : List UInt8} (h : Spent xs) : Spent (MsgCenter.taken xs).2 := by
  intro f hf
  apply h f
  rw [frameDecoder.drain_eq_drainUntil fun f => !MsgCenter.registered f.msgId]
  exact List.mem_append_right _ hf

/-- Nothing is decided about a connection that has left nothing. -/
theorem Spent.verdictOn {g : GateIO} {user : Ptr} (h : Spent (g.node user).rdBuff.toList) :
    verdictOn rt g user = .wait := by
  rcases verdictOn_cases rt g user with ⟨hwait, _⟩ | ⟨_, hstart, _⟩ | ⟨_, _, _, hone⟩
  · exact hwait
  · exact absurd hstart h.not_startsAccepted
  · exact absurd hone.startsAccepted h.not_startsAccepted

/-! ## The invariant -/

/-- What holds between any two stages. -/
structure Intact (s : Told) : Prop where
  keyed : Keyed s.1
  admitted : NeverReturns s.2
  /-- Nobody on the table is finished. -/
  waiting : ∀ fd p, s.1.unloginUsers.find fd = some p → p ∉ (Register.of s.2).finished
  /-- Whoever is not finished has its number. -/
  held : ∀ p < s.1.heap.next, p ∉ (Register.of s.2).finished →
    (Register.of s.2).holder.find (s.1.node p).sfd = some p
  finished : ∀ p ∈ (Register.of s.2).finished, p < s.1.heap.next
  reads : ∀ p ∈ s.1.unloginReads, p < s.1.heap.next
  spent : ∀ p ∈ (Register.of s.2).finished, p ∈ s.1.unloginReads →
    Spent (s.1.node p).rdBuff.toList

theorem intact_init (sockFd : Int32) : Intact (init sockFd, []) where
  keyed := keyed_init sockFd
  admitted := trivial
  waiting _ _ hp := by cases hp
  held p hp := absurd hp (Nat.not_lt_zero p)
  finished _ hp := absurd hp List.not_mem_nil
  reads _ hp := absurd hp List.not_mem_nil
  spent _ hp := absurd hp List.not_mem_nil

variable {rt} {g g' : GateIO} {log : List Deed}

/-- Stages that do nothing with a finished connection, as long as nothing is noted. -/
theorem Intact.of_kept (h : Intact (g, log)) (hnext : g'.heap.next = g.heap.next)
    (hsfd : ∀ p, (g'.node p).sfd = (g.node p).sfd)
    (hfind : ∀ fd p, g'.unloginUsers.find fd = some p → g.unloginUsers.find fd = some p)
    (hreads : ∀ p ∈ g'.unloginReads, p ∈ g.unloginReads ∨
      p < g.heap.next ∧ p ∉ (Register.of log).finished)
    (hspent : ∀ p ∈ (Register.of log).finished, Spent (g.node p).rdBuff.toList →
      Spent (g'.node p).rdBuff.toList) : Intact (g', log) where
  keyed := h.keyed.of_find hnext hsfd hfind
  admitted := h.admitted
  waiting fd p hp := h.waiting fd p (hfind fd p hp)
  held p hp hnot := by
    show (Register.of log).holder.find (g'.node p).sfd = some p
    rw [hsfd]
    exact h.held p (hnext ▸ hp) hnot
  finished p hp := by
    show p < g'.heap.next
    rw [hnext]
    exact h.finished p hp
  reads p hp := by
    show p < g'.heap.next
    rw [hnext]
    rcases hreads p hp with hold | ⟨hlt, _⟩
    · exact h.reads p hold
    · exact hlt
  spent p hp hread := by
    rcases hreads p hread with hold | ⟨_, hnot⟩
    · exact hspent p hp (h.spent p hp hold)
    · exact absurd hp hnot

theorem Register.of_parsed (log : List Deed) (user : Ptr) :
    Register.of (log ++ [.parsed user]) = Register.of log := of_concat ..

theorem Register.of_handled (log : List Deed) (user : Ptr) :
    Register.of (log ++ [.handled user]) = Register.of log := of_concat ..

/-- A message of a connection that is not finished, or a call of its handler. -/
theorem Intact.heard (h : Intact (g, log)) {user : Ptr} {d : Deed}
    (hd : d = .parsed user ∨ d = .handled user) (hnot : user ∉ (Register.of log).finished) :
    Intact (g, log ++ [d]) := by
  have hsame : Register.of (log ++ [d]) = Register.of log := by
    rcases hd with rfl | rfl
    · exact Register.of_parsed ..
    · exact Register.of_handled ..
  have hadmits : (Register.of log).Admits d := by
    rcases hd with rfl | rfl
    · exact hnot
    · exact hnot
  refine ⟨h.keyed, along_append.mpr ⟨h.admitted, hadmits, trivial⟩, ?_, ?_, ?_, h.reads, ?_⟩
  · rw [hsame]
    exact h.waiting
  · rw [hsame]
    exact h.held
  · rw [hsame]
    exact h.finished
  · rw [hsame]
    exact h.spent

/-- A connection that is off the table is finished. -/
theorem Intact.finish (h : Intact (g, log)) {user : Ptr} {d : Deed}
    (hd : d = .closed user (g.node user).sfd ∨ d = .handed user) (hlt : user < g.heap.next)
    (hnot : user ∉ (Register.of log).finished) (hoff : ∀ fd, g.unloginUsers.find fd ≠ some user)
    (hspent : user ∈ g.unloginReads → Spent (g.node user).rdBuff.toList) :
    Intact (g, log ++ [d]) := by
  have hmem : ∀ p, p ∈ ((Register.of log).note d).finished ↔
      p ∈ (Register.of log).finished ∨ p = user := by
    intro p
    rcases hd with rfl | rfl <;> simp [Register.finished_note, Deed.finishes]
  refine ⟨h.keyed, along_append.mpr ⟨h.admitted, ?_, trivial⟩, ?_, ?_, ?_, h.reads, ?_⟩
  · show (Register.of log).Admits d
    rcases hd with rfl | rfl
    · exact ⟨hnot, h.held user hlt hnot⟩
    · trivial
  · intro fd p hp
    show p ∉ (Register.of (log ++ [d])).finished
    rw [Register.of_concat, hmem]
    rintro (hfin | rfl)
    · exact h.waiting fd p hp hfin
    · exact hoff fd hp
  · intro p hp hfin
    show (Register.of (log ++ [d])).holder.find (g.node p).sfd = some p
    have hfin' : p ∉ (Register.of (log ++ [d])).finished := hfin
    rw [Register.of_concat, hmem, not_or] at hfin'
    have hold := h.held p hp hfin'.1
    rw [Register.of_concat]
    rcases hd with rfl | rfl
    · -- the number closed was that of `user`
      refine Table.find_erase_eq_some.mpr ⟨?_, hold⟩
      intro heq
      have huser := h.held user hlt hnot
      rw [← heq] at huser
      exact hfin'.2 (Option.some.inj (hold.symm.trans huser))
    · exact hold
  · intro p hp
    have hp' : p ∈ (Register.of (log ++ [d])).finished := hp
    rw [Register.of_concat, hmem] at hp'
    rcases hp' with hold | rfl
    · exact h.finished p hold
    · exact hlt
  · intro p hp hread
    have hp' : p ∈ (Register.of (log ++ [d])).finished := hp
    rw [Register.of_concat, hmem] at hp'
    rcases hp' with hold | rfl
    · exact h.spent p hold hread
    · exact hspent hread

/-! ## Accepting and collecting events -/

theorem Intact.accepts (h : Intact (g, log)) {fd : Int32} (ha : Accepts g g' fd)
    (hfresh : (Register.of log).Unused fd) (hreads : g'.unloginReads = g.unloginReads)
    (hnode : ∀ p < g.heap.next, g'.node p = g.node p) :
    Intact (g', log ++ [.opened g.heap.next fd]) where
  keyed := h.keyed.of_accepts ha
  admitted := along_append.mpr ⟨h.admitted, trivial, trivial⟩
  waiting d p hp := by
    rw [Register.of_concat]
    show p ∉ (Register.of log).finished
    have hp' : g'.unloginUsers.find d = some p := hp
    rw [ha.unloginUsers] at hp'
    rcases Table.find_insert_eq_some hp' with ⟨_, rfl⟩ | hold
    · -- the new one is not finished
      exact fun hfin => Nat.lt_irrefl _ (h.finished _ hfin)
    · exact h.waiting d p hold
  held p hp hfin := by
    rw [Register.of_concat] at hfin ⊢
    show ((Register.of log).holder.set fd g.heap.next).find (g'.node p).sfd = some p
    rw [ha.sfd, Table.find_set]
    have hlt : p < g.heap.next + 1 := ha.next ▸ hp
    rcases Nat.lt_succ_iff_lt_or_eq.mp hlt with hold | rfl
    · rw [if_neg (Nat.ne_of_lt hold)]
      have hheld := h.held p hold hfin
      rw [if_neg, hheld]
      -- a connection that is not finished has another number
      intro heq
      rw [heq] at hheld
      exact hfin (hfresh p hheld)
    · simp
  finished p hp := by
    rw [Register.of_concat] at hp
    show p < g'.heap.next
    rw [ha.next]
    exact Nat.lt_succ_of_lt (h.finished p hp)
  reads p hp := by
    show p < g'.heap.next
    rw [ha.next]
    exact Nat.lt_succ_of_lt (h.reads p (hreads ▸ hp))
  spent p hp hread := by
    rw [Register.of_concat] at hp
    show Spent (g'.node p).rdBuff.toList
    rw [hnode p (h.finished p hp)]
    exact h.spent p hp (hreads ▸ hread)

/-- A number that nobody uses is closed again. -/
theorem Intact.refuses (h : Intact (g, log)) {fd : Int32} (hfresh : (Register.of log).Unused fd) :
    Intact (g, log ++ [.refused fd]) := by
  refine ⟨h.keyed, along_append.mpr ⟨h.admitted, hfresh, trivial⟩, ?_, ?_, ?_, h.reads, ?_⟩
  · rw [Register.of_concat]
    exact h.waiting
  · intro p hp hfin
    rw [Register.of_concat] at hfin ⊢
    have hheld := h.held p hp hfin
    refine Table.find_erase_eq_some.mpr ⟨?_, hheld⟩
    intro heq
    rw [heq] at hheld
    exact hfin (hfresh p hheld)
  · rw [Register.of_concat]
    exact h.finished
  · rw [Register.of_concat]
    exact h.spent

/-- At most one number is closed when no connection comes of it. -/
theorem closedSince_accept {t t' : TcpOp} {res : AcceptRes} (h : t.accept res = (none, t')) :
    t.closedSince t' = [] ∨ ∃ fd, t.closedSince t' = [fd] := by
  cases res with
  | fail =>
      cases h
      exact .inl (TcpOp.closedSince_of_append (List.append_nil _).symm)
  | conn fd ip port options =>
      rcases t.accept_conn_cases fd ip port options with ⟨_, haccept, _⟩ | ⟨_, haccept, hsince⟩
      · rw [haccept] at h
        cases h
      · rw [haccept] at h
        cases h
        exact .inr ⟨fd, hsince⟩

/-- What one event can do. -/
theorem epollEvent_cases (s : Accepting) (ev : EpollEvent) :
    (∃ fd, acceptDeeds s ev = [.opened s.1.heap.next fd] ∧ Accepts s.1 (epollEvent s ev).1 fd ∧
        (epollEvent s ev).1.unloginReads = s.1.unloginReads ∧
        (epollEvent s ev).1.unloginEvents = s.1.unloginEvents ∧
        ∀ p < s.1.heap.next, (epollEvent s ev).1.node p = s.1.node p) ∨
      (((∃ fd, acceptDeeds s ev = [.refused fd]) ∨ acceptDeeds s ev = []) ∧
        (epollEvent s ev).1.heap.next = s.1.heap.next ∧
        (∀ p, (s.1.node p).Kept ((epollEvent s ev).1.node p)) ∧
        (epollEvent s ev).1.unloginUsers = s.1.unloginUsers ∧
        (epollEvent s ev).1.unloginReads = s.1.unloginReads ∧
        ((epollEvent s ev).1.unloginEvents = s.1.unloginEvents ∨
          ∃ user, s.1.unloginUsers.find ev.fd = some user ∧
            (epollEvent s ev).1.unloginEvents = s.1.unloginEvents ++ [user])) := by
  obtain ⟨g, accepts⟩ := s
  unfold acceptDeeds epollEvent
  simp only
  split_ifs
  · -- the listening socket
    have haccept := g.tcpOp.accept_epoll (accepts.headD .fail)
    unfold onAccept
    cases hres : g.tcpOp.accept (accepts.headD .fail) with
    | mk node t =>
        cases node with
        | none =>
            refine .inr ⟨?_, rfl, fun _ => SocketNode.Kept.of_eq rfl rfl rfl rfl, rfl, rfl, .inl rfl⟩
            rcases closedSince_accept hres with hnone | ⟨fd, hone⟩
            · exact .inr (by simp only [hnone, List.map_nil])
            · exact .inl ⟨fd, by simp only [hone, List.map_cons, List.map_nil]⟩
        | some node =>
            rw [hres] at haccept
            refine .inl ⟨node.sfd, rfl, ⟨rfl, ?_, rfl, haccept.2, rfl⟩, rfl, rfl, ?_⟩
            · intro p
              show ((g.heap.alloc { sock := some node }).2.obj p).node.sfd = _
              rw [Heap.obj_alloc]
              split_ifs <;> rfl
            · intro p hp
              show ((g.heap.alloc { sock := some node }).2.obj p).node = _
              rw [Heap.obj_alloc, if_neg (Nat.ne_of_lt hp)]
              rfl
  · refine .inr ⟨.inr rfl, ?_⟩
    split
    · next user huser =>
      -- a connection that has not logged in is marked
      refine ⟨rfl, ?_, rfl, rfl, .inr ⟨user, huser, rfl⟩⟩
      intro p
      show (g.node p).Kept ((g.setNode user _).node p)
      rw [node_setNode]
      split_ifs with hp
      · rw [hp]
        exact SocketNode.Kept.of_eq rfl rfl rfl rfl
      · exact SocketNode.Kept.of_eq rfl rfl rfl rfl
    · unfold loginedSockop
      split <;> exact ⟨rfl, fun _ => SocketNode.Kept.of_eq rfl rfl rfl rfl, rfl, rfl, .inl rfl⟩

/-- While events are collected: the users collected are on the table. -/
def Collected (g : GateIO) : Prop :=
  ∀ p ∈ g.unloginEvents, g.unloginUsers.find (g.node p).sfd = some p

/-- One event keeps the invariant, and collects at most the user under its number. -/
theorem Intact.collect {s : Accepting} (h : Intact (s.1, log)) (hc : Collected s.1)
    {ev : EpollEvent} (hnew : NewNumber (s, log) ev) :
    Intact ((epollEvent s ev).1, log ++ acceptDeeds s ev) ∧ Collected (epollEvent s ev).1 ∧
      ∃ fds, List.Sublist fds [ev.fd] ∧
        (epollEvent s ev).1.unloginEvents.map (fun p => ((epollEvent s ev).1.node p).sfd) =
          s.1.unloginEvents.map (fun p => (s.1.node p).sfd) ++ fds := by
  rcases epollEvent_cases s ev with ⟨fd, hds, ha, hreads, hevents, hnode⟩ |
    ⟨hds, hnext, hkept, husers, hreads, hevents⟩
  · have hfresh : (Register.of log).Unused fd := hnew fd (by simp [hds, Deed.newFd])
    have hsame : ∀ p ∈ s.1.unloginEvents, (epollEvent s ev).1.node p = s.1.node p :=
      fun p hp => hnode p (h.keyed.lt (hc p hp))
    rw [hds]
    refine ⟨h.accepts ha hfresh hreads hnode, ?_, [], List.nil_sublist _, ?_⟩
    · intro p hp
      rw [hevents] at hp
      rw [hsame p hp, ha.unloginUsers]
      exact Table.find_insert_of_find (hc p hp)
    · rw [hevents, List.append_nil]
      exact List.map_congr_left fun p hp => congrArg SocketNode.sfd (hsame p hp)
  · have hsfd : ∀ p, ((epollEvent s ev).1.node p).sfd = (s.1.node p).sfd := fun p => (hkept p).sfd
    have hstill : Intact ((epollEvent s ev).1, log) := by
      apply h.of_kept hnext hsfd (fun _ _ hp => husers ▸ hp) (fun p hp => .inl (hreads ▸ hp))
      intro p _ hspent
      rw [(hkept p).rdBuff, List.append_nil]
      exact hspent
    refine ⟨?_, ?_, ?_⟩
    · rcases hds with ⟨fd, hds⟩ | hds <;> rw [hds]
      · exact hstill.refuses (hnew fd (by simp [hds, Deed.newFd]))
      · rwa [List.append_nil]
    · intro p hp
      rw [hsfd, husers]
      rcases hevents with hevents | ⟨user, huser, hevents⟩
      · exact hc p (hevents ▸ hp)
      · rw [hevents] at hp
        rcases List.mem_append.mp hp with hp | hp
        · exact hc p hp
        · rw [List.mem_singleton.mp hp, h.keyed.sfd huser]
          exact huser
    · simp only [hsfd]
      rcases hevents with hevents | ⟨user, huser, hevents⟩
      · exact ⟨[], List.nil_sublist _, by rw [hevents, List.append_nil]⟩
      · refine ⟨[ev.fd], List.Sublist.refl _, ?_⟩
        rw [hevents, List.map_append, List.map_singleton, h.keyed.sfd huser]

/-- The loop of `epoll_one`: each user is collected at most once. -/
theorem Intact.collects {events : List EpollEvent} {s : Accepting} (h : Intact (s.1, log))
    (hc : Collected s.1)
    (hnew : Along (logged epollEvent acceptDeeds) NewNumber (s, log) events) :
    Intact ((events.foldl epollEvent s).1, log ++ logOf epollEvent acceptDeeds s events) ∧
      Collected (events.foldl epollEvent s).1 ∧
      ∃ fds, List.Sublist fds (events.map EpollEvent.fd) ∧
        (events.foldl epollEvent s).1.unloginEvents.map
            (fun p => ((events.foldl epollEvent s).1.node p).sfd) =
          s.1.unloginEvents.map (fun p => (s.1.node p).sfd) ++ fds := by
  induction events generalizing s log with
  | nil =>
      rw [logOf, List.append_nil]
      exact ⟨h, hc, [], List.nil_sublist _, (List.append_nil _).symm⟩
  | cons ev events ih =>
      obtain ⟨h₁, hc₁, fds₁, hsub₁, hmap₁⟩ := h.collect hc hnew.1
      obtain ⟨h₂, hc₂, fds₂, hsub₂, hmap₂⟩ := ih h₁ hc₁ hnew.2
      rw [logOf, ← List.append_assoc]
      refine ⟨h₂, hc₂, fds₁ ++ fds₂, hsub₁.append hsub₂, ?_⟩
      rw [List.foldl_cons, hmap₂, hmap₁, List.append_assoc]

/-! ## Reading -/

/-- One user of the loop of `handler_data`, which is not finished. -/
theorem Intact.serve (h : Intact (g, log)) (io : Int32 → KernelIo) {user : Ptr}
    (hlt : user < g.heap.next) (hnot : user ∉ (Register.of log).finished)
    (hleft : LeavesNothing (g.serveUnlogin io user) (serveDeeds io g user)) :
    Intact (g.serveUnlogin io user, log ++ serveDeeds io g user) := by
  obtain ⟨delta, hgrown, _⟩ := TcpOp.grown_eventOp g.tcpOp (g.node user) (io (g.node user).sfd)
  unfold serveUnlogin serveDeeds at hleft ⊢
  generalize g.tcpOp.eventOp (g.node user) (io (g.node user).sfd) = op at hgrown hleft ⊢
  obtain ⟨ret, tcpOp, sock⟩ := op
  simp only at hgrown hleft ⊢
  have hsfd := @sfd_setNode g user sock hgrown.sfd
  -- the buffers of finished connections are not touched
  have hspent : ∀ p ∈ (Register.of log).finished, Spent (g.node p).rdBuff.toList →
      Spent ((g.setNode user sock).node p).rdBuff.toList := by
    intro p hp hold
    have hne : p ≠ user := fun heq => hnot (heq ▸ hp)
    rwa [node_setNode, if_neg hne]
  split_ifs at hleft ⊢ with herror hread
  · have hoff : Intact (({ g.setNode user sock with tcpOp := tcpOp } : GateIO).onConnOffline user,
        log) :=
      h.of_kept rfl hsfd (fun _ _ hp => (Table.find_erase_eq_some.mp hp).2) (fun _ => .inl) hspent
    refine hoff.finish (.inl ?_) hlt hnot ?_ (hleft user (by simp [Deed.finishes]))
    · exact congrArg _ (hsfd user).symm
    · intro fd hfd
      -- the number of the user was just erased
      exact (Table.find_erase_eq_some.mp hfd).1 (hoff.keyed.sfd hfd).symm
  · rw [List.append_nil]
    refine h.of_kept rfl hsfd (fun _ _ => id) ?_ hspent
    intro p hp
    rcases List.mem_append.mp hp with hold | hnew
    · exact .inl hold
    · rw [List.mem_singleton.mp hnew]
      exact .inr ⟨hlt, hnot⟩
  · rw [List.append_nil]
    exact h.of_kept rfl hsfd (fun _ _ => id) (fun _ => .inl) hspent

/-- Serving a user finishes nobody else. -/
theorem mem_finished_serveDeeds {io : Int32 → KernelIo} {user p : Ptr}
    (hp : p ∈ (Register.of (log ++ serveDeeds io g user)).finished) :
    p ∈ (Register.of log).finished ∨ p = user := by
  unfold serveDeeds at hp
  simp only at hp
  split_ifs at hp
  · rw [Register.of_concat, Register.finished_note] at hp
    simpa [Deed.finishes] using hp
  · rw [List.append_nil] at hp
    exact .inl hp

/-- The loop of `handler_data`, over different users that are not finished. -/
theorem Intact.serves {users : List Ptr} (h : Intact (g, log)) (io : Int32 → KernelIo)
    (hdup : users.Nodup)
    (husers : ∀ p ∈ users, p < g.heap.next ∧ p ∉ (Register.of log).finished)
    (hleft : Along (serveUnlogin io) (fun v user => LeavesNothing (v.serveUnlogin io user)
      (serveDeeds io v user)) g users) :
    Intact (users.foldl (serveUnlogin io) g,
      log ++ logOf (serveUnlogin io) (serveDeeds io) g users) := by
  induction users generalizing g log with
  | nil =>
      rw [logOf, List.append_nil]
      exact h
  | cons user users ih =>
      obtain ⟨hlt, hnot⟩ := husers user (List.mem_cons_self ..)
      obtain ⟨huser, hdup'⟩ := List.nodup_cons.mp hdup
      rw [logOf, ← List.append_assoc]
      apply ih (h.serve io hlt hnot hleft.1) hdup' ?_ hleft.2
      intro p hp
      obtain ⟨hplt, hpnot⟩ := husers p (List.mem_cons_of_mem _ hp)
      refine ⟨?_, ?_⟩
      · obtain ⟨_, hs⟩ := served_serveUnlogin io g user
        rw [hs.next]
        exact hplt
      · intro hfin
        rcases mem_finished_serveDeeds hfin with hold | rfl
        · exact hpnot hold
        · exact huser hp

/-! ## Parsing -/

/-- One user of `handler_unlogin_msgs`, finished or not. -/
theorem Intact.parse {s : GateIO × List MysqlDb} (h : Intact (s.1, log)) {user : Ptr}
    (hread : user ∈ s.1.unloginReads)
    (hleft : LeavesNothing (parseUnlogin rt s user).1 (parseDeeds rt s user)) :
    Intact ((parseUnlogin rt s user).1, log ++ parseDeeds rt s user) := by
  have hj := judged_parseUnlogin rt s user
  have hlt := h.reads user hread
  -- what the deeds leave to note them on
  have hkept : Intact ((parseUnlogin rt s user).1, log) := by
    apply h.of_kept hj.next (fun p => (hj.received p).2) ?_ (fun p hp => .inl (hj.reads ▸ hp))
    · intro p _ hspent
      by_cases hp : p = user
      · obtain ⟨buff, hnode, hbuff⟩ := hj.node
        rw [hp] at hspent ⊢
        rw [hnode]
        show Spent buff.toList
        rw [hbuff]
        exact hspent.taken
      · rwa [hj.kept p hp]
    · intro fd p hp
      rw [hj.unloginUsers] at hp
      split_ifs at hp
      · exact (Table.find_erase_eq_some.mp hp).2
      · exact hp
  have hnode : ((parseUnlogin rt s user).1.node user).sfd = (s.1.node user).sfd :=
    (hj.received user).2
  by_cases hfin : user ∈ (Register.of log).finished
  · -- whoever is finished has left nothing
    have hwait := (h.spent user hfin hread).verdictOn rt
    simpa only [parseDeeds, hwait, List.append_nil] using hkept
  · unfold parseDeeds at hleft ⊢
    have hparsed := hkept.heard (.inl rfl) hfin
    cases hv : verdictOn rt s.1 user with
    | wait => simpa only [List.append_nil] using hkept
    | handle msg msgFunc =>
        have hhandled := hparsed.heard (.inr rfl) (by rwa [Register.of_parsed])
        rwa [List.append_assoc] at hhandled
    | kick =>
        rw [hv] at hleft
        have husers := hj.unloginUsers
        rw [hv] at husers
        have hclosed := hparsed.finish (.inl rfl) (hj.next ▸ hlt) (by rwa [Register.of_parsed]) ?_
          (hleft user (by simp [Deed.finishes]))
        · rwa [List.append_assoc, hnode] at hclosed
        · intro fd hfd
          rw [husers] at hfd
          -- the number of the user was just erased
          have hkey := h.keyed.sfd (Table.find_erase_eq_some.mp hfd).2
          exact (Table.find_erase_eq_some.mp hfd).1 hkey.symm

/-- The loop of `handler_unlogin_msgs`. -/
theorem Intact.parses {users : List Ptr} {s : GateIO × List MysqlDb} (h : Intact (s.1, log))
    (hreads : ∀ p ∈ users, p ∈ s.1.unloginReads)
    (hleft : Along (parseUnlogin rt) (fun s user => LeavesNothing (parseUnlogin rt s user).1
      (parseDeeds rt s user)) s users) :
    Intact ((users.foldl (parseUnlogin rt) s).1,
      log ++ logOf (parseUnlogin rt) (parseDeeds rt) s users) := by
  induction users generalizing s log with
  | nil =>
      rw [logOf, List.append_nil]
      exact h
  | cons user users ih =>
      rw [logOf, ← List.append_assoc]
      apply ih (h.parse (hreads user (List.mem_cons_self ..)) hleft.1) ?_ hleft.2
      intro p hp
      rw [(judged_parseUnlogin rt s user).reads]
      exact hreads p (List.mem_cons_of_mem _ hp)

/-! ## Replying -/

/-- A successful login or verification takes its user off the table. -/
theorem unloginUsers_applyReply {msg : UserMsg} (h : IsVerified msg ∨ IsLogin msg)
    (workerInit : Int32 → Bool) (user : Ptr) :
    (g.applyReply workerInit user msg).unloginUsers = g.unloginUsers.erase (g.node user).sfd := by
  unfold applyReply
  rcases h with ⟨hid, hok⟩ | ⟨hid, hok⟩
  · rw [if_pos hid, if_pos hok]
    unfold onLogicVerifyed
    simp only
    split_ifs <;> rfl
  · have hne : msg.msgId ≠ ProtocolDefine.systemVerifyRsp.toInt := by
      rw [hid]
      decide
    rw [if_neg hne, if_pos hid, if_pos hok]
    unfold onUserLogined
    simp only
    split <;> rfl

/-- A connection is only handed over by such a reply. -/
theorem replyDeeds_cases (workerInit : Int32 → Bool) (s : Replying) (msg : UserMsg) :
    replyDeeds workerInit s msg = [] ∨
      ∃ user, replyDeeds workerInit s msg = [.handed user] ∧
        s.1.getUnloginUser msg.sfd = some user ∧ (IsVerified msg ∨ IsLogin msg) := by
  obtain ⟨g, writes⟩ := s
  unfold replyDeeds
  simp only
  cases huser : g.getUnloginUser msg.sfd with
  | none => exact .inl rfl
  | some user =>
      simp only
      split_ifs with hverified hinit hlogin
      · exact .inl rfl
      · exact .inr ⟨user, rfl, rfl, .inl hverified⟩
      · cases g.getWorker (g.node user).sfd with
        | none => exact .inl rfl
        | some _ => exact .inr ⟨user, rfl, rfl, .inr hlogin⟩
      · exact .inl rfl

/-- One message of `handler_replys`. -/
theorem Intact.reply {workerInit : Int32 → Bool} {s : Replying} (h : Intact (s.1, log))
    {msg : UserMsg}
    (hleft : LeavesNothing (handlerReply rt workerInit s msg).1 (replyDeeds workerInit s msg)) :
    Intact ((handlerReply rt workerInit s msg).1, log ++ replyDeeds workerInit s msg) := by
  have hstill := still_handlerReply rt workerInit s msg
  have hkept : Intact ((handlerReply rt workerInit s msg).1, log) := by
    apply h.of_kept hstill.next (fun p => (hstill.node p).sfd) hstill.find
      (fun p hp => .inl (hstill.reads ▸ hp))
    intro p _ hspent
    rw [(hstill.node p).rdBuff, List.append_nil]
    exact hspent
  rcases replyDeeds_cases workerInit s msg with hnone | ⟨user, hds, huser, hmsg⟩
  · rwa [hnone, List.append_nil]
  · have hfind : s.1.unloginUsers.find msg.sfd = some user := huser
    rw [hds] at hleft ⊢
    refine hkept.finish (.inr rfl) (hstill.next ▸ h.keyed.lt hfind) (h.waiting _ _ hfind) ?_
      (hleft user (by simp [Deed.finishes]))
    intro fd hfd
    -- writing the reply does not change the table
    have husers : (handlerReply rt workerInit s msg).1.unloginUsers =
        (s.1.applyReply workerInit user msg).unloginUsers := by
      obtain ⟨g, writes⟩ := s
      unfold handlerReply
      simp only [huser]
      rfl
    rw [husers, unloginUsers_applyReply hmsg] at hfd
    have hkey := h.keyed.sfd (Table.find_erase_eq_some.mp hfd).2
    exact (Table.find_erase_eq_some.mp hfd).1 hkey.symm

/-- The loop of `handler_replys`. -/
theorem Intact.replies {workerInit : Int32 → Bool} {msgs : List UserMsg} {s : Replying}
    (h : Intact (s.1, log))
    (hleft : Along (handlerReply rt workerInit) (fun s msg =>
      LeavesNothing (handlerReply rt workerInit s msg).1 (replyDeeds workerInit s msg)) s msgs) :
    Intact ((msgs.foldl (handlerReply rt workerInit) s).1,
      log ++ logOf (handlerReply rt workerInit) (replyDeeds workerInit) s msgs) := by
  induction msgs generalizing s log with
  | nil =>
      rw [logOf, List.append_nil]
      exact h
  | cons msg msgs ih =>
      rw [logOf, ← List.append_assoc]
      exact ih (h.reply hleft.1) hleft.2

/-! ## Whole steps -/

/-- Between two steps no events are waiting. -/
structure Resting (s : Told) : Prop where
  intact : Intact s
  events : s.1.unloginEvents = []

/-- The same tables and nodes, but for what the stages are about. -/
theorem Intact.of_eq (h : Intact (g, log)) (hheap : g'.heap = g.heap)
    (husers : g'.unloginUsers = g.unloginUsers) (hreads : g'.unloginReads = g.unloginReads) :
    Intact (g', log) := by
  have hnode : ∀ p, g'.node p = g.node p := fun p => congrArg (fun h : Heap User => (h.obj p).node) hheap
  exact h.of_kept (by rw [hheap]) (fun p => by rw [hnode]) (fun _ _ hp => husers ▸ hp)
    (fun p hp => .inl (hreads ▸ hp)) (fun p _ hspent => by rwa [hnode])

theorem Resting.io {s : Told} (h : Resting s) {r : IoRound} (hc : LeftAlone rt s (.io r)) :
    Resting (toldStep rt s (.io r)) := by
  obtain ⟨g, log⟩ := s
  obtain ⟨hnew, hserve, hparse, hreply⟩ := hc
  have hevents : g.unloginEvents = [] := h.events
  have hnone : Collected g := by
    intro p hp
    rw [hevents] at hp
    exact absurd hp List.not_mem_nil
  obtain ⟨h₁, hcol, fds, hsub, hmap⟩ := Intact.collects (s := (g, r.accepts)) h.intact hnone hnew
  simp only [hevents, List.map_nil, List.nil_append] at hmap
  -- the users collected were found under different numbers
  have hdup : (g.epollOne r.events r.accepts).unloginEvents.Nodup := by
    have hnumbers : ((g.epollOne r.events r.accepts).unloginEvents.map
        fun p => ((g.epollOne r.events r.accepts).node p).sfd) = fds := hmap
    apply List.Nodup.of_map
    rw [hnumbers]
    exact hsub.nodup r.ready.nodup
  have h₂ := h₁.serves r.io hdup
    (fun p hp => ⟨h₁.keyed.lt (hcol p hp), h₁.waiting _ _ (hcol p hp)⟩) hserve
  have h₃ : Intact (g.beforeParsing r, _) := h₂.of_eq rfl rfl rfl
  have h₄ := Intact.parses (s := (g.beforeParsing r, r.dbs)) h₃ (fun _ => id) hparse
  have h₅ := Intact.replies (s := (g.beforeReplying rt r, r.writes)) h₄ hreply
  refine ⟨?_, ?_⟩
  · have h₆ : Intact ((toldStep rt (g, log) (.io r)).1, _) := h₅.of_eq rfl rfl rfl
    simp only [List.append_assoc] at h₆
    exact h₆
  · -- the list was emptied before the parsing, and is not filled again
    have hparsed : (g.beforeReplying rt r).unloginEvents = [] :=
      run_invariant (I := fun s : GateIO × List MysqlDb => s.1.unloginEvents = [])
        (fun s user hs => (judged_parseUnlogin rt s user).events.trans hs)
        (s := (g.beforeParsing r, r.dbs)) rfl (g.beforeParsing r).unloginReads
    exact (still_afterParsing rt (g.beforeReplying rt r) r).events.trans hparsed

theorem Resting.step {s : Told} {a : Act} (h : Resting s) (hc : LeftAlone rt s a) :
    Resting (toldStep rt s a) := by
  cases a with
  | io r => exact h.io hc
  | worker i r =>
      obtain ⟨g, log⟩ := s
      have hsame : (g.step rt (.worker i r)).heap = g.heap ∧
          (g.step rt (.worker i r)).unloginUsers = g.unloginUsers ∧
          (g.step rt (.worker i r)).unloginReads = g.unloginReads ∧
          (g.step rt (.worker i r)).unloginEvents = g.unloginEvents := by
        unfold GateIO.step
        simp only
        split <;> exact ⟨rfl, rfl, rfl, rfl⟩
      have hlog : toldStep rt (g, log) (.worker i r) = (g.step rt (.worker i r), log) := by
        rw [toldStep, logged, deeds, List.append_nil]
      rw [hlog]
      exact ⟨h.intact.of_eq hsame.1 hsame.2.1 hsame.2.2.1, hsame.2.2.2.trans h.events⟩

/-- **GateIO leaves finished connections alone**, in every run in which connections
that are finished and stay in `_unlogin_reads` leave only frames with unregistered
ids, and new connections get numbers that are not in use. -/
theorem neverReturns_of_along {sockFd : Int32} {acts : List Act}
    (h : Along (toldStep rt) (LeftAlone rt) (init sockFd, []) acts) :
    NeverReturns (Rubo.Foundation.run (toldStep rt) (init sockFd, []) acts).2 := by
  have hinit : Resting (init sockFd, []) := ⟨intact_init sockFd, rfl⟩
  have hrun : Resting (Rubo.Foundation.run (toldStep rt) (init sockFd, []) acts) :=
    run_invariant_of_along (fun s a hs => hs.step) hinit h
  exact hrun.intact.admitted

/-! ## Runs on fixed inputs -/

/-- The Logic server is verified, and a client logs in: both leave nothing. -/
theorem neverReturns_clientLogsIn :
    NeverReturns (Rubo.Foundation.run (toldStep .proto2) (init 3, []) clientLogsIn).2 :=
  neverReturns_of_along (by decide +kernel)

/-- A client sends two frames with an unknown id and two logins, and leaves. The
kernel gives its number to the next client in the round that parses the logins. -/
def leftFrames : List Act :=
  [.io { ready := .one ⟨3, true, false⟩, accepts := [.conn 5 "" 0 true] },
   .io { ready := .one ⟨5, true, false⟩
         io := fun _ =>
           { reads := [.data (unknownFrame.encode ++ unknownFrame.encode ++ loginFrame.encode),
               .data loginFrame.encode] } },
   .io { ready := .one ⟨5, true, false⟩, io := fun _ => { reads := [.eof] } },
   .io { ready := .one ⟨3, true, false⟩, accepts := [.conn 5 "" 0 true] }]

/-- GateIO does return in general, though the kernel gives out free numbers only: in
`leftFrames` it parses the client that has left, and kicks it out by closing the
number of the next one. -/
theorem not_neverReturns_leftFrames :
    ¬ ∀ (rt : Runtime) (sockFd : Int32) (acts : List Act),
      Along (toldStep rt) NumbersFresh (init sockFd, []) acts →
        NeverReturns (Rubo.Foundation.run (toldStep rt) (init sockFd, []) acts).2 := by
  intro h
  have hnever := h .proto2 3 leftFrames (by decide +kernel)
  revert hnever
  decide +kernel

end Rubo.Server.GateIO
