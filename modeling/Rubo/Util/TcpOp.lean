import Rubo.Foundation.Table
import Rubo.Util.SocketOp

/-!
# EpollOp and TcpOp

The event layer of `util/EpollOp.cpp` and `util/TcpOp.cpp`: which descriptors an
epoll set watches, and `event_op`, which serves one ready descriptor.

`event_op` compares `wt_ret & FD_EVENT_WRITE` with `true` in one place and with
`false` in another. Both are comparisons of integers, so the first one asks for
the value `1`, which this expression never has.
-/

namespace Rubo.Util

open Rubo.Foundation Rubo.Msgs

/-- The set behind an epoll descriptor: the descriptors registered, and whether
`EPOLLOUT` is among the events asked for. -/
structure EpollOp where
  registered : Table Int32 Bool

namespace EpollOp

def new : EpollOp := ⟨.empty⟩

/-- `epoll_add(sfd)`: `EPOLL_CTL_ADD` fails for a registered descriptor. -/
def epollAdd (e : EpollOp) (sfd : Int32) : Bool × EpollOp :=
  match e.registered.find sfd with
  | some _ => (false, e)
  | none => (true, ⟨e.registered.set sfd false⟩)

/-- `epoll_del(sfd)` -/
def epollDel (e : EpollOp) (sfd : Int32) : Bool × EpollOp :=
  ((e.registered.find sfd).isSome, ⟨e.registered.erase sfd⟩)

/-- `EPOLL_CTL_MOD` with or without `EPOLLOUT`. -/
def epollMod (e : EpollOp) (out : Bool) (sfd : Int32) : Bool × EpollOp :=
  match e.registered.find sfd with
  | none => (false, e)
  | some _ => (true, ⟨e.registered.set sfd out⟩)

/-- `epoll_in(sfd)` -/
def epollIn (e : EpollOp) (sfd : Int32) : Bool × EpollOp := e.epollMod false sfd

/-- `epoll_out(sfd)` -/
def epollOut (e : EpollOp) (sfd : Int32) : Bool × EpollOp := e.epollMod true sfd

end EpollOp

/-- One event `epoll_wait` reports: the descriptor, whether one of `EPOLLIN` and
`EPOLLPRI` is set, and whether one of `EPOLLOUT`, `EPOLLERR` and `EPOLLHUP` is. -/
structure EpollEvent where
  fd : Int32
  canRead : Bool
  canWrite : Bool
  deriving DecidableEq, Repr

/-- What one call of `epoll_wait` reports: no descriptor twice. -/
structure EpollBatch where
  events : List EpollEvent
  nodup : (events.map EpollEvent.fd).Nodup

/-- Nothing is ready. -/
def EpollBatch.none : EpollBatch := ⟨[], List.nodup_nil⟩

/-- One descriptor is ready. -/
def EpollBatch.one (ev : EpollEvent) : EpollBatch := ⟨[ev], List.nodup_singleton _⟩

/-- The flags every loop sets on the node of a reported descriptor. -/
def EpollEvent.mark (ev : EpollEvent) (event : FdEvent) : FdEvent :=
  let event := if ev.canRead then event ||| FdEvent.read else event
  if ev.canWrite then event ||| FdEvent.write else event

/-- The kernel's answers to the `::read` and `::write` calls of one `event_op`. -/
structure KernelIo where
  reads : List ReadRes := []
  writes : List WriteRes := []
  deriving DecidableEq, Repr

/-- The outcome of `::accept4` and of `set_options` on the new descriptor. -/
inductive AcceptRes where
  | fail
  | conn (fd : Int32) (ip : String) (port : ℕ) (options : Bool)
  deriving DecidableEq, Repr

/-- The fields of a `TcpOp` that serving descriptors uses, and as history every
descriptor number it has passed to `close`. -/
structure TcpOp where
  sockFd : Int32
  sock : SocketOp
  epoll : EpollOp
  closed : List Int32

namespace TcpOp

def new : TcpOp := ⟨0, .new, .new, []⟩

/-- `close_op(sock_fd)`: closing a descriptor takes it out of the epoll set. -/
def closeOp (t : TcpOp) (sockFd : Int32) : TcpOp :=
  { t with epoll := (t.epoll.epollDel sockFd).2, closed := t.closed ++ [sockFd] }

/-- `_sock->close_fd(sock_fd)` -/
def closeFd (t : TcpOp) (sockFd : Int32) : TcpOp :=
  { t with epoll := ⟨t.epoll.registered.erase sockFd⟩, closed := t.closed ++ [sockFd] }

/-- `del_epev(sock_fd)` -/
def delEpev (t : TcpOp) (sockFd : Int32) : TcpOp :=
  { t with epoll := (t.epoll.epollDel sockFd).2 }

/-- `add_epev(sock_fd)` -/
def addEpev (t : TcpOp) (sockFd : Int32) : Bool × TcpOp :=
  let (ret, epoll) := t.epoll.epollAdd sockFd
  (ret, { t with epoll })

/-- `accept()` of a server; `_type` of the new node is `CLIENT_TYPE_NULL`. -/
def accept (t : TcpOp) : AcceptRes → Option SocketNode × TcpOp
  | .fail => (none, t)
  | .conn fd ip port options =>
    if options = false then (none, t.closeFd fd)
    else
      -- the new descriptor is watched, or closed again
      let (added, t) := t.addEpev fd
      if added = false then (none, t.closeFd fd)
      else (some { sfd := fd, ip := ip, port := port }, t)

/-- `read(sock_node)` -/
def read (t : TcpOp) (sockNode : SocketNode) (reads : List ReadRes) :
    FdEvent × TcpOp × SocketNode :=
  let (ret, sock, sockNode) := t.sock.read sockNode reads
  (ret, { t with sock }, sockNode)

/-- `write(sock_node)` -/
def flush (t : TcpOp) (sockNode : SocketNode) (writes : List WriteRes) :
    FdEvent × TcpOp × SocketNode :=
  let (ret, sock, sockNode, _) := t.sock.flush sockNode writes
  (ret, { t with sock }, sockNode)

/-- `write(sock_node, msg)`; the answers not used are left for the next call. -/
def writeMsg (pb : Protobuf) (t : TcpOp) (sockNode : SocketNode) (msg : UserMsg)
    (writes : List WriteRes) : FdEvent × TcpOp × SocketNode × List WriteRes :=
  let (ret, sock, sockNode, writes) := t.sock.writeMsg pb sockNode msg writes
  (ret, { t with sock }, sockNode, writes)

/-- The reading part of `event_op`. -/
def eventRead (t : TcpOp) (node : SocketNode) (reads : List ReadRes) :
    FdEvent × TcpOp × SocketNode :=
  if node.event.has FdEvent.read then
    let (rdRet, t, node) := t.read node reads
    (rdRet ||| FdEvent.read, t, node)
  else
    (FdEvent.none, t, node)

/-- The writing part of `event_op`. -/
def eventWrite (t : TcpOp) (node : SocketNode) (writes : List WriteRes) :
    FdEvent × TcpOp × SocketNode :=
  if node.event.has FdEvent.write then
    let (wtRet, t, node) := t.flush node writes
    -- everything pending has been sent
    if wtRet &&& FdEvent.write = 0 then
      (wtRet, { t with epoll := (t.epoll.epollIn node.sfd).2 }, node)
    else
      (wtRet, t, node)
  else if node.wtBuff.dataSize > 0 then
    let (wtRet, t, node) := t.flush node writes
    -- `== true` asks for `1`, and `FD_EVENT_WRITE` is `2`
    if wtRet &&& FdEvent.write = 1 then
      (wtRet, { t with epoll := (t.epoll.epollOut node.sfd).2 }, node)
    else
      (wtRet, t, node)
  else
    (FdEvent.none, t, node)

/-- `event_op(node)` -/
def eventOp (t : TcpOp) (node : SocketNode) (io : KernelIo) : FdEvent × TcpOp × SocketNode :=
  let (rdRet, t, node) := t.eventRead node io.reads
  let (wtRet, t, node) := t.eventWrite node io.writes
  let ret := rdRet ||| wtRet
  -- both flag fields are cleared, whatever was read or written
  let node := { node with event := FdEvent.none, opRet := FdEvent.none }
  if ret.has FdEvent.error then
    (FdEvent.error, t.closeOp node.sfd, node)
  else
    (ret, t, node)

/-! ## What serving a descriptor does to its node -/

open SocketNode (Grown Kept)

variable {t : TcpOp} {node : SocketNode}

theorem grown_eventRead (t : TcpOp) (node : SocketNode) (reads : List ReadRes) :
    ∃ delta, node.Grown (t.eventRead node reads).2.2 delta ∧
      (delta = [] ∨ (t.eventRead node reads).1.has FdEvent.read = true) := by
  unfold eventRead
  split_ifs
  · obtain ⟨delta, h⟩ := SocketOp.grown_read t.sock node reads
    -- `FD_EVENT_READ` is added to what `read` returns
    refine ⟨delta, h, .inr ?_⟩
    simp only [FdEvent.has_or]
    exact (Bool.or_eq_true ..).mpr (.inr rfl)
  · exact ⟨[], Kept.of_eq rfl rfl rfl rfl, .inl rfl⟩

theorem kept_writeMsg (pb : Protobuf) (t : TcpOp) (node : SocketNode) (msg : UserMsg)
    (writes : List WriteRes) : node.Kept (t.writeMsg pb node msg writes).2.2.1 :=
  SocketOp.kept_writeMsg pb t.sock node msg writes

theorem kept_eventWrite (t : TcpOp) (node : SocketNode) (writes : List WriteRes) :
    node.Kept (t.eventWrite node writes).2.2 := by
  have h := SocketOp.kept_flush t.sock node writes
  unfold eventWrite flush
  generalize t.sock.flush node writes = r at h ⊢
  obtain ⟨wtRet, sock, node', rest⟩ := r
  simp only
  by_cases hev : node.event.has FdEvent.write = true
  · -- the two flushes differ in the epoll set only
    rw [if_pos hev]
    by_cases hret : wtRet &&& FdEvent.write = 0
    · rw [if_pos hret]
      exact h
    · rw [if_neg hret]
      exact h
  · rw [if_neg hev]
    by_cases hpending : node.wtBuff.dataSize > 0
    · rw [if_pos hpending]
      by_cases hret : wtRet &&& FdEvent.write = 1
      · rw [if_pos hret]
        exact h
      · rw [if_neg hret]
        exact h
    · rw [if_neg hpending]
      exact Kept.of_eq rfl rfl rfl rfl

/-- What was read is in the read buffer; unless the connection failed, bytes are
only read when `FD_EVENT_READ` is reported. -/
theorem grown_eventOp (t : TcpOp) (node : SocketNode) (io : KernelIo) :
    ∃ delta, node.Grown (t.eventOp node io).2.2 delta ∧
      (delta = [] ∨ (t.eventOp node io).1.has FdEvent.error = true ∨
        (t.eventOp node io).1.has FdEvent.read = true) := by
  obtain ⟨delta, hread, hdelta⟩ := grown_eventRead t node io.reads
  unfold eventOp
  generalize t.eventRead node io.reads = rd at hread hdelta ⊢
  -- the flush keeps what was read, and so does clearing the flags
  have hwrite := hread.trans (kept_eventWrite rd.2.1 rd.2.2 io.writes)
  rw [List.append_nil] at hwrite
  simp only
  generalize rd.2.1.eventWrite rd.2.2 io.writes = wt at hwrite ⊢
  split
  · refine ⟨delta, ⟨hwrite.rdBuff, hwrite.received, hwrite.type, hwrite.sfd⟩, .inr (.inl ?_)⟩
    show FdEvent.error.has FdEvent.error = true
    decide
  · refine ⟨delta, ⟨hwrite.rdBuff, hwrite.received, hwrite.type, hwrite.sfd⟩, ?_⟩
    rcases hdelta with hnil | hret
    · exact .inl hnil
    · refine .inr (.inr ?_)
      rw [FdEvent.has_or, hret, Bool.true_or]

/-! ## Which descriptors are watched -/

/-- The descriptor is registered in the epoll set. -/
def watches (t : TcpOp) (fd : Int32) : Bool := (t.epoll.registered.find fd).isSome

/-- The descriptors passed to `close` between two states, the first one earlier. -/
def closedSince (t t' : TcpOp) : List Int32 := t'.closed.drop t.closed.length

theorem closedSince_of_append {t t' : TcpOp} {fds : List Int32}
    (h : t'.closed = t.closed ++ fds) : t.closedSince t' = fds := by
  simp [closedSince, h]

theorem watches_closeOp (t : TcpOp) (sockFd fd : Int32) :
    (t.closeOp sockFd).watches fd = (fd != sockFd && t.watches fd) := by
  simp only [watches, closeOp, EpollOp.epollDel, Table.find_erase]
  split_ifs with h <;> simp [h]

theorem watches_epollMod (t : TcpOp) (out : Bool) (sfd fd : Int32) :
    ({ t with epoll := (t.epoll.epollMod out sfd).2 } : TcpOp).watches fd = t.watches fd := by
  unfold watches EpollOp.epollMod
  cases h : t.epoll.registered.find sfd with
  | none => rfl
  | some _ =>
      simp only [Table.find_set]
      split_ifs with hfd
      · simp [hfd, h]
      · rfl

/-- Flushing watches the same descriptors and closes none. -/
theorem eventWrite_epoll (t : TcpOp) (node : SocketNode) (writes : List WriteRes) :
    (t.eventWrite node writes).2.1.closed = t.closed ∧
      ∀ fd, (t.eventWrite node writes).2.1.watches fd = t.watches fd := by
  unfold eventWrite flush
  generalize t.sock.flush node writes = r
  obtain ⟨wtRet, sock, node', rest⟩ := r
  simp only
  split_ifs
  · exact ⟨rfl, watches_epollMod { t with sock } false node'.sfd⟩
  · exact ⟨rfl, fun _ => rfl⟩
  · exact ⟨rfl, watches_epollMod { t with sock } true node'.sfd⟩
  · exact ⟨rfl, fun _ => rfl⟩
  · exact ⟨rfl, fun _ => rfl⟩

/-- `event_op` closes the descriptor it serves, if it reports an error, and no other. -/
theorem eventOp_epoll (t : TcpOp) (node : SocketNode) (io : KernelIo) :
    (t.eventOp node io).2.1.closed =
        t.closed ++ (if (t.eventOp node io).1.has FdEvent.error = true then [node.sfd] else []) ∧
      ∀ fd, (t.eventOp node io).2.1.watches fd =
        (t.watches fd && !((t.eventOp node io).1.has FdEvent.error && fd == node.sfd)) := by
  obtain ⟨delta, hread, _⟩ := grown_eventRead t node io.reads
  have hclosed : (t.eventRead node io.reads).2.1.closed = t.closed ∧
      ∀ fd, (t.eventRead node io.reads).2.1.watches fd = t.watches fd := by
    unfold eventRead read
    split_ifs <;> exact ⟨rfl, fun _ => rfl⟩
  unfold eventOp
  generalize t.eventRead node io.reads = rd at hread hclosed ⊢
  have hwrite := kept_eventWrite rd.2.1 rd.2.2 io.writes
  have hsame := eventWrite_epoll rd.2.1 rd.2.2 io.writes
  simp only
  generalize rd.2.1.eventWrite rd.2.2 io.writes = wt at hwrite hsame ⊢
  have hsfd : wt.2.2.sfd = node.sfd := hwrite.sfd.trans hread.sfd
  by_cases herror : (rd.1 ||| wt.1).has FdEvent.error = true
  · have hflag : FdEvent.has FdEvent.error FdEvent.error = true := by decide
    simp only [if_pos herror, hflag]
    refine ⟨?_, ?_⟩
    · simp [closeOp, hsame.1, hclosed.1, hsfd]
    · intro fd
      rw [watches_closeOp, hsame.2, hclosed.2, hsfd, Bool.and_comm]
      simp [bne]
  · simp only [if_neg herror]
    refine ⟨by simp [hsame.1, hclosed.1], ?_⟩
    intro fd
    simp [hsame.2, hclosed.2, herror]

/-- A new connection is watched; a descriptor that is not kept is closed. -/
theorem accept_epoll (t : TcpOp) (res : AcceptRes) :
    match t.accept res with
    | (some node, t') => t'.closed = t.closed ∧
        ∀ fd, t'.watches fd = (fd == node.sfd || t.watches fd)
    | (none, t') => ∃ fds, t'.closed = t.closed ++ fds ∧ ∀ fd ∉ fds, t'.watches fd = t.watches fd := by
  cases res with
  | fail => exact ⟨[], by simp, fun _ _ => rfl⟩
  | conn fd ip port options =>
      have hclose : ∃ fds, (t.closeFd fd).closed = t.closed ++ fds ∧
          ∀ fd' ∉ fds, (t.closeFd fd).watches fd' = t.watches fd' := by
        refine ⟨[fd], rfl, ?_⟩
        intro fd' hfd
        have hne : fd' ≠ fd := by simpa using hfd
        simp [watches, closeFd, Table.find_erase, hne]
      unfold accept
      cases options with
      | false => exact hclose
      | true =>
          cases hfind : t.epoll.registered.find fd with
          | some _ =>
              -- the descriptor is registered already
              simpa [addEpev, EpollOp.epollAdd, hfind] using hclose
          | none =>
              simp only [addEpev, EpollOp.epollAdd, hfind]
              refine ⟨rfl, ?_⟩
              intro fd'
              simp only [watches, Table.find_set]
              split_ifs with heq <;> simp [heq]

/-- What `accept` makes of a connection: a node for it, or it is closed again. -/
theorem accept_conn_cases (t : TcpOp) (fd : Int32) (ip : String) (port : ℕ) (options : Bool) :
    (∃ t', t.accept (.conn fd ip port options) =
        (some { sfd := fd, ip := ip, port := port }, t') ∧ t.closedSince t' = []) ∨
      ∃ t', t.accept (.conn fd ip port options) = (none, t') ∧ t.closedSince t' = [fd] := by
  unfold accept
  simp only
  split_ifs
  · exact .inr ⟨_, rfl, closedSince_of_append rfl⟩
  · exact .inr ⟨_, rfl, closedSince_of_append rfl⟩
  · exact .inl ⟨_, rfl, closedSince_of_append (List.append_nil _).symm⟩

end TcpOp

end Rubo.Util
