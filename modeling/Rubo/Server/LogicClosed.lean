import Rubo.Server.Presence
import Rubo.Util.Stranded

/-!
# LogicIO After the Gate Has Gone

When `event_op` fails it closes the descriptor of the Gate connection and says so,
but `handler_epevent` does not look at the answer. The descriptor number stays in
`_conn_user` and in the `TcpOp`, and `handler_worker_msgs` goes on writing to it.

A round is taken apart into pieces between which the workers may run, and each
piece logs the system calls it makes on the descriptor:

- `spared_iff_along`: nothing is done to the descriptor after it has been closed iff
  from then on no event makes `event_op` read or flush, and no answers are waiting
  when `handler_worker_msgs` runs;
- `not_spared_eof`: Logic answers a request that came with the end of the stream.
-/

namespace Rubo.Server

open Rubo.Foundation Rubo.Msgs Rubo.Util
open SocketNode (Kept Grown)

/-! ## What `event_op` leaves -/

section EventOp

variable (t : TcpOp) (node : SocketNode)

theorem eventRead_fields (reads : List ReadRes) :
    (t.eventRead node reads).2.1.sockFd = t.sockFd ∧
      (t.eventRead node reads).2.2.canWt = node.canWt := by
  unfold TcpOp.eventRead TcpOp.read SocketOp.read
  simp only
  split_ifs <;> exact ⟨rfl, rfl⟩

theorem canWt_flush (op : SocketOp) (writes : List WriteRes) :
    (op.flush node writes).2.2.1.canWt = true := by
  unfold SocketOp.flush
  simp only
  split_ifs
  · rfl
  · simp only [SocketOp.send_of_canWt, SocketOp.canWt_sendLoop]

theorem eventWrite_fields (writes : List WriteRes) :
    (t.eventWrite node writes).2.1.sockFd = t.sockFd ∧
      (node.canWt = true → (t.eventWrite node writes).2.2.canWt = true) := by
  have hcan := canWt_flush node t.sock writes
  unfold TcpOp.eventWrite TcpOp.flush
  simp only
  split_ifs
  · exact ⟨rfl, fun _ => hcan⟩
  · exact ⟨rfl, fun _ => hcan⟩
  · exact ⟨rfl, fun _ => hcan⟩
  · exact ⟨rfl, fun _ => hcan⟩
  · exact ⟨rfl, id⟩

theorem eventOp_fields (io : KernelIo) :
    (t.eventOp node io).2.1.sockFd = t.sockFd ∧
      (t.eventOp node io).2.2.event = FdEvent.none ∧
      (node.canWt = true → (t.eventOp node io).2.2.canWt = true) := by
  obtain ⟨hfd, hcan⟩ := eventRead_fields t node io.reads
  unfold TcpOp.eventOp
  generalize t.eventRead node io.reads = rd at hfd hcan ⊢
  obtain ⟨hfd', hcan'⟩ := eventWrite_fields rd.2.1 rd.2.2 io.writes
  simp only
  generalize rd.2.1.eventWrite rd.2.2 io.writes = wt at hfd' hcan' ⊢
  split_ifs
  · exact ⟨hfd'.trans hfd, rfl, fun h => hcan' (hcan.trans h)⟩
  · exact ⟨hfd'.trans hfd, rfl, fun h => hcan' (hcan.trans h)⟩

/-- Without a flag for reading and with nothing to send there is nothing to fail. -/
theorem eventOp_idle (io : KernelIo) (hread : node.event.has FdEvent.read = false)
    (hbuff : node.wtBuff.toList = []) : (t.eventOp node io).1.has FdEvent.error = false := by
  have hsize : node.wtBuff.dataSize = 0 := by rw [RingBuffPtr.dataSize_eq, hbuff, List.length_nil]
  have hwrite : (t.eventWrite node io.writes).1 = FdEvent.none := by
    unfold TcpOp.eventWrite TcpOp.flush SocketOp.flush
    simp only [hsize, Nat.le_refl, if_true, gt_iff_lt, Nat.lt_irrefl, if_false]
    split_ifs <;> rfl
  have hnone : ¬ (FdEvent.none ||| FdEvent.none).has FdEvent.error = true := by decide
  unfold TcpOp.eventOp TcpOp.eventRead
  simp only [hread, Bool.false_eq_true, if_false, hwrite, if_neg hnone]
  exact eq_false_of_ne_true hnone

theorem has_read_mark (ev : EpollEvent) :
    (ev.mark FdEvent.none).has FdEvent.read = ev.canRead := by
  unfold EpollEvent.mark
  cases ev.canRead <;> cases ev.canWrite <;> decide

end EventOp

/-! ## System calls -/

/-- What is done to a descriptor. -/
inductive SysCall where
  /-- `::read` is called, once or more often. -/
  | read (fd : Int32)
  /-- `::write` is called, once or more often. -/
  | write (fd : Int32)
  /-- `::close` is called. -/
  | close (fd : Int32)
  deriving DecidableEq, Repr

def SysCall.fd : SysCall → Int32
  | .read fd | .write fd | .close fd => fd

/-- Nothing is done to a descriptor after it has been closed. -/
def Spared (log : List SysCall) : Prop := log.Pairwise fun c d => c ≠ .close d.fd

instance : DecidablePred Spared := fun log =>
  inferInstanceAs (Decidable (log.Pairwise fun c d => c ≠ .close d.fd))

namespace LogicIO

variable (rt : Runtime)

/-! ## Rounds in pieces -/

/-- A round of the IO thread, or a pass of a worker. -/
inductive Act where
  | io (r : LogicRound)
  | worker (i : ℕ)

def step (l : LogicIO) : Act → LogicIO
  | .io r => l.threadLoop rt r
  | .worker i => l.workerLoop i

/-- The pieces of a round, and the passes of the workers. -/
inductive Piece where
  /-- One event of `handler_epevent`. -/
  | epevent (e : EpollEvent × KernelIo)
  /-- The last loop of `handler_epevent`. -/
  | notify
  /-- `handler_worker_msgs()` -/
  | workerMsgs (writes : List WriteRes)
  | worker (i : ℕ)

def pieceStep (l : LogicIO) : Piece → LogicIO
  | .epevent e => l.epevent rt e
  | .notify => l.notifyWorkers
  | .workerMsgs writes => l.handlerWorkerMsgs rt writes
  | .worker i => l.workerLoop i

def Act.pieces : Act → List Piece
  | .io r => r.events.map .epevent ++ [.notify, .workerMsgs r.writes]
  | .worker i => [.worker i]

/-- The pieces of a run make the run. -/
theorem run_pieces (l : LogicIO) (acts : List Act) :
    run (pieceStep rt) l (acts.flatMap Act.pieces) = run (step rt) l acts := by
  have hevents : ∀ (events : List (EpollEvent × KernelIo)) (l : LogicIO),
      run (pieceStep rt) l (events.map .epevent) = events.foldl (epevent rt) l := by
    intro events
    induction events with
    | nil => exact fun _ => rfl
    | cons e events ih => exact fun l => ih (l.epevent rt e)
  induction acts generalizing l with
  | nil => rfl
  | cons act acts ih =>
      rw [List.flatMap_cons, run_append, ih, run_cons]
      cases act with
      | io r =>
          rw [Act.pieces, run_append, hevents]
          rfl
      | worker i => rfl

/-- The socket of `_conn_user` as `event_op` finds it. -/
def marked (l : LogicIO) (ev : EpollEvent) : SocketNode :=
  { l.sock with event := ev.mark l.sock.event }

/-- What a piece does to the Gate connection. -/
def sysCalls (l : LogicIO) : Piece → List SysCall
  | .epevent e =>
    if e.1.fd ≠ l.tcpOp.sockFd then []
    else
      let sock := l.marked e.1
      (if sock.event.has FdEvent.read then [.read sock.sfd] else []) ++
        -- both ways of flushing call `::write` if there is something to send
        (if sock.wtBuff.dataSize > 0 then [.write sock.sfd] else []) ++
        (if (l.tcpOp.eventOp sock e.2).1.has FdEvent.error then [.close sock.sfd] else [])
  | .workerMsgs _ => if l.sock.canWt then l.outMsgs.map fun _ => .write l.sock.sfd else []
  | .notify | .worker _ => []

/-- The descriptor of the Gate has been closed. -/
def Gone (l : LogicIO) : Prop := l.tcpOp.closed ≠ []

instance : DecidablePred Gone := fun l => inferInstanceAs (Decidable (l.tcpOp.closed ≠ []))

/-- A piece leaves a connection alone that has been closed. -/
def Careful (l : LogicIO) (piece : Piece) : Prop :=
  l.Gone →
    match piece with
    | .epevent e => e.1.fd = l.tcpOp.sockFd → e.1.canRead = false ∧ l.sock.wtBuff.toList = []
    | .workerMsgs _ => l.outMsgs = []
    | .notify | .worker _ => True

instance (l : LogicIO) : DecidablePred l.Careful := fun piece => by
  cases piece <;> unfold Careful <;> infer_instance

/-! ## The connection between two pieces -/

/-- What holds between any two pieces. -/
structure Plugged (fd : Int32) (l : LogicIO) : Prop where
  sfd : l.sock.sfd = fd
  sockFd : l.tcpOp.sockFd = fd
  canWt : l.sock.canWt = true
  event : l.sock.event = FdEvent.none

variable {rt} {fd : Int32} {l l' : LogicIO}

theorem Plugged.of_eq (h : Plugged fd l) (hsfd : l'.sock.sfd = l.sock.sfd)
    (hsockFd : l'.tcpOp.sockFd = l.tcpOp.sockFd) (hcan : l'.sock.canWt = true)
    (hevent : l'.sock.event = FdEvent.none) : Plugged fd l' :=
  ⟨hsfd.trans h.sfd, hsockFd.trans h.sockFd, hcan, hevent⟩

theorem Plugged.of_connUser (h : Plugged fd l) (huser : l'.connUser = l.connUser)
    (htcp : l'.tcpOp = l.tcpOp) : Plugged fd l' := by
  have hsock : l'.sock = l.sock := by rw [sock, huser, sock]
  exact h.of_eq (by rw [hsock]) (by rw [htcp]) (by rw [hsock, h.canWt]) (by rw [hsock, h.event])

/-- Serving an event: the node is the one `event_op` leaves, less what was parsed. -/
theorem epevent_eq (rt : Runtime) (e : EpollEvent × KernelIo) (hfd : e.1.fd = l.tcpOp.sockFd) :
    ∃ buff, (l.epevent rt e).sock =
        { (l.tcpOp.eventOp (l.marked e.1) e.2).2.2 with rdBuff := buff } ∧
      (l.epevent rt e).tcpOp = (l.tcpOp.eventOp (l.marked e.1) e.2).2.1 ∧
      (l.epevent rt e).outMsgs = l.outMsgs := by
  have hdispatch : ∀ (msgs : List UserMsg) (v : LogicIO), (msgs.foldl dispatch v).sock = v.sock ∧
      (msgs.foldl dispatch v).tcpOp = v.tcpOp ∧ (msgs.foldl dispatch v).outMsgs = v.outMsgs := by
    intro msgs v
    refine run_invariant (I := fun u : LogicIO => u.sock = v.sock ∧ u.tcpOp = v.tcpOp ∧
      u.outMsgs = v.outMsgs) ?_ ⟨rfl, rfl, rfl⟩ msgs
    rintro u msg ⟨hsock, htcp, hout⟩
    unfold dispatch
    split_ifs
    · exact ⟨hsock, htcp, hout⟩
    · split
      · exact ⟨hsock, htcp, hout⟩
      · exact ⟨hsock, htcp, hout⟩
  unfold epevent
  rw [if_neg (not_not.mpr hfd)]
  obtain ⟨hsock, htcp, hout⟩ := hdispatch ((l.serve e).parsePackage rt).1
    ((l.serve e).parsePackage rt).2
  simp only [hsock, htcp, hout]
  exact ⟨_, rfl, rfl, rfl⟩

/-- Writing an answer changes what is pending and what the Gate has been sent. -/
theorem writeRsp_fields (rt : Runtime) (h : Plugged fd l) (writes : List WriteRes) (msg : UserMsg) :
    Plugged fd (writeRsp rt (l, writes) msg).1 ∧
      (writeRsp rt (l, writes) msg).1.tcpOp.closed = l.tcpOp.closed := by
  have hkept := TcpOp.kept_writeMsg rt.toProtobuf l.tcpOp l.sock msg writes
  have hevent : (l.tcpOp.writeMsg rt.toProtobuf l.sock msg writes).2.2.1.event = l.sock.event := by
    obtain ⟨wtBuff, accepted, heq⟩ := SocketOp.sendLoop_eq
      ((SocketOp.fillFrame rt.toProtobuf l.tcpOp.sock.wtBuff msg).data.take
        ((rt.serializeToArray msg.msg).length + 12)) l.sock 0 writes
    simp only [TcpOp.writeMsg, SocketOp.writeMsg, SocketOp.send_of_canWt h.canWt, heq]
  exact ⟨h.of_eq hkept.sfd rfl (SocketOp.canWt_writeMsg rt.toProtobuf l.tcpOp.sock h.canWt msg writes)
    (hevent.trans h.event), rfl⟩

theorem handlerWorkerMsgs_fields (h : Plugged fd l) (writes : List WriteRes) :
    Plugged fd (l.handlerWorkerMsgs rt writes) ∧
      (l.handlerWorkerMsgs rt writes).tcpOp.closed = l.tcpOp.closed := by
  refine run_invariant (I := fun s : LogicIO × List WriteRes => Plugged fd s.1 ∧
    s.1.tcpOp.closed = l.tcpOp.closed) ?_ (s := ({ l with outMsgs := [] }, writes))
    ⟨h.of_connUser rfl rfl, rfl⟩ l.outMsgs
  rintro ⟨v, writes⟩ msg ⟨hv, hclosed⟩
  obtain ⟨hplugged, hsame⟩ := writeRsp_fields rt hv writes msg
  exact ⟨hplugged, hsame.trans hclosed⟩

/-! ## One piece -/

theorem plugged_pieceStep (rt : Runtime) (l : LogicIO) (piece : Piece) (h : Plugged fd l) :
    Plugged fd (l.pieceStep rt piece) := by
  cases piece with
  | epevent e =>
      by_cases hfd : e.1.fd = l.tcpOp.sockFd
      · obtain ⟨buff, hsock, htcp, _⟩ := epevent_eq rt e hfd
        obtain ⟨hsockFd, hevent, hcan⟩ := eventOp_fields l.tcpOp (l.marked e.1) e.2
        obtain ⟨_, hgrown, _⟩ := TcpOp.grown_eventOp l.tcpOp (l.marked e.1) e.2
        refine h.of_eq ?_ ?_ ?_ ?_
        · exact (congrArg SocketNode.sfd hsock).trans hgrown.sfd
        · exact (congrArg TcpOp.sockFd htcp).trans hsockFd
        · exact (congrArg SocketNode.canWt hsock).trans (hcan h.canWt)
        · exact (congrArg SocketNode.event hsock).trans hevent
      · have hsame : l.pieceStep rt (.epevent e) = l := if_pos hfd
        rw [hsame]
        exact h
  | notify => exact h.of_connUser rfl rfl
  | workerMsgs writes => exact (handlerWorkerMsgs_fields h writes).1
  | worker i =>
      show Plugged fd (l.workerLoop i)
      unfold workerLoop
      split
      · exact h
      · exact h.of_connUser rfl rfl

/-- The descriptor has been closed iff it was before, or the piece closes it. -/
theorem gone_pieceStep (rt : Runtime) (l : LogicIO) (piece : Piece) (h : Plugged fd l) :
    (l.pieceStep rt piece).Gone ↔ l.Gone ∨ ∃ c ∈ l.sysCalls piece, c = .close fd := by
  unfold Gone
  cases piece with
  | epevent e =>
      by_cases hfd : e.1.fd = l.tcpOp.sockFd
      · obtain ⟨_, _, htcp, _⟩ := epevent_eq rt e hfd
        obtain ⟨hclosed, _⟩ := TcpOp.eventOp_epoll l.tcpOp (l.marked e.1) e.2
        have hsfd : (l.marked e.1).sfd = fd := h.sfd
        have hstep : (l.pieceStep rt (.epevent e)).tcpOp.closed = _ :=
          (congrArg TcpOp.closed htcp).trans hclosed
        rw [hstep, hsfd]
        simp only [sysCalls, hfd, ne_eq, not_true_eq_false, if_false, hsfd, List.mem_append]
        by_cases herror : (l.tcpOp.eventOp (l.marked e.1) e.2).1.has FdEvent.error = true
        · simp [herror]
        · simp only [herror]
          split_ifs <;> simp
      · have hsame : l.pieceStep rt (.epevent e) = l := if_pos hfd
        simp [hsame, sysCalls, hfd]
  | notify => simp [pieceStep, notifyWorkers, sysCalls]
  | workerMsgs writes =>
      have hclosed : (l.pieceStep rt (.workerMsgs writes)).tcpOp.closed = l.tcpOp.closed :=
        (handlerWorkerMsgs_fields h writes).2
      simp [hclosed, sysCalls]
  | worker i =>
      have hclosed : (l.pieceStep rt (.worker i)).tcpOp.closed = l.tcpOp.closed := by
        show (l.workerLoop i).tcpOp.closed = _
        unfold workerLoop
        split <;> rfl
      simp [hclosed, sysCalls]

/-- In a piece a close comes last. -/
theorem pairwise_sysCalls (l : LogicIO) (piece : Piece) :
    (l.sysCalls piece).Pairwise fun c _ => ¬ c = .close fd := by
  cases piece with
  | epevent e =>
      simp only [sysCalls]
      split_ifs <;> simp
  | notify => exact .nil
  | workerMsgs writes =>
      simp only [sysCalls]
      split_ifs
      · rw [List.pairwise_map]
        exact List.pairwise_of_forall (by simp)
      · exact .nil
  | worker i => exact .nil

theorem fd_of_mem_sysCalls (l : LogicIO) (piece : Piece) (h : Plugged fd l) :
    ∀ c ∈ l.sysCalls piece, c.fd = fd := by
  have hsfd := h.sfd
  cases piece with
  | epevent e =>
      have hmarked : (l.marked e.1).sfd = fd := h.sfd
      simp only [sysCalls, hmarked]
      split_ifs <;> simp [SysCall.fd]
  | notify => simp [sysCalls]
  | workerMsgs writes =>
      simp only [sysCalls]
      split_ifs
      · simp only [List.mem_map]
        rintro c ⟨msg, _, rfl⟩
        exact hsfd
      · simp
  | worker i => simp [sysCalls]

/-- When a piece does nothing to the connection. -/
theorem sysCalls_eq_nil_iff (h : Plugged fd l) (piece : Piece) :
    l.sysCalls piece = [] ↔
      match piece with
      | .epevent e => e.1.fd = l.tcpOp.sockFd → e.1.canRead = false ∧ l.sock.wtBuff.toList = []
      | .workerMsgs _ => l.outMsgs = []
      | .notify | .worker _ => True := by
  cases piece with
  | epevent e =>
      by_cases hfd : e.1.fd = l.tcpOp.sockFd
      · -- no flag is left from an earlier event
        have hread : (l.marked e.1).event.has FdEvent.read = e.1.canRead := by
          rw [marked, h.event]
          exact has_read_mark e.1
        have hsize : (l.marked e.1).wtBuff.dataSize > 0 ↔ l.sock.wtBuff.toList ≠ [] := by
          rw [RingBuffPtr.dataSize_eq, gt_iff_lt, List.length_pos_iff]
          rfl
        simp only [sysCalls, hfd, ne_eq, not_true_eq_false, if_false, hread, hsize,
          List.append_eq_nil_iff, forall_const]
        constructor
        · rintro ⟨⟨hnone, hempty⟩, _⟩
          refine ⟨?_, ?_⟩
          · by_contra hcan
            simp [hcan] at hnone
          · by_contra hpending
            simp [hpending] at hempty
        · rintro ⟨hcan, hempty⟩
          have hidle := eventOp_idle l.tcpOp (l.marked e.1) e.2 (hread.trans hcan) hempty
          simp [hcan, hempty, hidle]
      · simp [sysCalls, hfd]
  | notify => simp [sysCalls]
  | workerMsgs writes => simp [sysCalls, h.canWt]
  | worker i => simp [sysCalls]

/-! ## Every run -/

variable (rt)

/-- The calls on a connection that is open at first. -/
theorem spared_pieces_iff (h : Plugged fd l) (hopen : l.tcpOp.closed = []) (pieces : List Piece) :
    Spared (logOf (pieceStep rt) sysCalls l pieces) ↔ Along (pieceStep rt) Careful l pieces := by
  -- there is but one descriptor
  have hfd : ∀ c ∈ logOf (pieceStep rt) sysCalls l pieces, c.fd = fd :=
    forall_mem_logOf (I := Plugged fd) (plugged_pieceStep rt) fd_of_mem_sysCalls h pieces
  have hspared : Spared (logOf (pieceStep rt) sysCalls l pieces) ↔
      (logOf (pieceStep rt) sysCalls l pieces).Pairwise fun c _ => ¬ c = .close fd := by
    refine List.Pairwise.iff_of_mem ?_
    intro c d _ hd
    rw [hfd d hd]
  have hrule := pairwise_logOf_iff (I := Plugged fd) (plugged_pieceStep rt) (gone_pieceStep rt)
    (fun l piece _ => l.pairwise_sysCalls piece) h pieces
  have hcareful : Along (pieceStep rt) (fun l piece => l.Gone → l.sysCalls piece = []) l pieces ↔
      Along (pieceStep rt) Careful l pieces := by
    refine along_congr (I := Plugged fd) ?_ (fun l piece hl _ => plugged_pieceStep rt l piece hl) h
      pieces
    intro l piece hl
    exact imp_congr_right fun _ => sysCalls_eq_nil_iff hl piece
  rw [hspared, ← hcareful, ← hrule]
  simp [Gone, hopen]

theorem plugged_init {sockFd : Int32} {writes : List WriteRes}
    (h : init rt sockFd writes = some l) : Plugged sockFd l ∧ l.tcpOp.closed = [] := by
  have hconnected : Plugged sockFd (connected sockFd) := ⟨rfl, rfl, rfl, rfl⟩
  -- the request is written as an answer is
  obtain ⟨hplugged, hclosed⟩ := writeRsp_fields rt hconnected writes
    { msgId := ProtocolDefine.systemVerifyReq.toInt
      msg := (Message.new .verifyReq).setMacaddr macaddr }
  have hverify : ((connected sockFd).verifyToGate rt writes).2 = (writeRsp rt
      (connected sockFd, writes) { msgId := ProtocolDefine.systemVerifyReq.toInt
                                   msg := (Message.new .verifyReq).setMacaddr macaddr }).1 := rfl
  rw [← hverify] at hplugged hclosed
  unfold init at h
  generalize (connected sockFd).verifyToGate rt writes = p at h hplugged hclosed
  obtain ⟨ok, v⟩ := p
  simp only at h
  split_ifs at h
  rw [← Option.some.inj h]
  exact ⟨hplugged.of_connUser rfl rfl, hclosed⟩

/-- **When the connection is left alone after its close**: in every run of Logic, nothing
is done to the descriptor of the Gate after `event_op` has closed it iff from then on
no event for it is readable or finds something to send, and no answers are waiting
when `handler_worker_msgs` runs. -/
theorem spared_iff_along {sockFd : Int32} {writes : List WriteRes}
    (hinit : init rt sockFd writes = some l) (acts : List Act) :
    Spared (logOf (pieceStep rt) sysCalls l (acts.flatMap Act.pieces)) ↔
      Along (pieceStep rt) Careful l (acts.flatMap Act.pieces) :=
  spared_pieces_iff rt (plugged_init rt hinit).1 (plugged_init rt hinit).2 _

/-! ## Runs on fixed inputs -/

/-- The Gate sends some frames and closes its side, and what has been answered is
written in the next round. -/
def gateLeaves (frames : List Frame) : List Act :=
  [.io { events := [(⟨4, true, false⟩,
      { reads := [.data (frames.flatMap Frame.encode), .eof] })] },
   .worker 0, .io { writes := [.took 2048] }]

/-- User 1 comes online; nothing is to be answered. -/
theorem spared_online :
    Spared (logOf (pieceStep .proto2) sysCalls Uplink.startedLogic
      ((gateLeaves [⟨7, 1, [8, 1]⟩]).flatMap Act.pieces)) :=
  (spared_iff_along .proto2 (Option.some_get Uplink.isSome_init).symm _).mpr (by decide +kernel)

/-- A descriptor is used after its close in general: user 1 comes online and makes a
request, and the answer is written to descriptor 4, which is closed. -/
theorem not_spared_eof :
    ¬ ∀ (rt : Runtime) (sockFd : Int32) (writes : List WriteRes) (l : LogicIO) (acts : List Act),
      init rt sockFd writes = some l →
        Spared (logOf (pieceStep rt) sysCalls l (acts.flatMap Act.pieces)) := by
  intro h
  have hspared := h .proto2 4 [.took 2048] Uplink.startedLogic
    (gateLeaves [⟨7, 1, [8, 1]⟩, ⟨9, 1, [8, 1, 18, 1, 97]⟩]) (Option.some_get Uplink.isSome_init).symm
  revert hspared
  decide +kernel

end LogicIO

end Rubo.Server
