import Rubo.Msgs.Framing
import Rubo.Server.LogicWorker
import Rubo.Util.TcpOp

/-!
# LogicIO

The IO thread of a Logic process, `server/Logic/LogicIO.cpp`: it reads the
connection to the Gate, deals the messages out to the workers, and writes their
answers, which reach it through the queue of `server/Logic/Logic.cpp`.

`Sound` says what the workers can have been given: envelopes of frames the Gate
connection has delivered.
-/

namespace Rubo.Server

open Rubo.Foundation Rubo.Msgs Rubo.Util
open SocketNode (Kept Grown)

/-- The fields of a `LogicIO`, with the message centre of its server, its workers
and the queue `_out_msgs` of `Logic`. -/
structure LogicIO where
  msgCenter : MsgCenter
  tcpOp : TcpOp
  connUser : User
  workers : List LogicWorker
  outMsgs : List UserMsg

/-- What the environment contributes to one round: the events `epoll_wait`
reports, each with the kernel's answers to its `event_op`, and the kernel's
answers to the writes of `handler_worker_msgs`. -/
structure LogicRound where
  events : List (EpollEvent × KernelIo) := []
  writes : List WriteRes := []

namespace LogicIO

variable (rt : Runtime)

/-- `_conn_user`, the only user object of this thread. -/
def connUserPtr : Ptr := 0

/-- `_conn_user->_sock` -/
def sock (l : LogicIO) : SocketNode := l.connUser.node

/-- Change the socket node of `_conn_user`. -/
def setSock (l : LogicIO) (sock : SocketNode) : LogicIO :=
  { l with connUser := { l.connUser with sock := some sock } }

/-- Change one worker. -/
def modifyWorker (l : LogicIO) (i : ℕ) (f : LogicWorker → LogicWorker) : LogicIO :=
  { l with workers := l.workers.modify i f }

/-! ## Start -/

/-- `"00:01:02:03:04:05:06:07"` -/
def macaddr : List UInt8 :=
  [48, 48, 58, 48, 49, 58, 48, 50, 58, 48, 51, 58, 48, 52, 58, 48, 53, 58, 48, 54, 58, 48, 55]

/-- `"LogicWorker 1"` -/
def workerName : List UInt8 :=
  [76, 111, 103, 105, 99, 87, 111, 114, 107, 101, 114, 32, 49]

/-- The part of `init_net()` before the verification, once `connect` has
succeeded on `sockFd`. -/
def connected (sockFd : Int32) : LogicIO where
  msgCenter := .new
  tcpOp := ({ TcpOp.new with sockFd := sockFd }.addEpev sockFd).2
  connUser := { sock := some { sfd := sockFd, type := .system } }
  workers := []
  outMsgs := []

/-- `verify_to_gate()` -/
def verifyToGate (l : LogicIO) (writes : List WriteRes) : Bool × LogicIO :=
  match MsgCenter.genMsg .systemVerifyReq with
  | none => (true, l)
  | some req =>
    let req := { req with msg := req.msg.setMacaddr macaddr }
    let (ret, tcpOp, sock, _) := l.tcpOp.writeMsg rt.toProtobuf l.sock req writes
    -- anything but a complete write counts as a failure
    (ret == FdEvent.none, { l.setSock sock with tcpOp := tcpOp })

/-- `init()` of the IO thread, and the one worker `Logic::init` adds to it. -/
def init (sockFd : Int32) (writes : List WriteRes) : Option LogicIO :=
  let (ok, l) := (connected sockFd).verifyToGate rt writes
  if ok then some { l with workers := [LogicWorker.new workerName] } else none

/-! ## The stages of a round -/

/-- `get_worker(uid)` -/
def getWorker (l : LogicIO) (uid : Int32) : Option ℕ :=
  Comm.findWorker (fun w => w.isUidIn uid) LogicWorker.userNum l.workers

/-- `on_verify_ret(user_msg)`: it only writes to the log. -/
def onVerifyRet (l : LogicIO) (_userMsg : UserMsg) : LogicIO := l

/-- Deal out one message. `get_worker` returns null only without workers. -/
def dispatch (l : LogicIO) (msg : UserMsg) : LogicIO :=
  if msg.msgId = ProtocolDefine.systemVerifyRsp.toInt then
    l.onVerifyRet msg
  else
    match l.getWorker msg.uid with
    | none => l
    | some work => l.modifyWorker work fun w => { w with ioMsgs := w.ioMsgs ++ [msg] }

/-- The flags and the `event_op` of one event; what `event_op` returns is not
looked at. -/
def serve (l : LogicIO) (e : EpollEvent × KernelIo) : LogicIO :=
  let sock := { l.sock with event := e.1.mark l.sock.event }
  let (_, tcpOp, sock) := l.tcpOp.eventOp sock e.2
  { l.setSock sock with tcpOp := tcpOp }

/-- `parse_package(_conn_user)` -/
def parsePackage (l : LogicIO) : List UserMsg × LogicIO :=
  let (msgs, msgCenter, sock) := l.msgCenter.parsePackage rt connUserPtr l.sock
  (msgs, { l.setSock sock with msgCenter := msgCenter })

/-- One event of `handler_epevent`. -/
def epevent (l : LogicIO) (e : EpollEvent × KernelIo) : LogicIO :=
  -- the Gate connection is the only one watched
  if e.1.fd ≠ l.tcpOp.sockFd then
    l
  else
    let (msgs, l) := (l.serve e).parsePackage rt
    msgs.foldl dispatch l

/-- The last loop of `handler_epevent`. -/
def notifyWorkers (l : LogicIO) : LogicIO :=
  { l with workers := l.workers.map fun w => if w.ioMsgs = [] then w else w.notifyMsgIn }

/-- `handler_epevent()` -/
def handlerEpevent (l : LogicIO) (events : List (EpollEvent × KernelIo)) : LogicIO :=
  (events.foldl (epevent rt) l).notifyWorkers

/-- Write one answer to the Gate. -/
def writeRsp (s : LogicIO × List WriteRes) (msg : UserMsg) : LogicIO × List WriteRes :=
  let (l, writes) := s
  let (_, tcpOp, sock, writes) := l.tcpOp.writeMsg rt.toProtobuf l.sock msg writes
  ({ l.setSock sock with tcpOp := tcpOp }, writes)

/-- `handler_worker_msgs()` -/
def handlerWorkerMsgs (l : LogicIO) (writes : List WriteRes) : LogicIO :=
  (l.outMsgs.foldl (writeRsp rt) ({ l with outMsgs := [] }, writes)).1

/-- `thread_loop()` -/
def threadLoop (l : LogicIO) (r : LogicRound) : LogicIO :=
  (l.handlerEpevent rt r.events).handlerWorkerMsgs rt r.writes

/-- One pass of a worker through its `thread_loop()`: its messages are handled,
and its answers go to `add_msgs_to_io`. -/
def workerLoop (l : LogicIO) (i : ℕ) : LogicIO :=
  match l.workers[i]? with
  | none => l
  | some w =>
    let (outMsgs, w) := w.handlerMsgs.handlerReply
    { l with workers := l.workers.set i w, outMsgs := l.outMsgs ++ outMsgs }

/-- The messages the next pass of a worker handles. -/
def batch (l : LogicIO) (i : ℕ) : List UserMsg :=
  match l.workers[i]? with
  | none => []
  | some w => w.msgsIn

/-! ## Where the messages come from -/

/-- A worker has the message and has not handled it. -/
def Waiting (l : LogicIO) (msg : UserMsg) : Prop :=
  ∃ w ∈ l.workers, msg ∈ w.msgsIn ++ w.ioMsgs

/-- The message is the envelope of a frame the Gate connection has delivered, made
with a scratch block of at least the initial size. -/
def Arrived (l : LogicIO) (msg : UserMsg) : Prop :=
  ∃ f ∈ (frameDecoder.drain l.sock.received).1, ∃ mc t,
    LineBuffer.defLineBuffSize ≤ mc.parseBuff.buffSize ∧ MsgCenter.typeOf f.msgId = some t ∧
    msg = MsgCenter.envelope rt connUserPtr l.sock.sfd mc t f

/-- What holds between any two stages, when the workers have handled `handled`:
they have been given only what has arrived. -/
structure Sound (handled : List UserMsg) (l : LogicIO) : Prop where
  stream : ∃ taken, frameDecoder.Accounts l.sock.received taken l.sock.rdBuff.toList
  room : LineBuffer.defLineBuffSize ≤ l.msgCenter.parseBuff.buffSize
  arrived : ∀ msg, Waiting l msg ∨ msg ∈ handled → Arrived rt l msg

variable {rt} {l l' : LogicIO} {handled : List UserMsg}

/-- What has arrived once has arrived. -/
theorem Arrived.evolve {msg : UserMsg} (h : Arrived rt l msg)
    (hrec : l.sock.received <+: l'.sock.received) (hsfd : l'.sock.sfd = l.sock.sfd) :
    Arrived rt l' msg := by
  obtain ⟨f, hf, mc, t, hsize, htype, hmsg⟩ := h
  obtain ⟨delta, hdelta⟩ := hrec
  refine ⟨f, ?_, mc, t, hsize, htype, by rw [hsfd, hmsg]⟩
  rw [← hdelta]
  exact (Decoder.drain_fst_prefix _ delta).subset hf

/-- Stages that parse nothing. -/
theorem Sound.of_grown {delta : List UInt8} (h : Sound rt handled l)
    (hgrown : l.sock.Grown l'.sock delta) (hmc : l'.msgCenter = l.msgCenter)
    (hwait : ∀ msg, Waiting l' msg → Waiting l msg) : Sound rt handled l' where
  stream := by
    obtain ⟨taken, hacc⟩ := h.stream
    rw [hgrown.received, hgrown.rdBuff]
    exact ⟨taken, hacc.append delta⟩
  room := by
    rw [hmc]
    exact h.room
  arrived msg hmsg := by
    apply (h.arrived msg (hmsg.imp_left (hwait msg))).evolve
    · rw [hgrown.received]
      exact List.prefix_append ..
    · exact hgrown.sfd

theorem waiting_dispatch {msg m : UserMsg} (h : Waiting (l.dispatch msg) m) :
    m = msg ∨ Waiting l m := by
  unfold dispatch at h
  split_ifs at h
  · exact .inr h
  · split at h
    · exact .inr h
    · obtain ⟨w, hw, hm⟩ := h
      rcases mem_modify hw with hw | ⟨v, hv, rfl⟩
      · exact .inr ⟨w, hw, hm⟩
      · -- in the worker it was dealt to
        rw [← List.append_assoc] at hm
        rcases List.mem_append.mp hm with hold | hnew
        · exact .inr ⟨v, List.mem_of_getElem? hv, hold⟩
        · exact .inl (List.mem_singleton.mp hnew)

theorem dispatch_fields (l : LogicIO) (msg : UserMsg) :
    (l.dispatch msg).connUser = l.connUser ∧ (l.dispatch msg).msgCenter = l.msgCenter := by
  unfold dispatch
  split_ifs
  · exact ⟨rfl, rfl⟩
  · split
    · exact ⟨rfl, rfl⟩
    · exact ⟨rfl, rfl⟩

theorem sound_foldl_dispatch {msgs : List UserMsg} (h : Sound rt handled l)
    (hmsgs : ∀ msg ∈ msgs, Arrived rt l msg) : Sound rt handled (msgs.foldl dispatch l) := by
  induction msgs generalizing l with
  | nil => exact h
  | cons msg msgs ih =>
      obtain ⟨huser, hmc⟩ := dispatch_fields l msg
      -- dealing out touches the workers only
      have hsock : (l.dispatch msg).sock = l.sock := by rw [sock, huser]; rfl
      have hsame : ∀ m, Arrived rt l m → Arrived rt (l.dispatch msg) m := by
        intro m hm
        apply hm.evolve
        · rw [hsock]
        · rw [hsock]
      apply ih
      · refine ⟨?_, ?_, ?_⟩
        · rw [hsock]
          exact h.stream
        · rw [hmc]
          exact h.room
        · rintro m (hm | hm)
          · rcases waiting_dispatch hm with rfl | hold
            · exact hsame m (hmsgs m (List.mem_cons_self ..))
            · exact hsame m (h.arrived m (.inl hold))
          · exact hsame m (h.arrived m (.inr hm))
      · intro m hm
        exact hsame m (hmsgs m (List.mem_cons_of_mem _ hm))

theorem sound_serve (h : Sound rt handled l) (e : EpollEvent × KernelIo) : Sound rt handled (l.serve e) := by
  obtain ⟨delta, hgrown, _⟩ := TcpOp.grown_eventOp l.tcpOp
    { l.sock with event := e.1.mark l.sock.event } e.2
  have hmark : l.sock.Kept { l.sock with event := e.1.mark l.sock.event } :=
    Kept.of_eq rfl rfl rfl rfl
  have hserved : l.sock.Grown (l.serve e).sock delta := SocketNode.Grown.trans hmark hgrown
  exact h.of_grown hserved rfl fun _ => id

/-- What parsing returns are envelopes of frames of the stream. -/
theorem parsePackage_spec (h : Sound rt handled l) :
    Sound rt handled (l.parsePackage rt).2 ∧
      ∀ msg ∈ (l.parsePackage rt).1, Arrived rt (l.parsePackage rt).2 msg := by
  obtain ⟨buff, hbuff, hparse⟩ := MsgCenter.parsePackage_eq rt connUserPtr l.msgCenter l.sock
  obtain ⟨taken, hacc⟩ := h.stream
  unfold parsePackage
  rw [hparse]
  refine ⟨⟨⟨taken ++ (MsgCenter.taken l.sock.rdBuff.toList).1, ?_⟩, ?_, ?_⟩, ?_⟩
  · show frameDecoder.Accounts l.sock.received _ buff.toList
    rw [hbuff]
    exact hacc.drainUntil fun f => !MsgCenter.registered f.msgId
  · exact h.room.trans (MsgCenter.buffSize_le_foldl_afterFrame ..)
  · intro msg hmsg
    exact (h.arrived msg hmsg).evolve (List.prefix_refl _) rfl
  · intro msg hmsg
    obtain ⟨f, hf, mc, t, hsize, htype, hmsg⟩ := MsgCenter.mem_envelopes rt _ _ hmsg
    refine ⟨f, ?_, mc, t, h.room.trans hsize, htype, hmsg⟩
    exact hacc.mem_drain hf

/-- **One event**: whatever is dealt out has arrived. -/
theorem sound_epevent (h : Sound rt handled l) (e : EpollEvent × KernelIo) : Sound rt handled (l.epevent rt e) := by
  unfold epevent
  split_ifs
  · exact h
  · obtain ⟨hparsed, hmsgs⟩ := parsePackage_spec (sound_serve h e)
    exact sound_foldl_dispatch hparsed hmsgs

theorem sound_notifyWorkers (h : Sound rt handled l) : Sound rt handled l.notifyWorkers := by
  have hkept : l.sock.Kept l.notifyWorkers.sock := Kept.of_eq rfl rfl rfl rfl
  apply h.of_grown hkept rfl
  rintro msg ⟨w, hw, hmsg⟩
  obtain ⟨v, hv, rfl⟩ := List.mem_map.mp hw
  refine ⟨v, hv, ?_⟩
  split_ifs at hmsg
  · exact hmsg
  · rw [LogicWorker.notifyMsgIn, List.append_nil] at hmsg
    exact hmsg

theorem sound_threadLoop (h : Sound rt handled l) (r : LogicRound) : Sound rt handled (l.threadLoop rt r) := by
  have hread : Sound rt handled (Rubo.Foundation.run (epevent rt) l r.events) :=
    run_invariant (I := Sound rt handled) (fun _ e hl => sound_epevent hl e) h r.events
  have hnotified : Sound rt handled (l.handlerEpevent rt r.events) := sound_notifyWorkers hread
  generalize hv : l.handlerEpevent rt r.events = v at hnotified
  have hkept : v.sock.Kept { v with outMsgs := [] }.sock := Kept.of_eq rfl rfl rfl rfl
  -- `_out_msgs` is taken over by the loop that writes it
  have hcleared : Sound rt handled { v with outMsgs := [] } := hnotified.of_grown hkept rfl fun _ => id
  have hloop : Sound rt handled (v.handlerWorkerMsgs rt r.writes) := by
    refine run_invariant (I := fun s : LogicIO × List WriteRes => Sound rt handled s.1) ?_
      (s := ({ v with outMsgs := [] }, r.writes)) hcleared v.outMsgs
    rintro ⟨u, writes⟩ msg hu
    have hwrite := TcpOp.kept_writeMsg rt.toProtobuf u.tcpOp u.sock msg writes
    exact hu.of_grown hwrite rfl fun _ => id
  rw [← hv] at hloop
  exact hloop

/-- A pass of a worker takes messages away. -/
theorem waiting_workerLoop {i : ℕ} {msg : UserMsg} (h : Waiting (l.workerLoop i) msg) :
    Waiting l msg := by
  unfold workerLoop at h
  cases hw : l.workers[i]? with
  | none =>
      rw [hw] at h
      exact h
  | some w =>
      rw [hw] at h
      obtain ⟨v, hv, hmsg⟩ := h
      rcases List.mem_or_eq_of_mem_set hv with hold | rfl
      · exact ⟨v, hold, hmsg⟩
      · -- its own queue is empty now; what the IO thread added is still there
        obtain ⟨hin, hio⟩ := w.handlerMsgs_queues
        refine ⟨w, List.mem_of_getElem? hw, List.mem_append_right _ ?_⟩
        rw [LogicWorker.handlerReply, hin, hio, List.nil_append] at hmsg
        exact hmsg

/-- Whatever a worker is about to handle is waiting. -/
theorem waiting_of_mem_batch {i : ℕ} {msg : UserMsg} (h : msg ∈ l.batch i) : Waiting l msg := by
  unfold batch at h
  cases hw : l.workers[i]? with
  | none =>
      rw [hw] at h
      exact absurd h List.not_mem_nil
  | some w =>
      rw [hw] at h
      exact ⟨w, List.mem_of_getElem? hw, List.mem_append_left _ h⟩

/-- A pass of a worker adds its batch to what has been handled. -/
theorem sound_workerLoop (h : Sound rt handled l) (i : ℕ) :
    Sound rt (handled ++ l.batch i) (l.workerLoop i) := by
  have hfields : (l.workerLoop i).connUser = l.connUser ∧
      (l.workerLoop i).msgCenter = l.msgCenter := by
    unfold workerLoop
    split
    · exact ⟨rfl, rfl⟩
    · exact ⟨rfl, rfl⟩
  have hsock : (l.workerLoop i).sock = l.sock := by rw [sock, hfields.1]; rfl
  refine ⟨?_, ?_, ?_⟩
  · rw [hsock]
    exact h.stream
  · rw [hfields.2]
    exact h.room
  · intro msg hmsg
    -- the batch had been waiting
    have hbefore : Waiting l msg ∨ msg ∈ handled := by
      rcases hmsg with hwait | hdone
      · exact .inl (waiting_workerLoop hwait)
      · rcases List.mem_append.mp hdone with hold | hbatch
        · exact .inr hold
        · exact .inl (waiting_of_mem_batch hbatch)
    apply (h.arrived msg hbefore).evolve
    · rw [hsock]
    · rw [hsock]

theorem sound_verifyToGate (h : Sound rt handled l) (writes : List WriteRes) :
    Sound rt handled (l.verifyToGate rt writes).2 := by
  unfold verifyToGate
  cases MsgCenter.genMsg .systemVerifyReq with
  | none => exact h
  | some req =>
      have hwrite := TcpOp.kept_writeMsg rt.toProtobuf l.tcpOp l.sock
        { req with msg := req.msg.setMacaddr macaddr } writes
      exact h.of_grown hwrite rfl fun _ => id

theorem sound_init {sockFd : Int32} {writes : List WriteRes}
    (h : init rt sockFd writes = some l) : Sound rt [] l := by
  have hconnected : Sound rt [] (connected sockFd) := by
    refine ⟨⟨[], rfl⟩, Nat.le_refl _, ?_⟩
    rintro msg (⟨w, hw, _⟩ | hmsg)
    · exact absurd hw List.not_mem_nil
    · exact absurd hmsg List.not_mem_nil
  have hverified := sound_verifyToGate hconnected writes
  unfold init at h
  generalize (connected sockFd).verifyToGate rt writes = p at h hverified
  obtain ⟨ok, v⟩ := p
  simp only at h
  split_ifs at h
  rw [← Option.some.inj h]
  have hkept : v.sock.Kept { v with workers := [LogicWorker.new workerName] }.sock :=
    Kept.of_eq rfl rfl rfl rfl
  apply hverified.of_grown hkept rfl
  -- the new worker has nothing to do yet
  rintro msg ⟨w, hw, hmsg⟩
  rw [List.mem_singleton.mp hw] at hmsg
  exact absurd hmsg List.not_mem_nil

end LogicIO

end Rubo.Server
