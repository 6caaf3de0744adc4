import Rubo.Server.Gate
import Rubo.Server.GateWorker

/-!
# GateIO

The accepting side of the Gate, `server/Gate/GateIO.cpp`: it owns the
connections that have not logged in, hands their requests to the handlers of
`Gate`, and promotes a connection to a worker when its login succeeds.

Two tables of different kind hold the connections: `_unlogin_users` is keyed by
descriptor number, `_unlogin_reads` is a list of user objects. The second one is
never cleared, so it outlives the first.
-/

namespace Rubo.Server

open Rubo.Foundation Rubo.Msgs Rubo.Util

/-- History of one call of `on_user_logined` that found a worker: the user
object promoted, the reply it was promoted for, and the event for the worker. -/
structure Promotion where
  user : Ptr
  rsp : UserMsg
  event : EventNode

/-- The fields of a `GateIO`, the message centre of its server, and the heap its
users live in. -/
structure GateIO where
  msgCenter : MsgCenter
  tcpOp : TcpOp
  heap : Heap User
  unloginUsers : Table Int32 Ptr
  unloginEvents : List Ptr
  unloginReads : List Ptr
  rspMsgs : List UserMsg
  wokers : List GateWorker
  promotions : List Promotion

/-- What the environment contributes to one round: what `epoll_wait` reports,
the outcomes of `accept`, the kernel's answers to the `event_op` of each
descriptor, the database's answers to each message, the kernel's answers to the
replies, and whether a new worker's `init` succeeds. -/
structure IoRound where
  ready : EpollBatch := .none
  accepts : List AcceptRes := []
  io : Int32 → KernelIo := fun _ => {}
  dbs : List MysqlDb := []
  writes : List WriteRes := []
  workerInit : Int32 → Bool := fun _ => true

/-- The events `epoll_wait` reports. -/
def IoRound.events (r : IoRound) : List EpollEvent := r.ready.events

namespace GateIO

variable (rt : Runtime)

/-- A successful `init()` that listens on `sockFd`. -/
def init (sockFd : Int32) : GateIO where
  msgCenter := .new
  tcpOp := ({ TcpOp.new with sockFd := sockFd }.addEpev sockFd).2
  heap := .empty {}
  unloginUsers := .empty
  unloginEvents := []
  unloginReads := []
  rspMsgs := []
  wokers := []
  promotions := []

/-- The socket node of a user. -/
def node (g : GateIO) (user : Ptr) : SocketNode := (g.heap.obj user).node

/-- Change the socket node of a user. -/
def setNode (g : GateIO) (user : Ptr) (sock : SocketNode) : GateIO :=
  { g with heap := g.heap.set user { g.heap.obj user with sock := some sock } }

/-- `get_unlogin_user(sfd)` -/
def getUnloginUser (g : GateIO) (sfd : Int32) : Option Ptr := g.unloginUsers.find sfd

/-- `get_worker(sfd)` -/
def getWorker (g : GateIO) (sfd : Int32) : Option ℕ :=
  Comm.findWorker (fun w => w.isFdIn sfd || w.getLogicfd == sfd) GateWorker.fdNum g.wokers

/-- Change one worker. -/
def modifyWorker (g : GateIO) (i : ℕ) (f : GateWorker → GateWorker) : GateIO :=
  { g with wokers := g.wokers.modify i f }

/-! ## Connections -/

/-- `on_accept()`. `insert` keeps an entry that is already there. -/
def onAccept (g : GateIO) (res : AcceptRes) : GateIO :=
  match g.tcpOp.accept res with
  | (none, tcpOp) => { g with tcpOp := tcpOp }
  | (some connNode, tcpOp) =>
    let (user, heap) := g.heap.alloc { sock := some connNode }
    { g with
      tcpOp := tcpOp
      heap := heap
      unloginUsers := g.unloginUsers.insert connNode.sfd user }

/-- `on_conn_offline(user)`: it erases whoever is stored under the descriptor. -/
def onConnOffline (g : GateIO) (user : Ptr) : GateIO :=
  { g with unloginUsers := g.unloginUsers.erase (g.node user).sfd }

/-- `kick_out(user)` -/
def kickOut (g : GateIO) (user : Ptr) : GateIO :=
  { g with tcpOp := g.tcpOp.closeOp (g.node user).sfd }.onConnOffline user

/-- `on_logic_verifyed(user)` -/
def onLogicVerifyed (g : GateIO) (user : Ptr) (workerInit : Int32 → Bool) : GateIO :=
  let logicFd := (g.node user).sfd
  let g := { g with
    unloginUsers := g.unloginUsers.erase logicFd
    tcpOp := g.tcpOp.delEpev logicFd }
  -- a worker that cannot start is dropped, and the descriptor with it
  if workerInit logicFd = false then g
  else { g with wokers := g.wokers ++ [GateWorker.init logicFd] }

/-- `on_user_logined(user, user_id)`; `user_id` is not used. The reply is passed
for the history only. -/
def onUserLogined (g : GateIO) (user : Ptr) (_userId : Int32) (rsp : UserMsg) : GateIO :=
  let fd := (g.node user).sfd
  let g := { g with unloginUsers := g.unloginUsers.erase fd }
  -- the worker that knows the descriptor already, or the one with the fewest
  match g.getWorker fd with
  | none => g
  | some worker =>
    let oneEvent : EventNode :=
      { uid := (g.heap.obj user).uid, sfd := fd, event := FdEvent.connect }
    let g := g.modifyWorker worker fun w =>
      { w with eventsIo := w.eventsIo ++ [oneEvent], fdSet := insert fd w.fdSet }
    { g with
      tcpOp := g.tcpOp.delEpev fd
      promotions := g.promotions ++ [⟨user, rsp, oneEvent⟩] }

/-! ## The stages of a round -/

/-- `unlogin_sockop(user, fdevent)` -/
def unloginSockop (g : GateIO) (user : Ptr) (ev : EpollEvent) : GateIO :=
  let g := g.setNode user { g.node user with event := ev.mark (g.node user).event }
  { g with unloginEvents := g.unloginEvents ++ [user] }

/-- `logined_sockop(sock_fd, fdevent)` -/
def loginedSockop (g : GateIO) (ev : EpollEvent) : GateIO :=
  match g.getWorker ev.fd with
  | none => g
  | some worker =>
    g.modifyWorker worker fun w =>
      { w with eventsIo := w.eventsIo ++ [{ sfd := ev.fd, event := ev.mark FdEvent.none }] }

/-- One event of `epoll_one`; an outcome of `accept` is used up when it is called. -/
def epollEvent (s : GateIO × List AcceptRes) (ev : EpollEvent) : GateIO × List AcceptRes :=
  let (g, accepts) := s
  if ev.fd = g.tcpOp.sockFd then
    (g.onAccept (accepts.headD .fail), accepts.tail)
  else
    match g.getUnloginUser ev.fd with
    | some user => (g.unloginSockop user ev, accepts)
    | none => (g.loginedSockop ev, accepts)

/-- `epoll_one()` -/
def epollOne (g : GateIO) (events : List EpollEvent) (accepts : List AcceptRes) : GateIO :=
  (events.foldl epollEvent (g, accepts)).1

/-- One user of the loop of `handler_data`. -/
def serveUnlogin (io : Int32 → KernelIo) (g : GateIO) (user : Ptr) : GateIO :=
  let (ret, tcpOp, sock) := g.tcpOp.eventOp (g.node user) (io (g.node user).sfd)
  let g := { g.setNode user sock with tcpOp := tcpOp }
  -- `event_op` has closed the descriptor already
  if ret.has FdEvent.error then g.onConnOffline user
  -- the same user may be put on the list in every round
  else if ret.has FdEvent.read then { g with unloginReads := g.unloginReads ++ [user] }
  else g

/-- The loop of `handler_data`. -/
def serveUnlogins (g : GateIO) (io : Int32 → KernelIo) : GateIO :=
  { g.unloginEvents.foldl (serveUnlogin io) g with unloginEvents := [] }

/-- What `handler_unlogin_msgs` does with the messages of one user. -/
def takeUnlogin (s : GateIO × List MysqlDb) (user : Ptr) (msgs : List UserMsg) :
    GateIO × List MysqlDb :=
  let (g, dbs) := s
  match msgs with
  | [] => (g, dbs)
  -- an unlogined user sends one message at a time
  | _ :: _ :: _ => (g.kickOut user, dbs)
  | [msg] =>
    -- and nothing behind it
    if (g.node user).rdBuff.dataSize ≠ 0 then
      (g.kickOut user, dbs)
    else if msg.msgId ≠ ProtocolDefine.systemVerifyReq.toInt ∧
        msg.msgId ≠ ProtocolDefine.userLoginReq.toInt ∧
        msg.msgId ≠ ProtocolDefine.userRegisterReq.toInt then
      (g.kickOut user, dbs)
    else
      match Gate.getMsgHandler msg.msgId with
      | none => (g.kickOut user, dbs)
      | some msgFunc =>
        let (heap, rspMsgs) := msgFunc (dbs.headD {}) msg user (g.heap, g.rspMsgs)
        ({ g with heap := heap, rspMsgs := rspMsgs }, dbs.tail)

/-- One user of `handler_unlogin_msgs`. -/
def parseUnlogin (s : GateIO × List MysqlDb) (user : Ptr) : GateIO × List MysqlDb :=
  let (g, dbs) := s
  let (msgs, msgCenter, sock) := g.msgCenter.parsePackage rt user (g.node user)
  takeUnlogin ({ g.setNode user sock with msgCenter := msgCenter }, dbs) user msgs

/-- `handler_unlogin_msgs()`: `_unlogin_reads` stays as it is. -/
def handlerUnloginMsgs (g : GateIO) (dbs : List MysqlDb) : GateIO :=
  (g.unloginReads.foldl (parseUnlogin rt) (g, dbs)).1

/-- `handler_data()` -/
def handlerData (g : GateIO) (io : Int32 → KernelIo) (dbs : List MysqlDb) : GateIO :=
  (g.serveUnlogins io).handlerUnloginMsgs rt dbs

/-- What a reply means for the connection it goes to. -/
def applyReply (g : GateIO) (workerInit : Int32 → Bool) (user : Ptr) (msg : UserMsg) : GateIO :=
  if msg.msgId = ProtocolDefine.systemVerifyRsp.toInt then
    if msg.msg.isOK = true then g.onLogicVerifyed user workerInit else g
  else if msg.msgId = ProtocolDefine.userLoginRsp.toInt then
    if msg.msg.isOK = true then g.onUserLogined user msg.msg.userId msg else g
  else g

/-- One message of `handler_replys`. -/
def handlerReply (workerInit : Int32 → Bool) (s : GateIO × List WriteRes) (msg : UserMsg) :
    GateIO × List WriteRes :=
  let (g, writes) := s
  match g.getUnloginUser msg.sfd with
  | none => (g, writes)
  | some user =>
    -- the reply is written last, whatever became of the connection
    let g := g.applyReply workerInit user msg
    let (_, tcpOp, sock, writes) := g.tcpOp.writeMsg rt.toProtobuf (g.node user) msg writes
    ({ g.setNode user sock with tcpOp := tcpOp }, writes)

/-- `handler_replys()` -/
def handlerReplys (g : GateIO) (workerInit : Int32 → Bool) (writes : List WriteRes) : GateIO :=
  { (g.rspMsgs.foldl (handlerReply rt workerInit) (g, writes)).1 with rspMsgs := [] }

/-- `notify_workers()` -/
def notifyWorkers (g : GateIO) : GateIO :=
  { g with wokers := g.wokers.map fun w => if w.eventsIo = [] then w else w.moveIoEventToIn }

/-- `run()` -/
def run (g : GateIO) (r : IoRound) : GateIO :=
  let g := g.epollOne r.events r.accepts
  let g := g.handlerData rt r.io r.dbs
  let g := g.handlerReplys rt r.workerInit r.writes
  g.notifyWorkers

/-! ## The IO thread and its workers -/

/-- A step of the Gate: a round of the IO thread, or of one of the workers. -/
inductive Act where
  | io (r : IoRound)
  | worker (i : ℕ) (r : WorkerRound)

/-- What a worker closes in a round. `handler_msgs`, which comes last, closes nothing. -/
def workerClosed (w : GateWorker) (r : WorkerRound) : List Int32 :=
  w.tcpOp.closedSince (w.gathered rt r).tcpOp

/-- The threads take turns, round by round. A worker's events come from the IO
thread; a descriptor it closes leaves the epoll set of the IO thread as well. -/
def step (g : GateIO) : Act → GateIO
  | .io r => g.run rt r
  | .worker i r =>
    match g.wokers[i]? with
    | none => g
    | some w =>
      let r := { r with ioevs := [] }
      { g.modifyWorker i fun w => w.threadLoop rt r with
        tcpOp := (workerClosed rt w r).foldl TcpOp.delEpev g.tcpOp }

end GateIO

end Rubo.Server
