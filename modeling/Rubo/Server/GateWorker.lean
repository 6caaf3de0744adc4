import Mathlib.Data.Finset.Card
import Rubo.Util.TcpOp
import Rubo.Util.UserManager

/-!
# GateWorker

The loop of `server/Gate/GateWorker.cpp`. A worker serves one connection to a
Logic process and the user connections handed to it by the IO thread; it
forwards what users send to Logic and distributes what Logic answers.

A round of the loop runs its stages in a fixed order: new connections, socket
events, parsing, forwarding. Two lists decide what reaches Logic and when:

- `_user_msgs_in` collects, in this order, the online messages of new
  connections, the offline messages of connections that ended in this round,
  and the frames parsed in this round;
- `_rd_users` lists the users to parse; it is appended to and never cleared.
-/

namespace Rubo.Server

open Rubo.Foundation Rubo.Msgs Rubo.Util

/-- The fields of a `GateWorker`, the heap its users live in, and two history
variables: the messages handed to `write(_logic->_sock, msg)` and the users
`on_conn_offline` was called for. -/
structure GateWorker where
  logicFd : Int32
  msgCenter : MsgCenter
  tcpOp : TcpOp
  heap : Heap User
  logic : Ptr
  users : UserManager
  userMsgsIn : List UserMsg
  logicMsgsIn : List UserMsg
  ioevsIn : List EventNode
  fdSet : Finset Int32
  eventsIo : List EventNode
  epevUsers : List Ptr
  rdUsers : List Ptr
  toLogic : List UserMsg
  offline : List Ptr

/-- What the environment contributes to one round: the events the IO thread has
handed over, what `epoll_wait` reports, the kernel's answers to the `event_op`
of each descriptor, and its answers to the writes of `handler_msgs`. -/
structure WorkerRound where
  ioevs : List EventNode := []
  ready : EpollBatch := .none
  io : Int32 → KernelIo := fun _ => {}
  writes : List WriteRes := []

/-- The events `epoll_wait` reports. -/
def WorkerRound.events (r : WorkerRound) : List EpollEvent := r.ready.events

theorem WorkerRound.nodup_events (r : WorkerRound) : (r.events.map EpollEvent.fd).Nodup :=
  r.ready.nodup

namespace GateWorker

variable (rt : Runtime)

/-- The user object of the Logic connection, as `init` makes it. -/
def logicUser (logicFd : Int32) : User :=
  { connStatus := .logined, sock := some { sfd := logicFd, type := .system } }

/-- The constructor and a successful `init()`. -/
def init (logicFd : Int32) : GateWorker :=
  let (logic, heap) := (Heap.empty {}).alloc (logicUser logicFd)
  { logicFd := logicFd
    msgCenter := .new
    tcpOp := (TcpOp.new.addEpev logicFd).2
    heap := heap
    logic := logic
    users := UserManager.new.addUser heap logic
    userMsgsIn := []
    logicMsgsIn := []
    ioevsIn := []
    fdSet := ∅
    eventsIo := []
    epevUsers := []
    rdUsers := []
    toLogic := []
    offline := [] }

/-- The socket node of a user. -/
def node (w : GateWorker) (user : Ptr) : SocketNode := (w.heap.obj user).node

/-- Change the socket node of a user. -/
def setNode (w : GateWorker) (user : Ptr) (sock : SocketNode) : GateWorker :=
  { w with heap := w.heap.set user { w.heap.obj user with sock := some sock } }

/-- `is_fd_in(fd)` -/
def isFdIn (w : GateWorker) (fd : Int32) : Bool := fd ∈ w.fdSet

/-- `fd_num()` -/
def fdNum (w : GateWorker) : ℕ := w.fdSet.card

/-- `del_fd(fd)` -/
def delFd (w : GateWorker) (fd : Int32) : GateWorker := { w with fdSet := w.fdSet.erase fd }

/-- `get_logicfd()` -/
def getLogicfd (w : GateWorker) : Int32 := w.logicFd

/-- `move_io_event_to_in()` -/
def moveIoEventToIn (w : GateWorker) : GateWorker :=
  { w with ioevsIn := w.ioevsIn ++ w.eventsIo, eventsIo := [] }

/-! ## Connections -/

/-- Queue a presence message about a user: `gen_msg`, then both uids. The result
of `gen_msg` is not checked; both ids are registered. -/
def queuePresence (w : GateWorker) (id : ProtocolDefine) (user : Ptr) (uid : Int32) : GateWorker :=
  match MsgCenter.genMsg id with
  | none => w
  | some userMsg =>
    { w with userMsgsIn := w.userMsgsIn ++
        [{ userMsg with msg := userMsg.msg.setUid uid, uid := uid, src := .gate user }] }

/-- `on_new_connect(ev)`. The peer address, which nothing reads, is left out. -/
def onNewConnect (w : GateWorker) (ev : EventNode) : GateWorker :=
  let (user, heap) := w.heap.alloc
    { uid := ev.uid
      connStatus := .logined
      sock := some { sfd := ev.sfd, type := .user } }
  -- `add_conn` may find the uid or the descriptor taken; nothing is checked
  let w := { w with
    heap := heap
    users := w.users.addConn heap user
    tcpOp := (w.tcpOp.addEpev ev.sfd).2 }
  w.queuePresence .userOnlineReq user ev.uid

/-- `on_conn_offline(user)` -/
def onConnOffline (w : GateWorker) (user : Ptr) : GateWorker :=
  let sock := w.node user
  let w := { w with
    users := w.users.delConn w.heap sock.sfd
    offline := w.offline ++ [user] }
  -- the Logic connection ends without a message
  if sock.type = .system then w
  else
    let w := w.queuePresence .userOfflineReq user (w.heap.obj user).uid
    w.delFd sock.sfd

/-! ## The stages of a round -/

/-- One event of `handler_ioevent`. -/
def ioevent (w : GateWorker) (ev : EventNode) : GateWorker :=
  if ev.event.has FdEvent.connect then w.onNewConnect ev else w

/-- `handler_ioevent()` -/
def handlerIoevent (w : GateWorker) : GateWorker :=
  w.ioevsIn.foldl ioevent { w with ioevsIn := [] }

/-- One event of the first loop of `handler_epevent`. -/
def markEvent (w : GateWorker) (ev : EpollEvent) : GateWorker :=
  match w.users.getUserBySock ev.fd with
  | none => w
  | some user =>
    let sockNode := { w.node user with event := ev.mark (w.node user).event }
    let w := w.setNode user sockNode
    -- flags left from an earlier round count as well
    if sockNode.event ≠ FdEvent.none then { w with epevUsers := w.epevUsers ++ [user] } else w

/-- One user of the second loop of `handler_epevent`. -/
def serveUser (io : Int32 → KernelIo) (w : GateWorker) (user : Ptr) : GateWorker :=
  let (ret, tcpOp, sock) := w.tcpOp.eventOp (w.node user) (io (w.node user).sfd)
  let w := { w.setNode user sock with tcpOp := tcpOp }
  -- what was read before the error stays in the read buffer
  if ret.has FdEvent.error then w.onConnOffline user
  else if ret.has FdEvent.read then { w with rdUsers := w.rdUsers ++ [user] }
  else w

/-- `handler_epevent()` -/
def handlerEpevent (w : GateWorker) (events : List EpollEvent) (io : Int32 → KernelIo) :
    GateWorker :=
  let w := events.foldl markEvent w
  { w.epevUsers.foldl (serveUser io) w with epevUsers := [] }

/-- What `handler_epdata` does with one parsed message. -/
def takeMsg (user : Ptr) (w : GateWorker) (m : UserMsg) : GateWorker :=
  if (w.node user).type = .system then
    { w with logicMsgsIn := w.logicMsgsIn ++ [m] }
  -- a user may only speak for itself
  else if (w.heap.obj user).uid ≠ m.uid then
    w
  else
    { w with userMsgsIn := w.userMsgsIn ++ [m] }

/-- One user of `handler_epdata`. -/
def parseUser (w : GateWorker) (user : Ptr) : GateWorker :=
  let (msgs, msgCenter, sock) := w.msgCenter.parsePackage rt user (w.node user)
  let w := { w.setNode user sock with msgCenter := msgCenter }
  msgs.foldl (takeMsg user) w

/-- `handler_epdata()`: `_rd_users` stays as it is. -/
def handlerEpdata (w : GateWorker) : GateWorker :=
  w.rdUsers.foldl (parseUser rt) w

/-- Forward one message to Logic. -/
def sendToLogic (s : GateWorker × List WriteRes) (msg : UserMsg) : GateWorker × List WriteRes :=
  let (w, writes) := s
  let (_, tcpOp, sock, writes) := w.tcpOp.writeMsg rt.toProtobuf (w.node w.logic) msg writes
  ({ w.setNode w.logic sock with tcpOp := tcpOp, toLogic := w.toLogic ++ [msg] }, writes)

/-- Distribute one message of Logic. -/
def sendToUser (s : GateWorker × List WriteRes) (msg : UserMsg) : GateWorker × List WriteRes :=
  let (w, writes) := s
  -- a message for an unknown uid is dropped
  match w.users.getUserByUid msg.uid with
  | none => (w, writes)
  | some user =>
    match (w.heap.obj user).sock with
    | none => (w, writes)
    | some sock =>
      let (_, tcpOp, sock, writes) := w.tcpOp.writeMsg rt.toProtobuf sock msg writes
      ({ w.setNode user sock with tcpOp := tcpOp }, writes)

/-- `handler_msgs()` -/
def handlerMsgs (w : GateWorker) (writes : List WriteRes) : GateWorker :=
  let (w, writes) := w.userMsgsIn.foldl (sendToLogic rt) (w, writes)
  let w := { w with userMsgsIn := [] }
  -- the other direction, with the answers the first loop left
  let (w, _) := w.logicMsgsIn.foldl (sendToUser rt) (w, writes)
  { w with logicMsgsIn := [] }

/-- The worker when it begins to serve the users of a round. -/
def marked (w : GateWorker) (r : WorkerRound) : GateWorker :=
  r.events.foldl markEvent
    (handlerIoevent { w with ioevsIn := w.ioevsIn ++ r.ioevs })

/-- The worker when it begins to parse. -/
def readIn (w : GateWorker) (r : WorkerRound) : GateWorker :=
  { (w.marked r).epevUsers.foldl (serveUser r.io) (w.marked r) with epevUsers := [] }

/-- The worker when everything for Logic has been collected. -/
def gathered (w : GateWorker) (r : WorkerRound) : GateWorker := (w.readIn r).handlerEpdata rt

/-- `thread_loop()`; `handler_iodata()` is empty. -/
def threadLoop (w : GateWorker) (r : WorkerRound) : GateWorker :=
  let w := { w with ioevsIn := w.ioevsIn ++ r.ioevs }
  let w := w.handlerIoevent
  let w := w.handlerEpevent r.events r.io
  let w := w.handlerEpdata rt
  w.handlerMsgs rt r.writes

end GateWorker

end Rubo.Server
