import Mathlib.Data.Finset.Card
import Rubo.Msgs.MsgCenter
import Rubo.Util.UserManager

/-!
# LogicWorker

The message handlers of `server/Logic/LogicWorker.cpp`. A worker keeps a table
of users by uid. The table's keys come from message bodies, as do the uids
inside the user objects; who may speak at all is decided by the header uid.

Two properties of the table are studied: that each user carries the uid it is
stored under, which decides where answers go, and that the table follows the
presence messages. Both depend on `on_user_offline`, which writes the uid of the
message body into the user object and leaves the table as it is.
-/

namespace Rubo.Server

open Rubo.Foundation Rubo.Msgs Rubo.Util

/-- The fields of a `LogicWorker`, and the function-static counter of
`on_user_dosth`. All workers of a process share that counter; it is a field here
because `Logic::init` makes exactly one. -/
structure LogicWorker where
  name : List UInt8
  heap : Heap User
  /-- `_uids`, which only the dispatcher of `LogicIO` asks about. -/
  uids : Finset Int32
  users : UserManager
  msgsIn : List UserMsg
  ioMsgs : List UserMsg
  outMsgs : List UserMsg
  dosthId : Int32

namespace LogicWorker

def new (name : List UInt8) : LogicWorker where
  name := name
  heap := .empty {}
  uids := ∅
  users := .new
  msgsIn := []
  ioMsgs := []
  outMsgs := []
  dosthId := 100

/-- `is_uid_in(uid)` -/
def isUidIn (w : LogicWorker) (uid : Int32) : Bool := uid ∈ w.uids

/-- `user_num()` -/
def userNum (w : LogicWorker) : ℕ := w.uids.card

/-! ## Handlers -/

/-- `on_user_online(pmsg, user)` -/
def onUserOnline (w : LogicWorker) (pmsg : UserMsg) (_user : Option Ptr) : LogicWorker :=
  let (loginUser, heap) := w.heap.alloc { uid := pmsg.msg.uid, connStatus := .logined }
  -- an entry that is there is kept
  { w with heap := heap, users := w.users.addUser heap loginUser }

/-- `on_user_offline(pmsg, user)`. The dispatcher never passes a null `user`. -/
def onUserOffline (w : LogicWorker) (pmsg : UserMsg) (user : Option Ptr) : LogicWorker :=
  match user with
  | none => w
  | some user =>
    -- the table is not touched
    { w with heap := w.heap.set user { w.heap.obj user with uid := pmsg.msg.uid } }

/-- `"DoSthRsp From "` -/
def dosthRspFrom : List UInt8 :=
  [68, 111, 83, 116, 104, 82, 115, 112, 32, 70, 114, 111, 109, 32]

/-- `on_user_dosth(pmsg, user)`. The dispatcher never passes a null `user`. -/
def onUserDosth (w : LogicWorker) (pmsg : UserMsg) (user : Option Ptr) : LogicWorker :=
  match user, MsgCenter.genMsg .userDosthRsp with
  | some user, some rsp =>
    let rmsg := (rsp.msg.set 1 (.int32 w.dosthId)).set 2
      (.string (dosthRspFrom ++ w.name ++ pmsg.msg.sth))
    let rsp := { rsp with uid := (w.heap.obj user).uid, msg := rmsg }
    { w with dosthId := w.dosthId + 1, outMsgs := w.outMsgs ++ [rsp] }
  | _, _ => w

/-- `get_msg_handler(msg_id)`: the table `register_handlers` fills. -/
def getMsgHandler (msgId : Int32) : Option (LogicWorker → UserMsg → Option Ptr → LogicWorker) :=
  match ProtocolDefine.ofInt msgId with
  | some .userOnlineReq => some onUserOnline
  | some .userOfflineReq => some onUserOffline
  | some .userDosthReq => some onUserDosth
  | _ => none

/-- `handler_one_msg(msg)` -/
def handlerOneMsg (w : LogicWorker) (msg : UserMsg) : LogicWorker :=
  match getMsgHandler msg.msgId with
  | none => w
  | some msgFunc =>
    let user := w.users.getUserByUid msg.uid
    -- only an online message may come from an unknown uid
    if user = none ∧ msg.msgId ≠ ProtocolDefine.userOnlineReq.toInt then w
    else msgFunc w msg user

/-- `handler_msgs()`: the messages handed over, handled in order. -/
def handlerMsgs (w : LogicWorker) : LogicWorker :=
  w.msgsIn.foldl handlerOneMsg { w with msgsIn := [] }

/-- `notify_msg_in()` -/
def notifyMsgIn (w : LogicWorker) : LogicWorker :=
  { w with msgsIn := w.msgsIn ++ w.ioMsgs, ioMsgs := [] }

/-- `handler_reply()`: the answers handed to the server, and the worker without them. -/
def handlerReply (w : LogicWorker) : List UserMsg × LogicWorker :=
  (w.outMsgs, { w with outMsgs := [] })

/-- The answers a message leads to. -/
def replies (w : LogicWorker) (msg : UserMsg) : List UserMsg :=
  (w.handlerOneMsg msg).outMsgs.drop w.outMsgs.length

/-! ## What one message can do -/

/-- The message is a `UserOnlineReq`. -/
def IsOnline (msg : UserMsg) : Prop := msg.msgId = ProtocolDefine.userOnlineReq.toInt

/-- The message is a `UserOfflineReq`. -/
def IsOffline (msg : UserMsg) : Prop := msg.msgId = ProtocolDefine.userOfflineReq.toInt

/-- The message is a `DoSthReq`. -/
def IsDosth (msg : UserMsg) : Prop := msg.msgId = ProtocolDefine.userDosthReq.toInt

instance : DecidablePred IsOnline := fun msg => inferInstanceAs (Decidable (msg.msgId = _))
instance : DecidablePred IsOffline := fun msg => inferInstanceAs (Decidable (msg.msgId = _))
instance : DecidablePred IsDosth := fun msg => inferInstanceAs (Decidable (msg.msgId = _))

theorem handlerOneMsg_online {w : LogicWorker} {msg : UserMsg} (h : IsOnline msg) :
    w.handlerOneMsg msg = w.onUserOnline msg none := by
  have hf : getMsgHandler msg.msgId = some onUserOnline := by rw [h]; rfl
  rw [handlerOneMsg, hf]
  exact if_neg fun hne => hne.2 h

/-- Any other message of a uid that is not in the table is dropped. -/
theorem handlerOneMsg_of_find_none {w : LogicWorker} {msg : UserMsg} (h : ¬ IsOnline msg)
    (hfind : w.users.uidUsers.find msg.uid = none) : w.handlerOneMsg msg = w := by
  unfold handlerOneMsg
  cases getMsgHandler msg.msgId with
  | none => rfl
  | some f => exact if_pos ⟨hfind, h⟩

theorem handlerOneMsg_offline {w : LogicWorker} {msg : UserMsg} {p : Ptr} (h : IsOffline msg)
    (hfind : w.users.uidUsers.find msg.uid = some p) :
    w.handlerOneMsg msg = w.onUserOffline msg (some p) := by
  have hf : getMsgHandler msg.msgId = some onUserOffline := by rw [h]; rfl
  rw [handlerOneMsg, hf]
  simp only [UserManager.getUserByUid, hfind]
  exact if_neg fun hne => Option.some_ne_none p hne.1

theorem handlerOneMsg_dosth {w : LogicWorker} {msg : UserMsg} {p : Ptr} (h : IsDosth msg)
    (hfind : w.users.uidUsers.find msg.uid = some p) :
    w.handlerOneMsg msg = w.onUserDosth msg (some p) := by
  have hf : getMsgHandler msg.msgId = some onUserDosth := by rw [h]; rfl
  rw [handlerOneMsg, hf]
  simp only [UserManager.getUserByUid, hfind]
  exact if_neg fun hne => Option.some_ne_none p hne.1

/-- Messages without a handler are dropped. -/
theorem handlerOneMsg_other {w : LogicWorker} {msg : UserMsg} (hon : ¬ IsOnline msg)
    (hoff : ¬ IsOffline msg) (hdo : ¬ IsDosth msg) : w.handlerOneMsg msg = w := by
  -- the handler table has three entries
  have hf : getMsgHandler msg.msgId = none := by
    unfold getMsgHandler
    cases hp : ProtocolDefine.ofInt msg.msgId with
    | none => rfl
    | some p =>
        have hid := ProtocolDefine.ofInt_eq_some.mp hp
        cases p with
        | userOnlineReq => exact absurd hid.symm hon
        | userOfflineReq => exact absurd hid.symm hoff
        | userDosthReq => exact absurd hid.symm hdo
        | _ => rfl
  rw [handlerOneMsg, hf]

/-- Everything one message can do. -/
theorem handlerOneMsg_cases (w : LogicWorker) (msg : UserMsg) :
    (IsOnline msg ∧ w.handlerOneMsg msg = w.onUserOnline msg none) ∨
    (IsOffline msg ∧ ∃ p, w.users.uidUsers.find msg.uid = some p ∧
      w.handlerOneMsg msg = w.onUserOffline msg (some p)) ∨
    (IsDosth msg ∧ ∃ p, w.users.uidUsers.find msg.uid = some p ∧
      w.handlerOneMsg msg = w.onUserDosth msg (some p)) ∨
    (¬ IsOnline msg ∧ (IsOffline msg ∨ IsDosth msg → w.users.uidUsers.find msg.uid = none) ∧
      w.handlerOneMsg msg = w) := by
  by_cases hon : IsOnline msg
  · exact .inl ⟨hon, handlerOneMsg_online hon⟩
  · cases hfind : w.users.uidUsers.find msg.uid with
    | none => exact .inr (.inr (.inr ⟨hon, fun _ => rfl, handlerOneMsg_of_find_none hon hfind⟩))
    | some p =>
        by_cases hoff : IsOffline msg
        · exact .inr (.inl ⟨hoff, p, rfl, handlerOneMsg_offline hoff hfind⟩)
        · by_cases hdo : IsDosth msg
          · exact .inr (.inr (.inl ⟨hdo, p, rfl, handlerOneMsg_dosth hdo hfind⟩))
          · refine .inr (.inr (.inr ⟨hon, ?_, handlerOneMsg_other hon hoff hdo⟩))
            rintro (h | h)
            · exact absurd h hoff
            · exact absurd h hdo

/-- Handling a message leaves the queues alone, and its answers go behind those
already there. -/
theorem handlerOneMsg_queues (w : LogicWorker) (msg : UserMsg) :
    (w.handlerOneMsg msg).msgsIn = w.msgsIn ∧ (w.handlerOneMsg msg).ioMsgs = w.ioMsgs ∧
      (w.handlerOneMsg msg).outMsgs = w.outMsgs ++ w.replies msg := by
  unfold replies
  rcases handlerOneMsg_cases w msg with ⟨_, h⟩ | ⟨_, p, _, h⟩ | ⟨_, p, _, h⟩ | ⟨_, _, h⟩ <;> rw [h]
  · simp [onUserOnline]
  · simp [onUserOffline]
  · -- the only handler that answers
    obtain ⟨rsp, hrsp⟩ : ∃ rsp, (w.onUserDosth msg (some p)).outMsgs = w.outMsgs ++ [rsp] := ⟨_, rfl⟩
    rw [hrsp, List.drop_left]
    exact ⟨rfl, rfl, rfl⟩
  · simp

/-- So does handling all of them. -/
theorem handlerMsgs_queues (w : LogicWorker) :
    w.handlerMsgs.msgsIn = [] ∧ w.handlerMsgs.ioMsgs = w.ioMsgs := by
  refine run_invariant (I := fun v : LogicWorker => v.msgsIn = [] ∧ v.ioMsgs = w.ioMsgs) ?_
    (s := { w with msgsIn := [] }) ⟨rfl, rfl⟩ w.msgsIn
  rintro v msg ⟨hin, hio⟩
  obtain ⟨hin', hio', _⟩ := handlerOneMsg_queues v msg
  exact ⟨hin'.trans hin, hio'.trans hio⟩

theorem IsOnline.not_offline {msg : UserMsg} (h : IsOnline msg) : ¬ IsOffline msg := by
  intro h'
  rw [IsOnline] at h
  rw [IsOffline, h] at h'
  exact absurd h' (by decide)

theorem IsDosth.not_online {msg : UserMsg} (h : IsDosth msg) : ¬ IsOnline msg := by
  intro h'
  rw [IsDosth] at h
  rw [IsOnline, h] at h'
  exact absurd h' (by decide)

theorem IsDosth.not_offline {msg : UserMsg} (h : IsDosth msg) : ¬ IsOffline msg := by
  intro h'
  rw [IsDosth] at h
  rw [IsOffline, h] at h'
  exact absurd h' (by decide)

end LogicWorker

end Rubo.Server
