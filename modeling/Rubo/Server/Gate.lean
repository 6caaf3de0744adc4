import Rubo.Msgs.MsgCenter
import Rubo.Util.SocketNode

/-!
# Gate

The message handlers of `server/Gate/Gate.cpp`: login, registration and the
verification of a Logic process. A handler gets the message, the user object it
was parsed for and the list of replies.

A reply is built around the ids of the request, so it carries the descriptor
the request was read from; that is all that connects it to a connection.
-/

namespace Rubo.Server

open Rubo.Foundation Rubo.Msgs Rubo.Util

/-- What the database answers while one message is handled. No handler calls one
of these twice. -/
structure MysqlDb where
  getUid : List UInt8 → List UInt8 → Int32 := fun _ _ => -1
  checkNameRegistered : List UInt8 → Bool := fun _ => false
  registerUser : List UInt8 → List UInt8 → ℤ → Bool := fun _ _ _ => false

/-- A handler: it may change user objects and add replies. -/
abbrev MsgFunc :=
  MysqlDb → UserMsg → Ptr → Heap User × List UserMsg → Heap User × List UserMsg

namespace Gate

/-- `on_user_login(pmsg, user, rsp_msgs)` -/
def onUserLogin : MsgFunc := fun mysqldb pmsg user (heap, rspMsgs) =>
  let uid := mysqldb.getUid pmsg.msg.name pmsg.msg.passwd
  let rsp :=
    if uid = -1 then ((Message.new .loginRsp).setIsOK false).setUserId (-1)
    else ((Message.new .loginRsp).setIsOK true).setUserId uid
  let ret := { UserMsg.withMsg rsp pmsg with msgId := 4 }
  -- `user->_uid` is set whether the login succeeded or not
  (heap.set user { heap.obj user with uid := uid }, rspMsgs ++ [ret])

/-- `on_user_register(pmsg, user, rsp_msgs)` -/
def onUserRegister : MsgFunc := fun mysqldb pmsg _ (heap, rspMsgs) =>
  let rsp :=
    if mysqldb.checkNameRegistered pmsg.msg.name = true then
      (((Message.new .registerRsp).setIsOK false).setName []).setAccid (-1)
    else if mysqldb.registerUser pmsg.msg.name pmsg.msg.passwd 0 = false then
      (((Message.new .registerRsp).setIsOK false).setName []).setAccid (-2)
    else
      let uid := mysqldb.getUid pmsg.msg.name pmsg.msg.passwd
      (((Message.new .registerRsp).setIsOK true).setName pmsg.msg.name).setAccid uid
  let ret := { UserMsg.withMsg rsp pmsg with msgId := 5 }
  (heap, rspMsgs ++ [ret])

/-- `check_if_internal(ip, mac)` -/
def checkIfInternal (_ip : String) (_mac : List UInt8) : Bool := true

/-- `on_system_verify(pmsg, user, rsp_msgs)` -/
def onSystemVerify : MsgFunc := fun _ pmsg user (heap, rspMsgs) =>
  if checkIfInternal (heap.obj user).node.ip pmsg.msg.macaddr = false then
    (heap, rspMsgs)
  else
    let ret := { UserMsg.withMsg ((Message.new .verifyRsp).setIsOK true) pmsg with msgId := 6 }
    (heap, rspMsgs ++ [ret])

/-- `get_msg_handler(msg_id)`: the table `register_handlers` fills. -/
def getMsgHandler (msgId : Int32) : Option MsgFunc :=
  match ProtocolDefine.ofInt msgId with
  | some .userLoginReq => some onUserLogin
  | some .userRegisterReq => some onUserRegister
  | some .systemVerifyReq => some onSystemVerify
  | _ => none

/-- A login writes the database's answer into the user object and into the reply. -/
theorem onUserLogin_spec (db : MysqlDb) (pmsg : UserMsg) (user : Ptr) (heap : Heap User)
    (rspMsgs : List UserMsg) :
    ∃ ret, onUserLogin db pmsg user (heap, rspMsgs) =
        (heap.set user { heap.obj user with uid := db.getUid pmsg.msg.name pmsg.msg.passwd },
          rspMsgs ++ [ret]) ∧
      ret.src = pmsg.src ∧ ret.sfd = pmsg.sfd ∧
      (ret.msg.isOK = true → db.getUid pmsg.msg.name pmsg.msg.passwd ≠ -1 ∧
        ret.msg.userId = db.getUid pmsg.msg.name pmsg.msg.passwd) := by
  refine ⟨_, rfl, rfl, rfl, ?_⟩
  simp only [UserMsg.withMsg]
  split_ifs with huid
  · -- a refused login is no `isOK` reply
    intro hok
    exact absurd hok (by decide)
  · intro _
    exact ⟨huid, Message.userId_setUserId ..⟩

/-- The other handlers leave the users alone, and their replies are no login replies. -/
theorem getMsgHandler_cases {msgId : Int32} {f : MsgFunc} (h : getMsgHandler msgId = some f) :
    (msgId = ProtocolDefine.userLoginReq.toInt ∧ f = onUserLogin) ∨
      ∀ db pmsg user heap rspMsgs, (f db pmsg user (heap, rspMsgs)).1 = heap ∧
        ((f db pmsg user (heap, rspMsgs)).2 = rspMsgs ∨
          ∃ ret, (f db pmsg user (heap, rspMsgs)).2 = rspMsgs ++ [ret] ∧
            ret.msgId ≠ ProtocolDefine.userLoginRsp.toInt) := by
  unfold getMsgHandler at h
  cases hid : ProtocolDefine.ofInt msgId with
  | none => rw [hid] at h; cases h
  | some p =>
      rw [hid] at h
      cases p with
      | userLoginReq =>
          cases h
          exact .inl ⟨(ProtocolDefine.ofInt_eq_some.mp hid).symm, rfl⟩
      | userRegisterReq =>
          cases h
          refine .inr fun db pmsg user heap rspMsgs => ⟨rfl, .inr ⟨_, rfl, ?_⟩⟩
          show (5 : Int32) ≠ ProtocolDefine.userLoginRsp.toInt
          decide
      | systemVerifyReq =>
          cases h
          refine .inr fun db pmsg user heap rspMsgs => ⟨rfl, .inr ⟨_, rfl, ?_⟩⟩
          show (6 : Int32) ≠ ProtocolDefine.userLoginRsp.toInt
          decide
      -- no other id has a handler
      | _ => cases h

end Gate

end Rubo.Server
