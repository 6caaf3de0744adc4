import Rubo.Msgs.UserMsg
import Rubo.Util.LineBuffer
import Rubo.Util.SocketNode

/-!
# MsgCenter

The registry of message ids and the package parser of `msgs/MsgCenter.cpp`.

`_msg_id_names` is filled by the constructor and changed by nobody, so it is a
constant here. The parser turns its scratch block into a string through a
`char*`: the string ends at the first zero byte, in the block or, when the block
has none, somewhere behind it. What lies behind a block is a parameter
(`Runtime.beyond`), as is the protobuf runtime.
-/

namespace Rubo.Msgs

open Rubo.Foundation Rubo.Util

/-- What the parser runs on: the protobuf runtime, and the bytes that follow a
heap block with the given contents. -/
structure Runtime extends Protobuf where
  beyond : List UInt8 → List UInt8

/-- `std::string s = data;` for a `char*` to a block with these contents. -/
def Runtime.cString (rt : Runtime) (block : List UInt8) : List UInt8 :=
  (block ++ rt.beyond block).takeWhile (· != 0)

namespace MsgCenter

/-! ## The registry -/

/-- `register_protocol()`: the contents of `_msg_id_names`. -/
def msgIdNames : ProtocolDefine → Option String
  | .userLoginReq => some "LoginReq"
  | .userRegisterReq => some "RegisterReq"
  | .systemVerifyReq => some "VerifyReq"
  | .userLoginRsp => some "LoginRsp"
  | .userRegisterRsp => some "RegisterRsp"
  | .systemVerifyRsp => some "VerifyRsp"
  | .userOnlineReq => some "UserOnlineReq"
  | .userOfflineReq => some "UserOfflineReq"
  | .userKickoutReq => some "KickUserOutReq"
  | .userDosthReq => some "DoSthReq"
  | .userDosthRsp => some "DoSthRsp"
  | _ => none

/-- `FindMessageTypeByName` over the types compiled in from `login.proto`. Every
one of them has a prototype in the generated factory. -/
def findMessageTypeByName (name : String) : Option MsgType :=
  [("LoginReq", MsgType.loginReq), ("RegisterReq", .registerReq), ("VerifyReq", .verifyReq),
   ("LoginRsp", .loginRsp), ("VerifyRsp", .verifyRsp), ("RegisterRsp", .registerRsp),
   ("UserOnlineReq", .userOnlineReq), ("UserOfflineReq", .userOfflineReq),
   ("KickUserOutReq", .kickUserOutReq), ("DoSthReq", .doSthReq), ("DoSthRsp", .doSthRsp)].lookup name

/-- `gen_msg(msg_name)` -/
def genMsgOfName (msgName : String) : Option UserMsg :=
  match findMessageTypeByName msgName with
  | none => none
  | some t => some { msg := Message.new t }

/-- `gen_msg(proto_id)` -/
def genMsg (protoId : ProtocolDefine) : Option UserMsg :=
  match msgIdNames protoId with
  | none => none
  | some name =>
    match genMsgOfName name with
    | none => none
    | some msg => some { msg with msgId := protoId.toInt }

/-- `gen_msg(msg_id)` -/
def genMsgOfInt (msgId : Int32) : Option UserMsg :=
  -- the cast always succeeds in the source; a value outside the enumeration has no name
  match ProtocolDefine.ofInt msgId with
  | none => none
  | some protoId => genMsg protoId

/-- The message type behind a registered id. -/
def typeOf (msgId : Int32) : Option MsgType :=
  (ProtocolDefine.ofInt msgId).bind fun p => (msgIdNames p).bind findMessageTypeByName

/-- `gen_msg` knows the id. -/
def registered (msgId : Int32) : Bool := (typeOf msgId).isSome

/-- What `gen_msg` makes of an id. -/
theorem genMsgOfInt_eq (msgId : Int32) :
    genMsgOfInt msgId = (typeOf msgId).map fun t => { msgId := msgId, msg := Message.new t } := by
  unfold genMsgOfInt typeOf
  cases h : ProtocolDefine.ofInt msgId with
  | none => rfl
  | some p =>
      -- the id set by `gen_msg` is the id asked for
      rw [← ProtocolDefine.ofInt_eq_some.mp h]
      simp only [Option.bind_some, genMsg]
      cases hname : msgIdNames p with
      | none => rfl
      | some name =>
          simp only [Option.bind_some, genMsgOfName]
          cases findMessageTypeByName name <;> rfl

end MsgCenter

/-! ## The parser -/

/-- The fields of a `MsgCenter`. -/
structure MsgCenter where
  parseBuff : LineBufferPtr
  parseString : List UInt8

namespace MsgCenter

def new : MsgCenter := ⟨.new, []⟩

/-- What one pass through the loop of `parse_package` leads to. -/
inductive Pass where
  /-- `break` -/
  | stop
  /-- A message was appended to the result. -/
  | item (pmsg : UserMsg)

/-- The part of a pass after the length checks: consume the frame, parse it. -/
def takePackage (rt : Runtime) (user : Ptr) (sfd : Int32) (mc : MsgCenter) (buff : RingBuffPtr)
    (pkgLen : ℕ) : Pass × MsgCenter × RingBuffPtr :=
  let (_, buff) := buff.delData 4
  let parseBuff := mc.parseBuff.cleanData.appendSize pkgLen
  let ((_, msgId), buff) := buff.readDelBegin 4
  let ((_, userId), buff) := buff.readDelBegin 4
  -- the next four calls are the ones of the source, in its order
  let body := (buff.readDelBegin pkgLen).1.2
  let (parseBuff, buff) := parseBuff.readDelBegin buff pkgLen
    (mc.parseBuff.cleanData.le_buffSize_appendSize pkgLen)
  let parseString := rt.cString parseBuff.data
  let mc : MsgCenter := { parseBuff, parseString }
  match genMsgOfInt (LittleEndian.toInt32 msgId) with
  | none => (.stop, mc, buff)
  | some pmsg =>
    -- the result of `ParseFromString` is not looked at
    let (accepted, msg) := pmsg.msg.parseFromString rt.toProtobuf parseString
    let pmsg := { pmsg with
      msg := msg
      msgId := LittleEndian.toInt32 msgId
      uid := LittleEndian.toInt32 userId
      sfd := sfd
      src := .received
        { user, accepted
          frame := ⟨LittleEndian.toInt32 msgId, LittleEndian.toInt32 userId, body⟩
          scratch := parseBuff.data
          parsed := parseString } }
    (.item pmsg, mc, buff)

/-- One pass through the loop of `parse_package`. -/
def parseOne (rt : Runtime) (user : Ptr) (sfd : Int32) (mc : MsgCenter) (buff : RingBuffPtr) :
    Pass × MsgCenter × RingBuffPtr :=
  if buff.dataSize ≤ 4 then
    (.stop, mc, buff)
  else
    -- the length is only looked at, not removed
    let (_, lenBytes) := buff.readBegin 4
    let pkgLen := LittleEndian.ofBytes lenBytes
    if pkgLen ≤ 1 ∨ pkgLen > 2048 then
      (.stop, mc, buff)
    else if buff.dataSize < pkgLen + 4 + 4 + 4 then
      (.stop, mc, buff)
    else
      takePackage rt user sfd mc buff pkgLen

/-- The loop of `parse_package`; `fuel` bounds the number of passes. -/
def parseLoop (rt : Runtime) (user : Ptr) (sfd : Int32) :
    ℕ → MsgCenter → RingBuffPtr → List UserMsg × MsgCenter × RingBuffPtr
  | 0, mc, buff => ([], mc, buff)
  | fuel + 1, mc, buff =>
    match parseOne rt user sfd mc buff with
    | (.stop, mc, buff) => ([], mc, buff)
    | (.item pmsg, mc, buff) =>
      let (ret, mc, buff) := parseLoop rt user sfd fuel mc buff
      (pmsg :: ret, mc, buff)

/-- `parse_package(user)`, where `sock` is the socket of `user`. Every pass but
the last removes bytes, so there are at most `data_size + 1` of them. -/
def parsePackage (rt : Runtime) (mc : MsgCenter) (user : Ptr) (sock : SocketNode) :
    List UserMsg × MsgCenter × SocketNode :=
  let (ret, mc, buff) := parseLoop rt user sock.sfd (sock.rdBuff.dataSize + 1) mc sock.rdBuff
  (ret, mc, { sock with rdBuff := buff })

end MsgCenter

end Rubo.Msgs
