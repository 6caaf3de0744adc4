import Rubo.Foundation.LittleEndian
import Mathlib.Logic.Function.Basic

/-!
# Message Types and Protobuf Messages

The message ids of `msgs/UserMsg.hpp`, the message types of
`msgs/protocols/login.proto`, and messages as the generated classes hold them:
the fields that are set, by field number, and the raw unknown fields.

The runtime behind the generated classes (`ParseFromString`,
`SerializeToArray`) is not part of the repository; it is the parameter
`Protobuf`, about which nothing is assumed here.
-/

namespace Rubo.Msgs

/-- The message types of `login.proto`. -/
inductive MsgType where
  | loginReq | registerReq | verifyReq | loginRsp | verifyRsp | registerRsp
  | userOnlineReq | userOfflineReq | kickUserOutReq | doSthReq | doSthRsp
  deriving DecidableEq, Repr

/-- `enum ProtocolDefine` -/
inductive ProtocolDefine where
  | protoDefNull
  | userLoginReq | userRegisterReq | systemVerifyReq
  | userLoginRsp | userRegisterRsp | systemVerifyRsp
  | userOnlineReq | userOfflineReq
  | userDosthReq | userKickoutReq | userDosthRsp
  | systemDefault
  | protoDefEnd
  deriving DecidableEq, Repr

namespace ProtocolDefine

/-- The value of the enumerator. -/
def toInt : ProtocolDefine → Int32
  | protoDefNull => 0
  | userLoginReq => 1
  | userRegisterReq => 2
  | systemVerifyReq => 3
  | userLoginRsp => 4
  | userRegisterRsp => 5
  | systemVerifyRsp => 6
  | userOnlineReq => 7
  | userOfflineReq => 8
  | userDosthReq => 9
  | userKickoutReq => 10
  | userDosthRsp => 11
  | systemDefault => 999999
  | protoDefEnd => 1000000

/-- All enumerators. -/
def all : List ProtocolDefine :=
  [protoDefNull, userLoginReq, userRegisterReq, systemVerifyReq, userLoginRsp, userRegisterRsp,
   systemVerifyRsp, userOnlineReq, userOfflineReq, userDosthReq, userKickoutReq, userDosthRsp,
   systemDefault, protoDefEnd]

/-- `(ProtocolDefine)msg_id`; a value that is no enumerator is a key of no table. -/
def ofInt (msgId : Int32) : Option ProtocolDefine :=
  all.find? (fun p => p.toInt = msgId)

theorem ofInt_eq_some {msgId : Int32} {p : ProtocolDefine} :
    ofInt msgId = some p ↔ p.toInt = msgId := by
  constructor
  · intro h
    simpa using List.find?_some h
  · rintro rfl
    cases p <;> decide

end ProtocolDefine

/-! ## Messages -/

/-- A field value; the three field types `login.proto` uses. -/
inductive FieldVal where
  | int32 (v : Int32)
  | bool (v : Bool)
  | string (v : List UInt8)
  deriving DecidableEq, Repr

/-- A generated message object: its type, the fields set, the unknown fields. -/
structure Message where
  type : MsgType
  fields : List (ℕ × FieldVal)
  unknownFields : List UInt8
  deriving DecidableEq, Repr

namespace Message

/-- `pPrototype->New()`: nothing is set. -/
def new (t : MsgType) : Message := ⟨t, [], []⟩

/-- The value of field `n`, if set. -/
def get (m : Message) (n : ℕ) : Option FieldVal := m.fields.lookup n

/-- Set field `n`. -/
def set (m : Message) (n : ℕ) (v : FieldVal) : Message :=
  { m with fields := (n, v) :: m.fields.filter (fun f => f.1 != n) }

/-- The getter of an `int32` field: unset means `0`. -/
def int32 (m : Message) (n : ℕ) : Int32 :=
  match m.get n with
  | some (.int32 v) => v
  | _ => 0

/-- The getter of a `bool` field: unset means `false`. -/
def bool (m : Message) (n : ℕ) : Bool :=
  match m.get n with
  | some (.bool v) => v
  | _ => false

/-- The getter of a `string` field: unset means empty. -/
def string (m : Message) (n : ℕ) : List UInt8 :=
  match m.get n with
  | some (.string v) => v
  | _ => []

@[simp] theorem get_set_self (m : Message) (n : ℕ) (v : FieldVal) : (m.set n v).get n = some v := by
  simp [get, set]

/-! The accessors of `login.pb.h` that the servers use. -/

/-- `LoginReq::name()`, `RegisterReq::name()` -/
def name (m : Message) : List UInt8 := m.string 1

/-- `LoginReq::passwd()`, `RegisterReq::passwd()` -/
def passwd (m : Message) : List UInt8 := m.string 2

/-- `VerifyReq::macaddr()` -/
def macaddr (m : Message) : List UInt8 := m.string 1

/-- `isOK()` of the three responses. -/
def isOK (m : Message) : Bool := m.bool 1

/-- `LoginRsp::userId()` -/
def userId (m : Message) : Int32 := m.int32 2

/-- `RegisterRsp::accid()` -/
def accid (m : Message) : Int32 := m.int32 3

/-- `uid()` of the presence messages, `KickUserOutReq` and `DoSthReq`. -/
def uid (m : Message) : Int32 := m.int32 1

/-- `DoSthReq::sth()` -/
def sth (m : Message) : List UInt8 := m.string 2

/-- `set_isok(value)` of the three responses. -/
def setIsOK (m : Message) (v : Bool) : Message := m.set 1 (.bool v)

/-- `LoginRsp::set_userid(value)` -/
def setUserId (m : Message) (v : Int32) : Message := m.set 2 (.int32 v)

/-- `RegisterRsp::set_name(value)` -/
def setName (m : Message) (v : List UInt8) : Message := m.set 2 (.string v)

/-- `RegisterRsp::set_accid(value)` -/
def setAccid (m : Message) (v : Int32) : Message := m.set 3 (.int32 v)

/-- `VerifyReq::set_macaddr(value)` -/
def setMacaddr (m : Message) (v : List UInt8) : Message := m.set 1 (.string v)

/-- `set_uid(value)` -/
def setUid (m : Message) (v : Int32) : Message := m.set 1 (.int32 v)

@[simp] theorem userId_setUserId (m : Message) (v : Int32) : (m.setUserId v).userId = v := by
  simp [userId, setUserId, int32]

end Message

/-! ## The protobuf runtime -/

/-- The library calls behind the generated classes. -/
structure Protobuf where
  /-- `ParseFromString` on a message of this type: whether it succeeded, the
  fields it set and the unknown fields it kept. A failed call leaves what it
  read so far. -/
  parseFromString : MsgType → List UInt8 → Bool × List (ℕ × FieldVal) × List UInt8
  /-- `SerializeToArray`; `ByteSize` is its length. -/
  serializeToArray : Message → List UInt8

/-- `m.ParseFromString(s)`: the returned flag and the message afterwards. -/
def Message.parseFromString (pb : Protobuf) (m : Message) (s : List UInt8) : Bool × Message :=
  let (ok, fields, unknownFields) := pb.parseFromString m.type s
  -- what was read is kept, also when the flag is `false`
  (ok, { m with fields, unknownFields })

/-- A runtime for concrete runs. It agrees with protobuf on messages whose only
field is number 1, an `int32` from 0 to 127: the key byte `8`, then the value. -/
def Protobuf.oneSmallInt : Protobuf where
  parseFromString _ s :=
    match s with
    | [8, v] => if v < 128 then (true, [(1, .int32 v.toUInt32.toInt32)], []) else (false, [], [])
    | _ => (false, [], [])
  serializeToArray m := [8, m.uid.toUInt32.toUInt8]

end Rubo.Msgs
