import Rubo.Foundation.Heap
import Rubo.Util.RingBuffQueue

/-!
# SocketNode, EventNode, User

The connection objects of `util/SocketNode.hpp` and `util/User.hpp`.

`FD_EVENT` is an `int` used as a set of flags; it stays one here, since the
code also compares such values with booleans. A `SocketNode` carries two
history variables that no function reads: every byte `::read` has delivered to
this node and every byte `::write` has accepted from it. They are those of the
node, not of the descriptor: another node may have the same `_sfd`.
-/

namespace Rubo.Util

open Rubo.Foundation

/-- `#define FD_EVENT int` -/
abbrev FdEvent := ℕ

namespace FdEvent

/-- `FD_EVENT_NONE` -/
def none : FdEvent := 0
/-- `FD_EVENT_READ` -/
def read : FdEvent := 0x01
/-- `FD_EVENT_WRITE` -/
def write : FdEvent := 0x02
/-- `FD_EVENT_CONNECT` -/
def connect : FdEvent := 0x04
/-- `FD_EVENT_ERROR` -/
def error : FdEvent := 0x08

/-- `ev & flag`, as a condition. -/
def has (ev flag : FdEvent) : Bool := ev &&& flag != 0

theorem has_or (ev ev' flag : FdEvent) : has (ev ||| ev') flag = (has ev flag || has ev' flag) := by
  unfold has
  -- `&` distributes over `|`
  rw [Nat.and_or_distrib_right, Bool.eq_iff_iff, Bool.or_eq_true]
  simp only [bne_iff_ne, ne_eq, Nat.or_eq_zero_iff, not_and_or]

end FdEvent

/-- `enum ClientType` -/
inductive ClientType where
  | null
  | system
  | user
  deriving DecidableEq, Repr

/-- `EventNode` -/
structure EventNode where
  sfd : Int32 := 0
  uid : Int32 := 0
  event : FdEvent := FdEvent.none
  deriving DecidableEq, Repr

/-- `SocketNode`, as its constructor and `release` initialise it. -/
structure SocketNode where
  type : ClientType := .null
  sfd : Int32 := 0
  canWt : Bool := true
  event : FdEvent := FdEvent.none
  opRet : FdEvent := FdEvent.none
  ip : String := ""
  port : ℕ := 0
  rdBuff : RingBuffPtr := .new
  wtBuff : RingBuffPtr := .new
  /-- History: the bytes `::read` has delivered to this node. -/
  received : List UInt8 := []
  /-- History: the bytes `::write` has accepted from this node. -/
  accepted : List UInt8 := []

/-- Two nodes of one connection before and after a step: `delta` was read in
between, and nothing was taken out of the read buffer. -/
structure SocketNode.Grown (node node' : SocketNode) (delta : List UInt8) : Prop where
  rdBuff : node'.rdBuff.toList = node.rdBuff.toList ++ delta
  received : node'.received = node.received ++ delta
  type : node'.type = node.type
  sfd : node'.sfd = node.sfd

/-- Steps that leave the reading side alone. -/
abbrev SocketNode.Kept (node node' : SocketNode) : Prop := node.Grown node' []

theorem SocketNode.Kept.of_eq {node node' : SocketNode} (hbuff : node'.rdBuff = node.rdBuff)
    (hrec : node'.received = node.received) (htype : node'.type = node.type)
    (hsfd : node'.sfd = node.sfd) : node.Kept node' :=
  ⟨by rw [hbuff, List.append_nil], by rw [hrec, List.append_nil], htype, hsfd⟩

theorem SocketNode.Grown.trans {a b c : SocketNode} {d e : List UInt8} (h : a.Grown b d)
    (h' : b.Grown c e) : a.Grown c (d ++ e) where
  rdBuff := by rw [h'.rdBuff, h.rdBuff, List.append_assoc]
  received := by rw [h'.received, h.received, List.append_assoc]
  type := h'.type.trans h.type
  sfd := h'.sfd.trans h.sfd

theorem SocketNode.Kept.trans {a b c : SocketNode} (h : a.Kept b) (h' : b.Kept c) : a.Kept c :=
  SocketNode.Grown.trans h h'

/-- `enum ConnStatus` -/
inductive ConnStatus where
  | null
  | connecting
  | logined
  | closing
  deriving DecidableEq, Repr

/-- `User`, as its constructor initialises it. -/
structure User where
  uid : Int32 := 0
  connStatus : ConnStatus := .null
  sock : Option SocketNode := .none

/-- The `SocketNode` behind `user->_sock`. Every user whose `_sock` is
dereferenced has one. -/
def User.node (u : User) : SocketNode := u.sock.getD {}

/-- Writing to `user->_sock` changes the node of that user only. -/
theorem node_set_sock (heap : Heap User) (user : Ptr) (sock : SocketNode) (p : Ptr) :
    ((heap.set user { heap.obj user with sock := some sock }).obj p).node =
      if p = user then sock else (heap.obj p).node := by
  rw [Heap.obj_set]
  split_ifs <;> rfl

theorem uid_set_sock (heap : Heap User) (user : Ptr) (sock : SocketNode) (p : Ptr) :
    ((heap.set user { heap.obj user with sock := some sock }).obj p).uid = (heap.obj p).uid := by
  rw [Heap.obj_set]
  split_ifs with h
  · rw [h]
  · rfl

end Rubo.Util
