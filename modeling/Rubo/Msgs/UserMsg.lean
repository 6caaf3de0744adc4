import Rubo.Foundation.Heap
import Rubo.Msgs.Protocol

/-!
# UserMsg

The envelope of `msgs/UserMsg.hpp`: header uid, descriptor, message id and the
message itself. Its ids are written by hand in several places and need not fit
each other or the uid inside the message.

Two records that are no part of the program accompany an envelope. A `Frame` is
what one framed message consists of on the wire. A `MsgSource` remembers how an
envelope came about; no function reads it.
-/

namespace Rubo.Msgs

open Rubo.Foundation

/-- The parts of one framed message. -/
structure Frame where
  msgId : Int32
  uid : Int32
  body : List UInt8
  deriving DecidableEq, Repr

/-- How `parse_package` made an envelope out of a frame. -/
structure Received where
  /-- The connection the frame was read from. -/
  user : Ptr
  frame : Frame
  /-- The whole scratch block when the body had been copied into it. -/
  scratch : List UInt8
  /-- The string handed to `ParseFromString`. -/
  parsed : List UInt8
  /-- What `ParseFromString` returned. -/
  accepted : Bool
  deriving DecidableEq, Repr

/-- History of an envelope. -/
inductive MsgSource where
  /-- Built here, about nobody in particular. -/
  | built
  /-- Parsed from a connection's stream, or an answer to such an envelope. -/
  | received (r : Received)
  /-- The gate's own report about a connection. -/
  | gate (user : Ptr)
  deriving DecidableEq, Repr

/-- The fields of a `UserMsg`, as its default constructor initialises them. -/
structure UserMsg where
  uid : Int32 := 0
  sfd : Int32 := 0
  msgId : Int32 := 0
  msg : Message
  src : MsgSource := .built
  deriving DecidableEq, Repr

/-- `UserMsg(msg, umsg)`: the ids of `umsg` around another message. -/
def UserMsg.withMsg (msg : Message) (umsg : UserMsg) : UserMsg :=
  { umsg with msg := msg }

end Rubo.Msgs
