import Rubo.Server.GateSteps
import Rubo.Server.LogicIO
import Rubo.Server.Verdict

/-!
# What Stays Buffered After a Call of `parse_package`

`parse_package` has three callers. `GateWorker::handler_epdata` and
`LogicIO::handler_epevent` do nothing about what it leaves; only
`GateIO::handler_unlogin_msgs` may close the connection, and it does so by the
messages returned, of which an unparseable leftover gives none.
-/

namespace Rubo.Server

open Rubo.Foundation Rubo.Msgs Rubo.Util

/-- The bytes left can be completed to a frame, or the caller, which had closed
the descriptors `closed` before, has closed `fd` as well. -/
def Settled (left : List UInt8) (fd : Int32) (closed closed' : List Int32) : Prop :=
  (Extendable left ∧ left.length < 2060) ∨ closed' = closed ++ [fd]

theorem settled_of_same {left : List UInt8} {fd : Int32} {closed : List Int32} :
    Settled left fd closed closed ↔ Extendable left := by
  constructor
  · rintro (⟨h, _⟩ | h)
    · exact h
    · simp at h
  · intro h
    exact .inl ⟨h, h.length_lt⟩

variable (rt : Runtime)

/-- The parser itself. -/
theorem extendable_parsePackage_iff (mc : MsgCenter) (user : Ptr) (sock : SocketNode) :
    (Extendable (mc.parsePackage rt user sock).2.2.rdBuff.toList ∧
        (mc.parsePackage rt user sock).2.2.rdBuff.toList.length < 2060) ↔
      Resumable sock.rdBuff.toList := by
  obtain ⟨buff, hleft, hparse⟩ := MsgCenter.parsePackage_eq rt user mc sock
  rw [hparse, ← MsgCenter.extendable_taken_iff, ← hleft]
  exact ⟨fun h => h.1, fun h => ⟨h, h.length_lt⟩⟩

namespace GateWorker

theorem tcpOp_parseUser (w : GateWorker) (user : Ptr) : (w.parseUser rt user).tcpOp = w.tcpOp := by
  simp only [parseUser, foldl_takeMsg]
  split_ifs <;> rfl

/-- A worker closes nothing when it parses. -/
theorem settled_parseUser_iff (w : GateWorker) (user : Ptr) :
    Settled ((w.parseUser rt user).node user).rdBuff.toList (w.node user).sfd w.tcpOp.closed
        (w.parseUser rt user).tcpOp.closed ↔ Resumable (w.node user).rdBuff.toList := by
  obtain ⟨_, hparsed⟩ := parseUser_spec rt w user
  obtain ⟨buff, hnode, htaken⟩ := hparsed.node
  have hleft : buff.toList = (MsgCenter.taken (w.node user).rdBuff.toList).2 := by rw [htaken]
  rw [tcpOp_parseUser, settled_of_same, hnode, hleft]
  exact MsgCenter.extendable_taken_iff _

end GateWorker

namespace LogicIO

/-- The IO thread of Logic closes nothing after `event_op`. -/
theorem settled_parsePackage_iff (l : LogicIO) (e : EpollEvent × KernelIo) :
    Settled ((l.serve e).parsePackage rt).2.sock.rdBuff.toList l.sock.sfd l.tcpOp.closed
        ((l.serve e).parsePackage rt).2.tcpOp.closed ↔
      Resumable (l.serve e).sock.rdBuff.toList ∨
        (l.serve e).tcpOp.closed = l.tcpOp.closed ++ [l.sock.sfd] := by
  exact or_congr
    (extendable_parsePackage_iff rt (l.serve e).msgCenter connUserPtr (l.serve e).sock) Iff.rfl

end LogicIO

namespace GateIO

/-- GateIO closes the connection unless there was no message or a single request
that nothing follows. -/
theorem settled_parseUnlogin_iff (s : GateIO × List MysqlDb) (user : Ptr) :
    Settled ((parseUnlogin rt s user).1.node user).rdBuff.toList (s.1.node user).sfd
        s.1.tcpOp.closed (parseUnlogin rt s user).1.tcpOp.closed ↔
      Resumable (s.1.node user).rdBuff.toList ∨ StartsAccepted (s.1.node user).rdBuff.toList := by
  obtain ⟨g, hparsed, hparse⟩ := parseUnlogin_eq rt s user
  obtain ⟨buff, hnode, hleft⟩ := hparsed.node
  have hfunc : ∀ msg msgFunc, verdictOn rt s.1 user = .handle msg msgFunc →
      Gate.getMsgHandler msg.msgId = some msgFunc := fun _ _ => verdictOn_handle
  obtain ⟨hnodes, _, happly⟩ := apply_spec (g := g) s.2 user hfunc
  have hsfd : (g.node user).sfd = (s.1.node user).sfd := by rw [hnode]
  have htcp : g.tcpOp = s.1.tcpOp := by rw [hparsed.fields]
  -- the buffer, and the descriptors closed
  have hbuff : ((parseUnlogin rt s user).1.node user).rdBuff = buff := by
    rw [hparse, hnodes, hnode]
  have hclosed : (parseUnlogin rt s user).1.tcpOp =
      if (verdictOn rt s.1 user).isKick then s.1.tcpOp.closeOp (s.1.node user).sfd
      else s.1.tcpOp := by
    rw [hparse, happly, htcp, hsfd]
  rw [hbuff, hclosed, ← MsgCenter.extendable_taken_iff, ← hleft]
  rcases verdictOn_cases rt s.1 user with ⟨hwait, hstart⟩ | ⟨hkick, hstart, _⟩ | ⟨_, _, hhandle, hone⟩
  · -- nothing came out, so nothing is closed
    simp only [hwait, Verdict.isKick, Bool.false_eq_true, if_false, settled_of_same, hstart, or_false]
  · simp only [hkick, Verdict.isKick, if_true]
    exact ⟨fun _ => .inr hstart, fun _ => .inr rfl⟩
  · -- the request was the whole buffer
    obtain ⟨f, tail, htaken, _⟩ := hone
    have hnil : buff.toList = [] := by simp [hleft, htaken]
    simp only [hhandle, Verdict.isKick, Bool.false_eq_true, if_false, hnil]
    exact ⟨fun _ => .inl extendable_nil, fun _ => settled_of_same.mpr extendable_nil⟩

end GateIO

open GateIO (parseUnlogin StartsAccepted settled_parseUnlogin_iff)

/-- **What stays buffered**: the bytes `parse_package` leaves can be completed to
a frame it accepts, and are fewer than 2060, iff the buffer held frames the
parser gets over and the beginning of one it accepts. Of the callers only GateIO
closes connections, and for another leftover only behind an accepted frame. -/
theorem settled_iff :
    (∀ (mc : MsgCenter) (user : Ptr) (sock : SocketNode),
      (Extendable (mc.parsePackage rt user sock).2.2.rdBuff.toList ∧
          (mc.parsePackage rt user sock).2.2.rdBuff.toList.length < 2060) ↔
        Resumable sock.rdBuff.toList) ∧
    (∀ (w : GateWorker) (user : Ptr),
      Settled ((w.parseUser rt user).node user).rdBuff.toList (w.node user).sfd w.tcpOp.closed
          (w.parseUser rt user).tcpOp.closed ↔ Resumable (w.node user).rdBuff.toList) ∧
    (∀ (l : LogicIO) (e : EpollEvent × KernelIo),
      Settled ((l.serve e).parsePackage rt).2.sock.rdBuff.toList l.sock.sfd l.tcpOp.closed
          ((l.serve e).parsePackage rt).2.tcpOp.closed ↔
        Resumable (l.serve e).sock.rdBuff.toList ∨
          (l.serve e).tcpOp.closed = l.tcpOp.closed ++ [l.sock.sfd]) ∧
    ∀ (s : GateIO × List MysqlDb) (user : Ptr),
      Settled ((parseUnlogin rt s user).1.node user).rdBuff.toList (s.1.node user).sfd
          s.1.tcpOp.closed (parseUnlogin rt s user).1.tcpOp.closed ↔
        Resumable (s.1.node user).rdBuff.toList ∨
          StartsAccepted (s.1.node user).rdBuff.toList :=
  ⟨extendable_parsePackage_iff rt, GateWorker.settled_parseUser_iff rt,
    LogicIO.settled_parsePackage_iff rt, settled_parseUnlogin_iff rt⟩

/-- Five zero bytes: the length is out of range, no caller does anything about
them, and no byte that arrives later can. -/
theorem not_settled_zeros :
    ¬ ∀ (rt : Runtime) (s : GateIO × List MysqlDb) (user : Ptr),
      Settled ((parseUnlogin rt s user).1.node user).rdBuff.toList (s.1.node user).sfd
        s.1.tcpOp.closed (parseUnlogin rt s user).1.tcpOp.closed := by
  intro h
  obtain ⟨g, hbuff⟩ : ∃ g : GateIO, (g.node 0).rdBuff.toList = [0, 0, 0, 0, 0] :=
    ⟨(.init 3 : GateIO).setNode 0 { sfd := 5, rdBuff := RingBuffPtr.new.addData [0, 0, 0, 0, 0] },
      RingBuffPtr.toList_addData ..⟩
  have hzeros := h { Protobuf.oneSmallInt with beyond := fun _ => [] } (g, []) 0
  rw [settled_parseUnlogin_iff, hbuff] at hzeros
  rcases hzeros with hres | ⟨f, r, ⟨hf, _⟩, hcat⟩
  · exact MsgCenter.not_resumable_of_length (by decide) (by decide) hres
  · have hnext : frameNext [0, 0, 0, 0, 0] = some (f, r) := by
      rw [hcat]
      exact frameNext_encode hf r
    cases hnext

end Rubo.Server
