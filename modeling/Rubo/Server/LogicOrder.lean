import Rubo.Foundation.Embedding
import Rubo.Server.LogicDirectory
import Rubo.Util.Outgoing

/-!
# A Logic Process from Stream to Stream

`Logic::init` starts one worker, so the messages of the Gate connection go through
one queue after the other, and nothing overtakes anything:

- `InOrder`: what has been handled and what is queued are envelopes of the frames
  taken off the stream, in order, and the answers are those of a directory that is
  asked what has been handled;
- `Streamed`: what goes out are whole frames of the verification and of answers, in
  order, in runs whose writes are orderly.
-/

namespace Rubo.Server.LogicIO

open Rubo.Foundation Rubo.Msgs Rubo.Util
open SocketNode (Kept Grown SameOutgoing)

variable (rt : Runtime)

/-- The frames that are dealt out to the workers. -/
def Dealt (f : Frame) : Bool :=
  MsgCenter.registered f.msgId && f.msgId != ProtocolDefine.systemVerifyRsp.toInt

/-- What the worker knows after these messages. -/
def directoryOf (handled : List UserMsg) : Directory :=
  run Directory.step .new (handled.filterMap LogicWorker.request)

/-- The answers to these messages. -/
def answersTo (handled : List UserMsg) : List UserMsg :=
  (Directory.answers (handled.filterMap LogicWorker.request)).map (LogicWorker.rspOf workerName)

/-- What holds between any two stages, when the one worker `w` has handled `handled`
and has handed over `answers`. -/
structure InOrder (handled answers : List UserMsg) (w : LogicWorker) (l : LogicIO) : Prop where
  only : l.workers = [w]
  uids : w.uids = ∅
  name : w.name = workerName
  outMsgs : w.outMsgs = []
  keeps : LogicWorker.Keeps w (directoryOf handled)
  answered : answers = answersTo handled
  stream : ∃ fs, frameDecoder.Accounts l.sock.received fs l.sock.rdBuff.toList ∧
    List.Forall₂ (MsgCenter.IsEnvelope rt connUserPtr l.sock.sfd)
      (handled ++ (w.msgsIn ++ w.ioMsgs)) (fs.filter Dealt)

variable {rt} {handled answers : List UserMsg} {w : LogicWorker} {l l' : LogicIO}

/-- Stages that parse nothing and leave the worker alone. -/
theorem InOrder.of_grown {delta : List UInt8} (h : InOrder rt handled answers w l)
    (hgrown : l.sock.Grown l'.sock delta) (hworkers : l'.workers = l.workers) :
    InOrder rt handled answers w l' := by
  refine ⟨hworkers.trans h.only, h.uids, h.name, h.outMsgs, h.keeps, h.answered, ?_⟩
  obtain ⟨fs, hacc, henv⟩ := h.stream
  rw [hgrown.received, hgrown.rdBuff, hgrown.sfd]
  exact ⟨fs, hacc.append delta, henv⟩

/-! ## The way in -/

/-- The answers the next pass of a worker hands over. -/
def handsOver (l : LogicIO) (i : ℕ) : List UserMsg :=
  match l.workers[i]? with
  | none => []
  | some w => w.handlerMsgs.outMsgs

/-- The verification request. -/
def verifyReq : UserMsg :=
  { msgId := ProtocolDefine.systemVerifyReq.toInt
    msg := (Message.new .verifyReq).setMacaddr macaddr }

variable (rt)

/-- The stream to the Gate: whole frames of the verification request and of answers
handed over, in order; some may be missing. -/
def Streamed (answers : List UserMsg) (l : LogicIO) : Prop :=
  l.sock.canWt = true ∧ ∃ written kept : List UserMsg, written ++ l.outMsgs = answers ∧
    kept.Sublist (verifyReq :: written) ∧
    l.sock.outgoing = kept.flatMap fun msg => (Frame.ofMsg rt.toProtobuf msg).encode

/-- Serving the Gate connection loses no pending bytes. -/
def FlushesSafely (l : LogicIO) (e : EpollEvent × KernelIo) : Prop :=
  e.1.fd = l.tcpOp.sockFd → l.sock.wtBuff.toList = [] ∨ ∀ r ∈ e.2.writes, r.Whole

instance (l : LogicIO) (e : EpollEvent × KernelIo) : Decidable (l.FlushesSafely e) :=
  inferInstanceAs (Decidable (_ → _ ∨ _))

/-- Writing an answer is orderly. -/
def WritesOrderly (s : LogicIO × List WriteRes) (msg : UserMsg) : Prop :=
  SocketOp.Orderly rt.toProtobuf s.1.sock msg s.2

instance (s : LogicIO × List WriteRes) (msg : UserMsg) : Decidable (WritesOrderly rt s msg) :=
  inferInstanceAs (Decidable (SocketOp.Orderly ..))

/-- The condition on a round of the IO thread, stage by stage. -/
structure OrderlyRound (l : LogicIO) (r : LogicRound) : Prop where
  serve : Along (epevent rt) FlushesSafely l r.events
  write : Along (writeRsp rt) (WritesOrderly rt)
    ({ l.handlerEpevent rt r.events with outMsgs := [] }, r.writes) (l.handlerEpevent rt r.events).outMsgs

instance (l : LogicIO) (r : LogicRound) : Decidable (OrderlyRound rt l r) :=
  decidable_of_iff (_ ∧ _) ⟨fun ⟨hserve, hwrite⟩ => ⟨hserve, hwrite⟩, fun h => ⟨h.serve, h.write⟩⟩

variable {rt}

end Rubo.Server.LogicIO
