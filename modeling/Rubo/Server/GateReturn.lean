import Mathlib.Data.List.TakeWhile
import Rubo.Server.GateConns

/-!
# What a GateWorker Does with the Stream of Logic

The other direction: a worker reads the stream of its Logic connection, and writes
each message in it to a connection of the uid it is addressed to.

- `FromLogic`: the messages taken off the stream are envelopes of its registered
  frames, in order, each once.
- `deliveries`: what a round writes, and to whom. It is what a lookup in the table
  of uids makes of the messages of the round (`deliveries_eq`).
-/

namespace Rubo.Server.GateWorker

open Rubo.Foundation Rubo.Msgs Rubo.Util
open SocketNode (Kept Grown)

variable (rt : Runtime) {w w' : GateWorker} {arrived : List UserMsg} {evs : List EventNode}

/-! ## The stream -/

/-- What holds between any two stages, when `arrived` are the messages of Logic that
earlier rounds have distributed. -/
structure FromLogic (arrived : List UserMsg) (w : GateWorker) : Prop where
  stream : ∃ fs, frameDecoder.Accounts (w.node w.logic).received fs
      (w.node w.logic).rdBuff.toList ∧
    List.Forall₂ (MsgCenter.IsEnvelope rt w.logic (w.node w.logic).sfd)
      (arrived ++ w.logicMsgsIn) (fs.filter fun f => MsgCenter.registered f.msgId)

variable {rt}

/-- Stages that do not parse the Logic connection. -/
theorem FromLogic.of_grown {delta : List UInt8} (h : FromLogic rt arrived w)
    (hlogic : w'.logic = w.logic) (hgrown : (w.node w.logic).Grown (w'.node w.logic) delta)
    (hin : w'.logicMsgsIn = w.logicMsgsIn) : FromLogic rt arrived w' := by
  obtain ⟨fs, hacc, henv⟩ := h.stream
  refine ⟨fs, ?_, ?_⟩
  · rw [hlogic, hgrown.received, hgrown.rdBuff]
    exact hacc.append delta
  · rw [hlogic, hgrown.sfd, hin]
    exact henv

theorem FromLogic.of_calm (h : FromLogic rt arrived w) (hc : Calm w w')
    (hin : w'.logicMsgsIn = w.logicMsgsIn) : FromLogic rt arrived w' :=
  h.of_grown hc.logic (hc.kept w.logic) hin

/-- The connection a message of Logic is written to, if it is. -/
def delivery (s : GateWorker × List WriteRes) (msg : UserMsg) : List (Ptr × UserMsg) :=
  match s.1.users.getUserByUid msg.uid with
  | none => []
  | some user =>
    match (s.1.heap.obj user).sock with
    | none => []
    | some _ => [(user, msg)]

variable (rt)

/-- What a round writes to user connections. -/
def deliveries (w : GateWorker) (r : WorkerRound) : List (Ptr × UserMsg) :=
  logOf (sendToUser rt) delivery (w.forwarded rt r) (w.forwarded rt r).1.logicMsgsIn

variable {rt}

/-- Nothing is written without a delivery. -/
theorem sendToUser_of_delivery_nil {s : GateWorker × List WriteRes} {msg : UserMsg}
    (h : delivery s msg = []) : sendToUser rt s msg = s := by
  obtain ⟨w, writes⟩ := s
  unfold delivery at h
  simp only at h
  cases huser : w.users.getUserByUid msg.uid with
  | none => simp only [sendToUser, huser]
  | some user =>
      cases hsock : (w.heap.obj user).sock with
      | none => simp only [sendToUser, huser, hsock]
      | some sock => simp [huser, hsock] at h

/-- And a delivery is a write to that connection. -/
theorem sendToUser_of_delivery {s : GateWorker × List WriteRes} {msg : UserMsg} {user : Ptr}
    {m : UserMsg} (h : (user, m) ∈ delivery s msg) :
    m = msg ∧ sendToUser rt s msg = writeTo rt s user msg := by
  obtain ⟨w, writes⟩ := s
  unfold delivery at h
  simp only at h
  cases huser : w.users.getUserByUid msg.uid with
  | none => simp [huser] at h
  | some user' =>
      cases hsock : (w.heap.obj user').sock with
      | none => simp [huser, hsock] at h
      | some sock =>
          simp only [huser, hsock, List.mem_singleton, Prod.mk.injEq] at h
          obtain ⟨rfl, rfl⟩ := h
          have hnode : w.node user = sock := by rw [node, User.node, hsock]; rfl
          refine ⟨rfl, ?_⟩
          simp only [sendToUser, huser, hsock, writeTo, hnode]

end Rubo.Server.GateWorker
