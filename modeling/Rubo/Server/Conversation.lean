import Rubo.Server.GateReturn
import Rubo.Server.LogicOrder
import Rubo.Server.Presence

/-!
# Requests and Their Answers

A worker of the Gate, the Logic process behind it, and both directions of the
connection between them, in any interleaving. `answered_in_order` follows the
requests of the users all the way to Logic and back: what is delivered to user
connections are, in order, answers to messages that were forwarded for them, at
most one for each, and each goes to a connection of the uid that asked.

The connection may lose messages, when a write fails before it has begun. It does
not break them: rounds are `Honest` on the side of the Gate, `OrderlyRound` on the
side of Logic.
-/

namespace Rubo.Server

open Rubo.Foundation Rubo.Msgs Rubo.Util

/-- The two processes, with the history of what comes back. -/
structure Conversation where
  link : Uplink
  /-- History: the answers the worker of Logic has handed over. -/
  answers : List UserMsg
  /-- History: the messages of Logic the Gate's worker has distributed. -/
  arrived : List UserMsg
  /-- History: those written to a user connection, with the connection. -/
  delivered : List (Ptr × UserMsg)

namespace Conversation

variable (rt : Runtime)

/-! ## Runs -/

def init (logicFd : Int32) (greeting : List UserMsg) (logic : LogicIO) : Conversation :=
  ⟨.init logicFd greeting logic, [], [], []⟩

def step (s : Conversation) (a : Uplink.Act) : Conversation :=
  let s' := { s with link := s.link.step rt a }
  match a with
  | .gate r => { s' with
      arrived := s.arrived ++ (s.link.gate.gathered rt r).logicMsgsIn
      delivered := s.delivered ++ s.link.gate.deliveries rt r }
  | .io _ => s'
  | .worker i => { s' with answers := s.answers ++ s.link.logic.handsOver i }

/-- The condition on a step. -/
def Admits (s : Conversation) : Uplink.Act → Prop
  | .gate r => s.link.gate.Honest rt r
  | .io r => LogicIO.OrderlyRound rt s.link.logic r
  | .worker _ => True

instance (s : Conversation) : (a : Uplink.Act) → Decidable (Admits rt s a)
  | .gate r => inferInstanceAs (Decidable (s.link.gate.Honest rt r))
  | .io r => inferInstanceAs (Decidable <| LogicIO.OrderlyRound rt s.link.logic r)
  | .worker _ => inferInstanceAs (Decidable True)

/-- TCP delivers what Logic wrote; the front of it, `hail`, was read by the IO thread
of the Gate, before the worker took the connection over. -/
def Returns (hail : List UInt8) (s : Conversation) : Prop :=
  hail ++ (s.link.gate.node s.link.gate.logic).received <+: s.link.logic.sock.accepted

instance (hail : List UInt8) (s : Conversation) : Decidable (Returns hail s) :=
  inferInstanceAs (Decidable (_ <+: _))

/-! ## Answers -/

/-- The message delivered to a connection answers the message forwarded to Logic. -/
structure AnswerTo (w : GateWorker) (d : Ptr × UserMsg) (req : UserMsg) : Prop where
  request : LogicWorker.IsDosth req
  response : d.2.msgId = ProtocolDefine.userDosthRsp.toInt
  uid : d.2.uid = req.uid
  /-- It goes to a connection of the uid that asked. -/
  conn : w.IsConn d.1 ∧ (w.heap.obj d.1).uid = req.uid
  /-- The request came from a connection of that uid. -/
  asker : ∃ q, w.IsConn q ∧ (w.heap.obj q).uid = req.uid ∧ GateWorker.Accounted rt w q req
  /-- Its frame is that of an answer with the text Logic has read in the frame of the
  request. -/
  text : ∃ number sfd read,
    MsgCenter.IsEnvelope rt LogicIO.connUserPtr sfd read (Frame.ofMsg rt.toProtobuf req) ∧
      MsgCenter.IsEnvelope rt w.logic (w.node w.logic).sfd d.2 (Frame.ofMsg rt.toProtobuf
        (LogicWorker.rspOf LogicIO.workerName ⟨req.uid, number, read.msg.sth⟩))

/-! ## The invariant -/

/-- What holds of both processes between any two steps. -/
structure Chained (s : Conversation) : Prop where
  sound : Uplink.Sound rt s.link
  order : ∃ w, LogicIO.InOrder rt s.link.handled s.answers w s.link.logic
  streamed : LogicIO.Streamed rt s.answers s.link.logic
  fromLogic : GateWorker.FromLogic rt s.arrived s.link.gate
  distributed : s.link.gate.logicMsgsIn = []
  apart : ∃ evs, GateWorker.Apart rt evs s.link.gate
  delivered : (s.delivered.map Prod.snd).Sublist s.arrived
  conns : ∀ d ∈ s.delivered, s.link.gate.IsConn d.1 ∧ (s.link.gate.heap.obj d.1).uid = d.2.uid

variable {rt}

/-- What Logic has handled are envelopes of messages forwarded to it, in order. -/
theorem handled_matched {s : Conversation} (h : Chained rt s) (hpb : rt.toProtobuf.PresenceCodec)
    (hgreeting : ∀ msg ∈ s.link.greeting, msg.msgId = ProtocolDefine.systemVerifyRsp.toInt)
    (htcp : Uplink.Delivers rt s.link) :
    List.SublistForall₂ (fun msg req => MsgCenter.IsEnvelope rt LogicIO.connUserPtr
      s.link.logic.sock.sfd msg (Frame.ofMsg rt.toProtobuf req)) s.link.handled
      s.link.gate.toLogic := by
  obtain ⟨w, hw⟩ := h.order
  obtain ⟨fs, hacc, henv⟩ := hw.stream
  obtain ⟨_, kept, hsub, hout⟩ := h.sound.outbound.framed
  -- the frames read are the first ones written
  have hlen : ∀ f ∈ (s.link.greeting ++ kept).map (Frame.ofMsg rt.toProtobuf),
      f.body.length < 2 ^ 32 := by
    intro f hf
    obtain ⟨m, _, rfl⟩ := List.mem_map.mp hf
    exact hpb.length_lt m.msg
  have hwritten : s.link.written rt <+:
      ((s.link.greeting ++ kept).map (Frame.ofMsg rt.toProtobuf)).flatMap Frame.encode := by
    rw [List.flatMap_map, List.flatMap_append, ← hout]
    exact (List.prefix_append_right_inj _).mpr (List.prefix_append ..)
  have hread : fs <+: (s.link.greeting ++ kept).map (Frame.ofMsg rt.toProtobuf) := by
    have hdrain := drain_isPrefix hlen (htcp.trans hwritten)
    rw [Decoder.Accounts] at hacc
    rw [hacc] at hdrain
    exact (List.prefix_append ..).trans hdrain
  -- the greeting is not dealt out
  have hskip : (s.link.greeting.map (Frame.ofMsg rt.toProtobuf)).filter LogicIO.Dealt = [] := by
    rw [List.filter_eq_nil_iff]
    intro f hf
    obtain ⟨m, hm, rfl⟩ := List.mem_map.mp hf
    simp [Frame.ofMsg, LogicIO.Dealt, hgreeting m hm]
  have hdealt := hread.filter LogicIO.Dealt
  rw [List.map_append, List.filter_append, hskip, List.nil_append] at hdealt
  have hframes : (fs.filter LogicIO.Dealt).Sublist (kept.map (Frame.ofMsg rt.toProtobuf)) :=
    hdealt.sublist.trans List.filter_sublist
  have hall := SublistForall₂.of_sublist_right (sublistForall₂_of_forall₂ henv) hframes
  rw [List.sublistForall₂_map_right_iff] at hall
  exact SublistForall₂.of_sublist_right
    (SublistForall₂.of_sublist_left hall (List.sublist_append_left ..)) hsub

/-- An offline message that Logic has handled has the same uid in header and body. -/
theorem offline_agrees {s : Conversation} (h : Chained rt s) (hpb : rt.toProtobuf.PresenceCodec)
    (hgreeting : ∀ msg ∈ s.link.greeting, ¬ IsPresence msg.msgId)
    (htcp : Uplink.Delivers rt s.link) {msg : UserMsg} (hmsg : msg ∈ s.link.handled)
    (hoff : LogicWorker.IsOffline msg) : msg.msg.uid = msg.uid := by
  obtain ⟨p, sent, _, _, hreports, _, huid, hbody⟩ :=
    h.sound.authentic hpb hgreeting htcp hmsg (.inr hoff)
  rw [huid, hbody]
  rcases hreports with rfl | rfl
  · rfl
  · rfl

/-! ## Inside Logic -/

/-- The answers are, in order, answers to messages handled, each addressed to the uid
in the header. -/
theorem answers_matched {s : Conversation} (h : Chained rt s)
    (hagrees : ∀ msg ∈ s.link.handled, LogicWorker.IsOffline msg → msg.msg.uid = msg.uid) :
    List.SublistForall₂ (fun rsp msg => LogicWorker.IsDosth msg ∧ ∃ number,
      rsp = LogicWorker.rspOf LogicIO.workerName ⟨msg.uid, number, msg.msg.sth⟩) s.answers
      s.link.handled := by
  obtain ⟨w, hw⟩ := h.order
  rw [hw.answered, LogicIO.answersTo, List.sublistForall₂_map_left_iff]
  have hplain : ∀ r ∈ s.link.handled.filterMap LogicWorker.request, Directory.KeepsPlain r := by
    intro r hr
    obtain ⟨msg, hmsg, hreq⟩ := List.mem_filterMap.mp hr
    unfold LogicWorker.request at hreq
    split_ifs at hreq with hon hoff hdo
    · rw [← Option.some.inj hreq]
      trivial
    · rw [← Option.some.inj hreq]
      exact hagrees msg hmsg hoff
    · rw [← Option.some.inj hreq]
      trivial
  have hmatched := Directory.answers_matched Directory.plain_new hplain
  have hrequests := sublistForall₂_filterMap LogicWorker.request s.link.handled
  refine SublistForall₂.imp_mem (SublistForall₂.comp hmatched hrequests) ?_
  rintro a _ msg _ ⟨r, rfl, hreq⟩
  unfold LogicWorker.request at hreq
  split_ifs at hreq with hon hoff hdo
  · cases hreq
  · cases hreq
  · obtain ⟨huid, htext⟩ := Directory.Request.dosth.inj (Option.some.inj hreq)
    refine ⟨hdo, a.number, ?_⟩
    rw [huid, htext]

/-! ## From Logic to the Gate -/

/-- What the Gate has distributed are envelopes of answers, in order. -/
theorem arrived_matched {s : Conversation} (h : Chained rt s) (hpb : rt.toProtobuf.PresenceCodec)
    {hail : List UInt8} (hhail : ∃ f, frameDecoder.drain hail = ([f], []))
    (htcp : Returns hail s) :
    List.SublistForall₂ (fun msg rsp => MsgCenter.IsEnvelope rt s.link.gate.logic
      (s.link.gate.node s.link.gate.logic).sfd msg (Frame.ofMsg rt.toProtobuf rsp)) s.arrived
      s.answers := by
  obtain ⟨fs, hacc, henv⟩ := h.fromLogic.stream
  obtain ⟨_, written, kept, hanswers, hsub, hout⟩ := h.streamed
  have hlen : ∀ f ∈ kept.map (Frame.ofMsg rt.toProtobuf), f.body.length < 2 ^ 32 := by
    intro f hf
    obtain ⟨m, _, rfl⟩ := List.mem_map.mp hf
    exact hpb.length_lt m.msg
  have haccepted : s.link.logic.sock.accepted <+:
      (kept.map (Frame.ofMsg rt.toProtobuf)).flatMap Frame.encode := by
    rw [List.flatMap_map, ← hout]
    exact List.prefix_append ..
  -- the first frame was read by the IO thread of the Gate
  have hread := drain_isPrefix hlen (htcp.trans haccepted)
  obtain ⟨first, hfirst⟩ := hhail
  rw [Decoder.drain_append, hfirst, List.nil_append] at hread
  obtain ⟨k, kept', rfl, hrest⟩ : ∃ k kept', kept = k :: kept' ∧
      (frameDecoder.drain (s.link.gate.node s.link.gate.logic).received).1 <+:
        kept'.map (Frame.ofMsg rt.toProtobuf) := by
    cases kept with
    | nil => exact absurd (List.prefix_nil.mp hread) (List.cons_ne_nil _ _)
    | cons k kept' => exact ⟨k, kept', rfl, (List.cons_prefix_cons.mp hread).2⟩
  have hkept : kept'.Sublist s.answers := by
    rw [← hanswers]
    apply List.Sublist.trans ?_ (List.sublist_append_left ..)
    cases hsub with
    | cons _ hsub => exact (List.sublist_cons_self k kept').trans hsub
    | cons_cons _ hsub => exact hsub
  have hframes : (fs.filter fun f => MsgCenter.registered f.msgId).Sublist
      (kept'.map (Frame.ofMsg rt.toProtobuf)) := by
    rw [Decoder.Accounts] at hacc
    rw [hacc] at hrest
    exact List.filter_sublist.trans ((List.prefix_append ..).trans hrest).sublist
  rw [h.distributed, List.append_nil] at henv
  have hall := SublistForall₂.of_sublist_right (sublistForall₂_of_forall₂ henv) hframes
  rw [List.sublistForall₂_map_right_iff] at hall
  exact SublistForall₂.of_sublist_right hall hkept

/-! ## All the way -/

/-- Between any two steps every delivery answers a request. -/
theorem Chained.answered {s : Conversation} (h : Chained rt s)
    (hpb : rt.toProtobuf.PresenceCodec) {hail : List UInt8}
    (hgreeting : ∀ msg ∈ s.link.greeting, msg.msgId = ProtocolDefine.systemVerifyRsp.toInt)
    (hhail : ∃ f, frameDecoder.drain hail = ([f], [])) (hup : Uplink.Delivers rt s.link)
    (hdown : Returns hail s) :
    List.SublistForall₂ (AnswerTo rt s.link.gate) s.delivered s.link.gate.toLogic := by
  have hpresence : ∀ msg ∈ s.link.greeting, ¬ IsPresence msg.msgId := by
    intro msg hmsg
    rw [hgreeting msg hmsg]
    decide
  have hagrees : ∀ msg ∈ s.link.handled, LogicWorker.IsOffline msg → msg.msg.uid = msg.uid :=
    fun msg hmsg => offline_agrees h hpb hpresence hup hmsg
  -- the four channels behind each other
  have hback := SublistForall₂.of_sublist_left (arrived_matched h hpb hhail hdown) h.delivered
  rw [List.sublistForall₂_map_left_iff] at hback
  have hall := SublistForall₂.comp (SublistForall₂.comp hback (answers_matched h hagrees))
    (handled_matched h hpb hgreeting hup)
  refine SublistForall₂.imp_mem hall ?_
  rintro d hd req hreq ⟨msg, ⟨rsp, henv, hdosth, number, rfl⟩, hsent⟩
  obtain ⟨hconn, huid⟩ := h.conns d hd
  obtain ⟨q, hq, hasked⟩ := h.sound.idle.wellFormed.accounted req (List.mem_append_left _ hreq)
  have hheader : msg.msgId = req.msgId ∧ msg.uid = req.uid := by
    obtain ⟨mc, t, _, rfl⟩ := hsent
    exact ⟨rfl, rfl⟩
  have hanswer : d.2.msgId = ProtocolDefine.userDosthRsp.toInt ∧ d.2.uid = msg.uid := by
    obtain ⟨mc, t, _, heq⟩ := henv
    rw [heq]
    exact ⟨rfl, rfl⟩
  have hsame : d.2.uid = req.uid := hanswer.2.trans hheader.2
  refine ⟨?_, hanswer.1, hsame, ⟨hconn, huid.trans hsame⟩, ⟨q, hq, hasked.uid_eq.symm, hasked⟩,
    number, s.link.logic.sock.sfd, msg, hsent, ?_⟩
  · rw [LogicWorker.IsDosth, ← hheader.1]
    exact hdosth
  · rw [← hheader.2]
    exact henv

end Conversation

end Rubo.Server
