import Rubo.Msgs.BodyFidelity
import Rubo.Msgs.Proto2
import Rubo.Server.LogicIO
import Rubo.Server.LogicStream

/-!
# Who Reports Presence to Logic

A worker of the Gate, the Logic process behind it, and the connection between
them. A presence message that Logic handles should be the gate's own, and be
about the uid of the connection it reports.

- `authentic_of_along`: so it is in every run with honest rounds of the worker.
- `not_authentic_forgingUser`: `handler_epdata` compares the uid in the header only,
  and lets every registered id through. A client can report anybody.
-/

namespace Rubo.Server

open Rubo.Foundation Rubo.Msgs Rubo.Util

/-- A worker of the Gate and the Logic process it serves. -/
structure Uplink where
  gate : GateWorker
  logic : LogicIO
  /-- The messages the IO thread of the Gate wrote on the connection before the
  worker took it over, each of them whole. -/
  greeting : List UserMsg
  /-- History: the messages the workers of Logic have handled. -/
  handled : List UserMsg

namespace Uplink

variable (rt : Runtime)

/-! ## Runs -/

/-- A step: a round of the Gate's worker, a round of Logic's IO thread, or a pass
of one of Logic's workers. -/
inductive Act where
  | gate (r : WorkerRound)
  | io (r : LogicRound)
  | worker (i : ℕ)

def init (logicFd : Int32) (greeting : List UserMsg) (logic : LogicIO) : Uplink where
  gate := .init logicFd
  logic := logic
  greeting := greeting
  handled := []

def step (s : Uplink) : Act → Uplink
  | .gate r => { s with gate := s.gate.threadLoop rt r }
  | .io r => { s with logic := s.logic.threadLoop rt r }
  | .worker i => { s with logic := s.logic.workerLoop i, handled := s.handled ++ s.logic.batch i }

/-- What the Gate has written on the connection. -/
def written (s : Uplink) : List UInt8 :=
  (s.greeting.flatMap fun msg => (Frame.ofMsg rt.toProtobuf msg).encode) ++
    (s.gate.node s.gate.logic).accepted

/-- TCP delivers what was written, in order; the rest may still be on its way. -/
def Delivers (s : Uplink) : Prop := s.logic.sock.received <+: s.written rt

instance (s : Uplink) : Decidable (Delivers rt s) :=
  inferInstanceAs (Decidable (_ <+: _))

/-! ## What a presence message should be -/

/-- The gate wrote this presence message itself, about the connection `p`. -/
def Reports (w : GateWorker) (p : Ptr) (msg : UserMsg) : Prop :=
  msg = GateWorker.onlineOf p (w.heap.obj p).uid ∨ msg = GateWorker.offlineOf p (w.heap.obj p).uid

/-- The message handled is one the gate sent about a connection, and its body
carries the uid of that connection. -/
def Authentic (s : Uplink) (msg : UserMsg) : Prop :=
  ∃ p sent, s.gate.IsConn p ∧ sent ∈ s.gate.toLogic ∧ Reports s.gate p sent ∧
    msg.msgId = sent.msgId ∧ msg.uid = sent.uid ∧ msg.msg.uid = (s.gate.heap.obj p).uid

/-- The condition on a step. -/
def Admits (s : Uplink) : Act → Prop
  | .gate r => s.gate.Honest rt r
  | .io _ => True
  | .worker _ => True

instance (s : Uplink) : (a : Act) → Decidable (Admits rt s a)
  | .gate r => inferInstanceAs (Decidable (s.gate.Honest rt r))
  | .io _ => inferInstanceAs (Decidable True)
  | .worker _ => inferInstanceAs (Decidable True)

/-! ## The body of a presence message -/

variable {rt}

/-- A presence message about `v` is read as one about `v`: the body is cut at its
first zero byte, but only the uid 0 has one, and 0 is what an unset uid reads as. -/
theorem uid_envelope (hpb : rt.toProtobuf.PresenceCodec) {user : Ptr} {sfd : Int32}
    {mc : MsgCenter} {t : MsgType} (ht : t.IsPresence) {f : Frame} {v : Int32}
    (hroom : LineBuffer.defLineBuffSize ≤ mc.parseBuff.buffSize)
    (hbody : f.body = Proto2.encodeField 1 (.int32 v)) :
    (MsgCenter.envelope rt user sfd mc t f).msg.uid = v := by
  have hmsg : (MsgCenter.envelope rt user sfd mc t f).msg =
      ((Message.new t).parseFromString rt.toProtobuf
        (rt.cString (mc.parseBuff.hold f.body).data)).2 := rfl
  -- the block has room for a zero byte behind the body
  have hsize : f.body.length < (mc.parseBuff.hold f.body).buffSize := by
    have hle := Proto2.length_encodeField_le v
    have hgrown := mc.parseBuff.buffSize_le_hold f.body
    rw [← hbody] at hle
    unfold LineBuffer.defLineBuffSize at hroom
    omega
  obtain ⟨pad, hpad⟩ := Nat.exists_eq_succ_of_ne_zero (Nat.sub_ne_zero_of_lt hsize)
  rw [hmsg, LineBufferPtr.data_hold, hpad, hbody]
  by_cases hv : v = 0
  · -- the value byte is lost, and the key alone sets nothing
    subst hv
    have hcut : rt.cString (Proto2.encodeField 1 (.int32 0) ++ List.replicate (pad + 1) 0) = [8] := rfl
    rw [hcut, hpb.parse_key t ht]
  · rw [MsgCenter.cString_eq_iff.mpr (Proto2.zero_notMem_encodeField hv), hpb.parse_uid t ht]

/-! ## What Logic receives -/

/-- The ids the Gate itself gives to presence messages, and the types behind them. -/
theorem typeOf_of_isPresence {msgId : Int32} {t : MsgType} (h : IsPresence msgId)
    (ht : MsgCenter.typeOf msgId = some t) : t.IsPresence := by
  have honline : MsgCenter.typeOf ProtocolDefine.userOnlineReq.toInt = some .userOnlineReq := by
    decide
  have hoffline : MsgCenter.typeOf ProtocolDefine.userOfflineReq.toInt = some .userOfflineReq := by
    decide
  rcases h with rfl | rfl
  · exact .inl (Option.some.inj (ht.symm.trans honline))
  · exact .inr (Option.some.inj (ht.symm.trans hoffline))

/-- The body of a presence message of the gate. -/
theorem Reports.body (hpb : rt.toProtobuf.PresenceCodec) {w : GateWorker} {p : Ptr} {msg : UserMsg}
    (h : Reports w p msg) : (Frame.ofMsg rt.toProtobuf msg).body =
      Proto2.encodeField 1 (.int32 (w.heap.obj p).uid) := by
  rcases h with rfl | rfl
  · exact hpb.serialize_uid _ (.inl rfl) _
  · exact hpb.serialize_uid _ (.inr rfl) _

/-- Every frame Logic reads is the frame of a message the Gate wrote. -/
theorem exists_written {s : Uplink} (hpb : rt.toProtobuf.PresenceCodec)
    (hframed : GateWorker.Framed rt s.gate) (htcp : Delivers rt s) {f : Frame}
    (hf : f ∈ (frameDecoder.drain s.logic.sock.received).1) :
    ∃ sent, (sent ∈ s.greeting ∨ sent ∈ s.gate.toLogic) ∧ f = Frame.ofMsg rt.toProtobuf sent := by
  obtain ⟨_, kept, hsub, hout⟩ := hframed
  -- the stream is the front of the frames of `greeting` and `kept`
  obtain ⟨pending, hpending⟩ := htcp
  have hstream : s.logic.sock.received ++
      (pending ++ (s.gate.node s.gate.logic).wtBuff.toList) =
        ((s.greeting ++ kept).map (Frame.ofMsg rt.toProtobuf)).flatMap Frame.encode := by
    rw [← List.append_assoc, hpending, written, List.append_assoc, List.flatMap_map,
      List.flatMap_append, ← hout]
    rfl
  have hread := Decoder.drain_fst_prefix (d := frameDecoder) s.logic.sock.received
    (pending ++ (s.gate.node s.gate.logic).wtBuff.toList)
  rw [hstream] at hread
  have hlen : ∀ g ∈ (s.greeting ++ kept).map (Frame.ofMsg rt.toProtobuf),
      g.body.length < 2 ^ 32 := by
    intro g hg
    obtain ⟨m, _, rfl⟩ := List.mem_map.mp hg
    exact hpb.length_lt m.msg
  have hmem := (hread.trans (drain_encode_isPrefix hlen)).subset hf
  obtain ⟨sent, hsent, hfsent⟩ := List.mem_map.mp hmem
  refine ⟨sent, ?_, hfsent.symm⟩
  rcases List.mem_append.mp hsent with hgreet | hkept
  · exact .inl hgreet
  · exact .inr (hsub.subset hkept)

/-! ## The invariant -/

/-- What holds of both processes between any two steps. -/
structure Sound (rt : Runtime) (s : Uplink) : Prop where
  idle : GateWorker.Idle rt s.gate
  outbound : GateWorker.Outbound rt s.gate
  logic : LogicIO.Sound rt s.handled s.logic

theorem sound_step {s : Uplink} {a : Act} (h : Sound rt s) (ha : Admits rt s a) :
    Sound rt (step rt s a) := by
  cases a with
  | gate r =>
      exact ⟨GateWorker.idle_threadLoop h.idle r, GateWorker.outbound_threadLoop rt h.outbound ha,
        h.logic⟩
  | io r => exact ⟨h.idle, h.outbound, LogicIO.sound_threadLoop h.logic r⟩
  | worker i => exact ⟨h.idle, h.outbound, LogicIO.sound_workerLoop h.logic i⟩

/-- A genuine presence message is about one of the gate's connections. -/
theorem exists_reports {w : GateWorker} (hwell : GateWorker.WellFormed rt w)
    (hout : GateWorker.Outbound rt w) {msg : UserMsg} (hmsg : msg ∈ w.toLogic)
    (hpres : IsPresence msg.msgId) : ∃ p, w.IsConn p ∧ Reports w p msg := by
  have hqueue : msg ∈ w.queue := List.mem_append_left _ hmsg
  obtain ⟨q, hsrc⟩ := hout.genuine msg hqueue hpres
  obtain ⟨p, hp, hacc⟩ := hwell.accounted msg hqueue
  refine ⟨p, hp, ?_⟩
  cases hacc with
  | online h => exact .inl h
  | offline h => exact .inr h
  | frame f huid henv =>
      -- envelopes are not the gate's own
      obtain ⟨mc, t, _, rfl⟩ := henv
      cases hsrc

/-- Between any two steps every presence message handled is authentic. -/
theorem Sound.authentic {s : Uplink} (h : Sound rt s) (hpb : rt.toProtobuf.PresenceCodec)
    (hgreeting : ∀ msg ∈ s.greeting, ¬ IsPresence msg.msgId) (htcp : Delivers rt s)
    {msg : UserMsg} (hmsg : msg ∈ s.handled) (hpres : IsPresence msg.msgId) : Authentic s msg := by
  obtain ⟨f, hf, mc, t, hroom, htype, rfl⟩ := h.logic.arrived msg (.inr hmsg)
  obtain ⟨sent, hsent, rfl⟩ := exists_written hpb h.outbound.framed htcp hf
  have hto : sent ∈ s.gate.toLogic := by
    rcases hsent with hgreet | hto
    · exact absurd hpres (hgreeting sent hgreet)
    · exact hto
  obtain ⟨p, hp, hreports⟩ := exists_reports h.idle.wellFormed h.outbound hto hpres
  refine ⟨p, sent, hp, hto, hreports, rfl, rfl, ?_⟩
  exact uid_envelope hpb (typeOf_of_isPresence hpres htype) hroom (hreports.body hpb)

/-- **Presence messages are authentic** in every run in which the rounds of the
Gate's worker are honest: each one Logic handles was sent by the gate about one of
its connections, under that connection's uid, and no frame of a client was passed
on as one. -/
theorem authentic_of_along (hpb : rt.toProtobuf.PresenceCodec) {logicFd sockFd : Int32}
    {writes : List WriteRes} {logic : LogicIO} {greeting : List UserMsg} {acts : List Act}
    (hinit : LogicIO.init rt sockFd writes = some logic)
    (hgreeting : ∀ msg ∈ greeting, ¬ IsPresence msg.msgId)
    (hadmits : Along (step rt) (Admits rt) (init logicFd greeting logic) acts)
    (htcp : Delivers rt (run (step rt) (init logicFd greeting logic) acts)) :
    (∀ msg ∈ (run (step rt) (init logicFd greeting logic) acts).handled, IsPresence msg.msgId →
        Authentic (run (step rt) (init logicFd greeting logic) acts) msg) ∧
      ∀ msg ∈ (run (step rt) (init logicFd greeting logic) acts).gate.toLogic,
        IsPresence msg.msgId → ∃ p, msg.src = .gate p := by
  have hsound : Sound rt (run (step rt) (init logicFd greeting logic) acts) := by
    refine run_invariant_of_along (fun s a => sound_step) ?_ hadmits
    exact ⟨GateWorker.idle_init logicFd, GateWorker.outbound_init rt logicFd, LogicIO.sound_init hinit⟩
  -- nothing is added to the greeting later
  have hsame : (run (step rt) (init logicFd greeting logic) acts).greeting = greeting := by
    refine run_invariant (I := fun s : Uplink => s.greeting = greeting) ?_ rfl acts
    intro s a hs
    cases a with
    | gate r => exact hs
    | io r => exact hs
    | worker i => exact hs
  generalize run (step rt) (init logicFd greeting logic) acts = s at htcp hsound hsame ⊢
  rw [← hsame] at hgreeting
  refine ⟨fun msg => hsound.authentic hpb hgreeting htcp, ?_⟩
  intro msg hmsg hpres
  exact hsound.outbound.genuine msg (List.mem_append_left _ hmsg) hpres

/-! ## Runs on fixed inputs -/

/-- The answer to a verification, as `Gate::on_system_verify` makes it. -/
def verifyRsp : UserMsg :=
  { sfd := 9, msgId := ProtocolDefine.systemVerifyRsp.toInt, msg := (Message.new .verifyRsp).setIsOK true }

theorem isSome_init : (Option.isSome <| LogicIO.init .proto2 4 [.took 2048]) = true := by
  decide +kernel

/-- A Logic process that has connected under descriptor 4. -/
def startedLogic : LogicIO := Option.get _ isSome_init

/-- The bytes of some frames arrive at Logic, and its worker handles them. -/
def logicHandles (frames : List Frame) : List Act :=
  [.io { events := [(⟨4, true, false⟩, { reads := [.data (frames.flatMap Frame.encode)] })] },
   .worker 0]

/-- A user connects as uid 1. -/
def userConnects : Act :=
  .gate { ioevs := [{ sfd := 5, uid := 1, event := FdEvent.connect }], writes := [.took 2048] }

/-- The user connects, makes a request and leaves. -/
def politeUser : List Act :=
  [userConnects,
   .gate { ready := .one ⟨5, true, false⟩
           io := fun _ => { reads := [.data (Frame.encode ⟨9, 1, [8, 1, 18, 1, 97]⟩)] }
           writes := [.took 2048] },
   .gate { ready := .one ⟨5, true, false⟩, io := fun _ => { reads := [.eof] }, writes := [.took 2048] }] ++
  logicHandles [Frame.ofMsg .proto2 verifyRsp, ⟨7, 1, [8, 1]⟩] ++
  logicHandles [⟨9, 1, [8, 1, 18, 1, 97]⟩, ⟨8, 1, [8, 1]⟩]

/-- Both presence messages of `politeUser` are handled, and are authentic. -/
theorem authentic_politeUser :
    (((run (step .proto2) (init 3 [verifyRsp] startedLogic) politeUser).handled.filter
        fun msg => IsPresence msg.msgId).map fun msg => (msg.msgId, msg.msg.uid)) = [(7, 1), (8, 1)] ∧
      ∀ msg ∈ (run (step .proto2) (init 3 [verifyRsp] startedLogic) politeUser).handled,
        IsPresence msg.msgId →
          Authentic (run (step .proto2) (init 3 [verifyRsp] startedLogic) politeUser) msg :=
  ⟨by decide +kernel,
    (authentic_of_along Protobuf.presenceCodec_proto2 (Option.some_get isSome_init).symm
      (by decide) (by decide +kernel) (by decide +kernel)).1⟩

/-- The user connects as uid 1 and reports uid 2 to be online. -/
def forgingUser : List Act :=
  [userConnects,
   .gate { ready := .one ⟨5, true, false⟩
           io := fun _ => { reads := [.data (Frame.encode ⟨7, 1, [8, 2]⟩)] }
           writes := [.took 2048] }] ++
  logicHandles [Frame.ofMsg .proto2 verifyRsp, ⟨7, 1, [8, 1]⟩, ⟨7, 1, [8, 2]⟩]

/-- Presence messages are not authentic in general: Logic handles the online
message of `forgingUser` about uid 2, and no connection of the gate has that uid. -/
theorem not_authentic_forgingUser :
    ¬ ∀ (rt : Runtime), rt.toProtobuf.PresenceCodec →
      ∀ (logicFd sockFd : Int32) (writes : List WriteRes) (logic : LogicIO)
        (greeting : List UserMsg) (acts : List Act),
        LogicIO.init rt sockFd writes = some logic →
        (∀ msg ∈ greeting, ¬ IsPresence msg.msgId) →
        Delivers rt (run (step rt) (init logicFd greeting logic) acts) →
        ∀ msg ∈ (run (step rt) (init logicFd greeting logic) acts).handled, IsPresence msg.msgId →
          Authentic (run (step rt) (init logicFd greeting logic) acts) msg := by
  intro h
  have hrun := h .proto2 Protobuf.presenceCodec_proto2 3 4 [.took 2048] startedLogic [verifyRsp]
    forgingUser (Option.some_get isSome_init).symm (by decide) (by decide +kernel)
  have hmsg : ∃ msg ∈ (run (step .proto2) (init 3 [verifyRsp] startedLogic) forgingUser).handled,
      IsPresence msg.msgId ∧ msg.msg.uid = 2 := by decide +kernel
  obtain ⟨msg, hmem, hpres, huid⟩ := hmsg
  obtain ⟨p, _, hp, _, _, _, _, hbody⟩ := hrun msg hmem hpres
  -- the only connection has uid 1
  have honly : ∀ p < (run (step .proto2) (init 3 [verifyRsp] startedLogic) forgingUser).gate.heap.next,
      p ≠ (run (step .proto2) (init 3 [verifyRsp] startedLogic) forgingUser).gate.logic →
        ((run (step .proto2) (init 3 [verifyRsp] startedLogic) forgingUser).gate.heap.obj p).uid = 1 := by
    decide +kernel
  rw [huid, honly p hp.1 hp.2] at hbody
  exact absurd hbody (by decide)

end Uplink

end Rubo.Server
