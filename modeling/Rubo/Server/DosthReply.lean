import Rubo.Msgs.BodyFidelity
import Rubo.Msgs.Leftover
import Rubo.Msgs.Proto2
import Rubo.Server.LogicIO

/-!
# Answers the Gate Can Take

`on_user_dosth` echoes the text of a request behind a prefix and the name of the
worker, so an answer is longer than its request. The Gate's parser takes frames
with at most 2048 bytes of body. `dosthReply_passedOn_iff` says when it takes an
answer; if it does not, it stops in front of it for ever, and with it all
answers on the connection to Logic.
-/

namespace Rubo.Server.LogicWorker

open Rubo.Foundation Rubo.Msgs Rubo.Util

/-- The bytes `SocketOp::write(sock, msg)` hands to `send`. -/
def written (pb : Protobuf) (wtBuff : LineBufferPtr) (msg : UserMsg) : List UInt8 :=
  (SocketOp.fillFrame pb wtBuff msg).data.take ((pb.serializeToArray msg.msg).length + 12)

/-- What a call of `parse_package` returns, as ids and uids, and what it leaves. -/
def parsed (rt : Runtime) (mc : MsgCenter) (user : Ptr) (sock : SocketNode) :
    List (Int32 × Int32) × List UInt8 :=
  let (msgs, _, sock) := mc.parsePackage rt user sock
  (msgs.map fun m => (m.msgId, m.uid), sock.rdBuff.toList)

/-- The parser takes the bytes for one message with the ids of `msg`, and goes on
with whatever is behind them. -/
def PassedOn (rt : Runtime) (bytes : List UInt8) (msg : UserMsg) : Prop :=
  ∀ (mc : MsgCenter) (user : Ptr) (sock sock' : SocketNode),
    sock.rdBuff.toList = bytes ++ sock'.rdBuff.toList →
      parsed rt mc user sock =
        ((msg.msgId, msg.uid) :: (parsed rt mc user sock').1, (parsed rt mc user sock').2)

/-- The answer to a `DoSthReq`. -/
def dosthReply (w : LogicWorker) (msg : UserMsg) (user : Ptr) : UserMsg where
  uid := (w.heap.obj user).uid
  msgId := ProtocolDefine.userDosthRsp.toInt
  msg := Proto2.dosthRsp w.dosthId (dosthRspFrom ++ w.name ++ msg.msg.sth)

theorem outMsgs_onUserDosth (w : LogicWorker) (msg : UserMsg) (user : Ptr) :
    (w.onUserDosth msg (some user)).outMsgs = w.outMsgs ++ [w.dosthReply msg user] := rfl

variable {rt : Runtime}

theorem parsed_eq (mc : MsgCenter) (user : Ptr) (sock : SocketNode) :
    parsed rt mc user sock = (headers (MsgCenter.taken sock.rdBuff.toList).1,
      (MsgCenter.taken sock.rdBuff.toList).2) := by
  obtain ⟨buff, hleft, hparse⟩ := MsgCenter.parsePackage_eq rt user mc sock
  simp only [parsed, hparse, map_envelopes_taken, hleft]

/-- A message with a registered id gets through iff its frame is well formed. -/
theorem passedOn_iff (wtBuff : LineBufferPtr) (msg : UserMsg) {t : MsgType}
    (htype : MsgCenter.typeOf msg.msgId = some t)
    (hlen : (rt.serializeToArray msg.msg).length < 2 ^ 32) :
    PassedOn rt (written rt.toProtobuf wtBuff msg) msg ↔
      (Frame.ofMsg rt.toProtobuf msg).WellFormed := by
  have hwritten : written rt.toProtobuf wtBuff msg = (Frame.ofMsg rt.toProtobuf msg).encode :=
    SocketOp.take_fillFrame rt.toProtobuf wtBuff msg
  have hreg : MsgCenter.registered msg.msgId = true := MsgCenter.registered_iff.mpr ⟨t, htype⟩
  rw [hwritten]
  constructor
  · intro h
    by_contra hf
    -- the parser never gets past the frame
    have hbuff : (RingBuffPtr.new.addData (Frame.ofMsg rt.toProtobuf msg).encode).toList =
        (Frame.ofMsg rt.toProtobuf msg).encode ++ RingBuffPtr.new.toList := by
      rw [RingBuffPtr.toList_addData]
      simp
    have hone := h .new 0 { rdBuff := RingBuffPtr.new.addData (Frame.ofMsg rt.toProtobuf msg).encode }
      {} hbuff
    have hnext := frameNext_of_not_wellFormed hf hlen RingBuffPtr.new.toList
    rw [parsed_eq, hbuff, MsgCenter.taken_of_none hnext] at hone
    cases (Prod.mk.inj hone).1
  · intro hf mc user sock sock' hsock
    have hnext := frameNext_encode hf sock'.rdBuff.toList
    rw [parsed_eq, parsed_eq, hsock, MsgCenter.taken_of_registered hnext htype]
    simp only [headers, List.filter_cons, Frame.ofMsg, hreg, if_true, List.map_cons]

/-- **When the Gate takes an answer**: the text of the answer is `"DoSthRsp From "`,
the name of the worker and the text of the request, and the Gate gets past the
answer iff its size on the wire is at most 2048. -/
theorem dosthReply_passedOn_iff (rt : Runtime) (hcodec : rt.DosthCodec) (w : LogicWorker)
    (msg : UserMsg) (user : Ptr) :
    ∃ rsp, (w.onUserDosth msg (some user)).outMsgs = w.outMsgs ++ [rsp] ∧
      ∀ wtBuff : LineBufferPtr, PassedOn rt (written rt.toProtobuf wtBuff rsp) rsp ↔
        Proto2.dosthRspSize w.dosthId (14 + w.name.length + msg.msg.sth.length) ≤ 2048 := by
  refine ⟨w.dosthReply msg user, outMsgs_onUserDosth w msg user, fun wtBuff => ?_⟩
  have htext : (dosthRspFrom ++ w.name ++ msg.msg.sth).length =
      14 + w.name.length + msg.msg.sth.length := by
    rw [List.length_append, List.length_append]
    rfl
  have hlength := hcodec.length_rsp w.dosthId (dosthRspFrom ++ w.name ++ msg.msg.sth)
  have hlarge := hcodec.length_large w.dosthId (dosthRspFrom ++ w.name ++ msg.msg.sth)
  rw [htext] at hlength hlarge
  generalize hsize : Proto2.dosthRspSize w.dosthId (14 + w.name.length + msg.msg.sth.length) = size
    at hlength hlarge ⊢
  -- two keys alone make two bytes
  have hmin : 2 ≤ size := by
    rw [← hsize, Proto2.dosthRspSize]
    omega
  have hbody : (rt.serializeToArray (w.dosthReply msg user).msg).length =
      if size ≤ Proto2.sizeMax then size else 0 := by
    split_ifs with hfits
    · exact hlength hfits
    · exact List.length_eq_zero_iff.mpr (hlarge (Nat.not_le.mp hfits))
  have hlt : (rt.serializeToArray (w.dosthReply msg user).msg).length < 2 ^ 32 := by
    rw [hbody, Proto2.sizeMax]
    split_ifs <;> omega
  have htype : MsgCenter.typeOf ProtocolDefine.userDosthRsp.toInt = some .doSthRsp := by decide
  have hgate := passedOn_iff wtBuff (w.dosthReply msg user) htype hlt
  rw [hgate]
  show 2 ≤ (rt.serializeToArray (w.dosthReply msg user).msg).length ∧
    (rt.serializeToArray (w.dosthReply msg user).msg).length ≤ 2048 ↔ _
  rw [hbody, Proto2.sizeMax]
  split_ifs <;> omega

/-- The answer to a request without text gets through. -/
theorem dosthReply_passedOn_empty :
    ∃ rsp, ((new LogicIO.workerName).onUserDosth { msg := .new .doSthReq } (some 0)).outMsgs =
        [rsp] ∧ ∀ wtBuff : LineBufferPtr, PassedOn .proto2 (written .proto2 wtBuff rsp) rsp := by
  obtain ⟨rsp, hout, hiff⟩ := dosthReply_passedOn_iff .proto2 Protobuf.dosthCodec_proto2
    (new LogicIO.workerName) { msg := .new .doSthReq } 0
  exact ⟨rsp, hout, fun wtBuff => (hiff wtBuff).mpr (by decide)⟩

/-! ## A request with a long text -/

/-- 2020 times the letter `a`. -/
def longText : List UInt8 := List.replicate 2020 97

/-- A request that `parse_package` accepts. -/
def longRequest : Frame where
  msgId := ProtocolDefine.userDosthReq.toInt
  uid := 1
  body := Proto2.encodeField 1 (.int32 1) ++ Proto2.encodeField 2 (.string longText)

theorem length_longText : longText.length = 2020 := List.length_replicate

theorem length_longRequest : longRequest.body.length = 2025 := by
  have hsth : (Proto2.encodeField 2 (.string longText)).length = 2023 := by
    rw [Proto2.encodeField, length_longText, List.length_append, List.length_append, length_longText]
    decide
  rw [longRequest, List.length_append, hsth]
  decide

/-- Its text reaches the worker as it was sent. -/
theorem exists_longRequest :
    ∃ msg ∈ (MsgCenter.parsePackage .proto2 .new 0 (MsgCenter.oneFrame longRequest)).1,
      msg.msgId = ProtocolDefine.userDosthReq.toInt ∧ msg.msg.sth = longText := by
  have htype : MsgCenter.typeOf longRequest.msgId = some .doSthReq := by decide
  have hwell : longRequest.WellFormed := by
    rw [Frame.WellFormed, length_longRequest]
    decide
  have hparse : Proto2.parse .doSthReq longRequest.body =
      (true, [(2, .string longText), (1, .int32 1)], []) :=
    Proto2.parse_dosthReq 1 (by rw [length_longText]; decide)
  have hnoZero : 0 ∉ longRequest.body := by
    intro hmem
    rcases List.mem_append.mp hmem with hmem | hmem
    · exact Proto2.zero_notMem_encodeField (by decide) hmem
    · rw [Proto2.encodeField, length_longText] at hmem
      rcases List.mem_append.mp hmem with hmem | hmem
      · exact absurd hmem (by decide)
      · rcases List.mem_append.mp hmem with hmem | hmem
        · exact absurd hmem (by decide)
        · exact absurd (List.eq_of_mem_replicate hmem) (by decide)
  -- an odd number of bytes is no doubling of the block
  have hfits : MsgCenter.Fits Protobuf.proto2 .doSthReq MsgCenter.new.parseBuff.buffSize longRequest := by
    refine ⟨hnoZero, fun k hk => ?_, ?_⟩
    · rw [length_longRequest] at hk
      have hsize : 2025 = 256 * 2 ^ k := hk
      omega
    · exact congrArg Prod.fst hparse
  have hpos : 0 < longRequest.body.length := by
    rw [length_longRequest]
    decide
  have hfaithful : MsgCenter.Faithful
      (MsgCenter.envelope .proto2 0 5 .new .doSthReq longRequest) longRequest :=
    (MsgCenter.faithful_envelope_iff hpos).mpr hfits
  obtain ⟨r, hr, hstring, _⟩ := hfaithful
  cases hr
  refine ⟨MsgCenter.envelope .proto2 0 5 .new .doSthReq longRequest, ?_, rfl, ?_⟩
  · rw [MsgCenter.parsePackage_oneFrame .proto2 hwell htype]
    exact List.mem_singleton_self _
  · simp only at hstring
    simp only [MsgCenter.envelope, hstring]
    have hmsg : ((Message.new .doSthReq).parseFromString .proto2 longRequest.body).2 =
        ⟨.doSthReq, [(2, .string longText), (1, .int32 1)], []⟩ := by
      rw [Message.parseFromString_proto2, hparse]
    exact congrArg Message.sth hmsg

/-- Not every answer gets through: the one to the long request, by the worker
Logic starts, is four bytes too long. -/
theorem not_dosthReply_passedOn_long :
    ¬ ∀ (rt : Runtime), rt.DosthCodec →
      ∀ (mc : MsgCenter) (p : Ptr) (sock : SocketNode), ∀ msg ∈ (mc.parsePackage rt p sock).1,
        msg.msgId = ProtocolDefine.userDosthReq.toInt →
          ∀ (w : LogicWorker) (user : Ptr), ∃ rsp,
            (w.onUserDosth msg (some user)).outMsgs = w.outMsgs ++ [rsp] ∧
              ∀ wtBuff : LineBufferPtr, PassedOn rt (written rt.toProtobuf wtBuff rsp) rsp := by
  intro h
  obtain ⟨msg, hmem, hid, hsth⟩ := exists_longRequest
  obtain ⟨rsp, hout, hpassed⟩ := h .proto2 Protobuf.dosthCodec_proto2 .new 0
    (MsgCenter.oneFrame longRequest) msg hmem hid (new LogicIO.workerName) 0
  have hlast := (outMsgs_onUserDosth (new LogicIO.workerName) msg 0).symm.trans hout
  cases List.append_cancel_left hlast
  have hlt : (Runtime.proto2.serializeToArray
      ((new LogicIO.workerName).dosthReply msg 0).msg).length = 2052 := by
    have hsize := Protobuf.dosthCodec_proto2.length_rsp (new LogicIO.workerName).dosthId
      (dosthRspFrom ++ (new LogicIO.workerName).name ++ msg.msg.sth)
    have htext : (dosthRspFrom ++ (new LogicIO.workerName).name ++ msg.msg.sth).length = 2047 := by
      rw [List.length_append, hsth, length_longText]
      decide
    rw [htext] at hsize
    exact hsize (by decide)
  have htype : MsgCenter.typeOf ProtocolDefine.userDosthRsp.toInt = some .doSthRsp := by decide
  have hgate := (passedOn_iff .new ((new LogicIO.workerName).dosthReply msg 0) htype
    (by rw [hlt]; decide)).mp (hpassed .new)
  have hle := hgate.2
  rw [Frame.ofMsg, hlt] at hle
  exact absurd hle (by decide)

end Rubo.Server.LogicWorker
