import Rubo.Foundation.Machine
import Rubo.Msgs.Framing
import Rubo.Util.SocketOp

/-!
# The Outgoing Stream of a Connection

What leaves a connection is what `::write` accepted; what is still to leave is in
its `_wt_buff`. The two together should be the frames handed to
`write(sock, msg)`, in call order, whatever the flushes in between.

The code keeps this order as long as no message is written past pending bytes:
`send` tests `_can_wt` before it writes, but `_can_wt` is always `true`, so a
message written while `_wt_buff` is not empty goes out first unless the kernel
refuses it at once (`stream_of_along`, `not_stream_pastPending`).
-/

namespace Rubo.Util

open Rubo.Foundation Rubo.Msgs Memory

/-! ## Schedules of the kernel -/

/-- A `::write` that takes the whole chunk or fails with `EINTR` or `EAGAIN`;
no chunk is longer than `WRITE_DATA_MAX`. -/
def WriteRes.Whole : WriteRes → Prop
  | .took n => SocketOp.writeDataMax ≤ n
  | .eintr | .eagain => True
  | .error => False

instance : DecidablePred WriteRes.Whole := fun r => by
  cases r <;> unfold WriteRes.Whole <;> infer_instance

/-- The first result other than `EINTR` is `EAGAIN`. -/
def blocked : List WriteRes → Bool
  | [] => true
  | .eintr :: writes => blocked writes
  | .eagain :: _ => true
  | _ => false

namespace SocketOp

/-! ## The frame in the scratch block -/

theorem take_fillFrame (pb : Protobuf) (wtBuff : LineBufferPtr) (msg : UserMsg) :
    (fillFrame pb wtBuff msg).data.take ((pb.serializeToArray msg.msg).length + 12) =
      (Frame.ofMsg pb msg).encode := by
  have hroom := wtBuff.cleanData.le_buffSize_appendSize
    ((pb.serializeToArray msg.msg).length + 4 + 4 + 4)
  simp only [fillFrame, LineBufferPtr.data_write, Frame.ofMsg, Frame.encode]
  rw [← LineBufferPtr.length_data] at hroom
  generalize (wtBuff.cleanData.appendSize _).data = block at hroom ⊢
  generalize pb.serializeToArray msg.msg = body at hroom ⊢
  -- each part is copied right behind the parts before it
  generalize hlen : LittleEndian.toBytes 4 body.length = len
  generalize hid : LittleEndian.ofInt32 msg.msgId = msgId
  generalize huid : LittleEndian.ofInt32 msg.uid = uid
  have hlen4 : len.length = 4 := hlen ▸ LittleEndian.length_toBytes ..
  have hid4 : msgId.length = 4 := hid ▸ LittleEndian.length_ofInt32 _
  have huid4 : uid.length = 4 := huid ▸ LittleEndian.length_ofInt32 _
  have hblock₁ : (splice block 0 len).length = block.length := length_splice (by omega)
  have hblock₂ : (splice (splice block 0 len) 4 msgId).length = block.length := by
    rw [length_splice (by omega), hblock₁]
  have hblock₃ : (splice (splice (splice block 0 len) 4 msgId) 8 uid).length = block.length := by
    rw [length_splice (by omega), hblock₂]
  have h₁ : (splice block 0 len).take 4 = len := by
    rw [splice_zero, ← hlen4, List.take_left]
  have h₂ : (splice (splice block 0 len) 4 msgId).take 8 = len ++ msgId := by
    rw [show 8 = 4 + msgId.length by omega, take_splice (by omega), h₁]
  have h₃ : (splice (splice (splice block 0 len) 4 msgId) 8 uid).take 12 = len ++ msgId ++ uid := by
    rw [show 12 = 8 + uid.length by omega, take_splice (by omega), h₂]
  rw [Nat.add_comm, take_splice (by omega), h₃]
  simp only [List.append_assoc]

/-! ## Sending -/

/-- The length of the next chunk. -/
def chunkLen (data : List UInt8) (wtLen : ℕ) : ℕ := min (data.length - wtLen) writeDataMax

/-- A chunk the kernel takes whole: the loop goes on where the kernel stopped. -/
theorem sendLoop_took_whole {data : List UInt8} (sock : SocketNode) {wtLen n : ℕ}
    (writes : List WriteRes) (hn : writeDataMax ≤ n) (hlt : wtLen < data.length) :
    sendLoop data sock wtLen (.took n :: writes) =
      sendLoop data { sock with
        accepted := sock.accepted ++ (data.drop wtLen).take (chunkLen data wtLen) }
        (wtLen + chunkLen data wtLen) writes := by
  unfold chunkLen
  unfold writeDataMax at hn ⊢
  by_cases hlong : data.length - wtLen > 2048
  · -- a full chunk
    have hmin : min n 2048 = 2048 := Nat.min_eq_right hn
    have hchunk : min (data.length - wtLen) 2048 = 2048 := Nat.min_eq_right (Nat.le_of_lt hlong)
    rw [sendLoop, hchunk]
    simp only [hlt, hlong, writeDataMax, hmin, if_true]
    rfl
  · -- the last chunk
    have hmin : min n (data.length - wtLen) = data.length - wtLen := Nat.min_eq_right (by omega)
    have hchunk : min (data.length - wtLen) 2048 = data.length - wtLen :=
      Nat.min_eq_left (Nat.le_of_not_gt hlong)
    have hpos : data.length - wtLen > 0 := by omega
    rw [sendLoop, hchunk]
    simp only [hlt, hlong, writeDataMax, hmin, hpos, if_true, if_false]

theorem add_chunkLen_le {data : List UInt8} {wtLen : ℕ} (hlt : wtLen < data.length) :
    wtLen + chunkLen data wtLen ≤ data.length := by
  unfold chunkLen
  omega

/-- `send` splits its data: a front the kernel accepted, a rest that is queued.
Nothing is accepted when the kernel refuses at once. -/
theorem sendLoop_split {data : List UInt8} {writes : List WriteRes}
    (hw : ∀ r ∈ writes, r.Whole) (sock : SocketNode) {wtLen : ℕ} (hle : wtLen ≤ data.length) :
    ∃ front rest, data.drop wtLen = front ++ rest ∧
      (sendLoop data sock wtLen writes).2.1.accepted = sock.accepted ++ front ∧
      (sendLoop data sock wtLen writes).2.1.wtBuff.toList = sock.wtBuff.toList ++ rest ∧
      (sendLoop data sock wtLen writes).2.1.canWt = sock.canWt ∧
      (blocked writes = true → front = []) := by
  induction writes generalizing sock wtLen with
  | nil =>
      -- no answer left means `EAGAIN`: the rest is queued
      refine ⟨[], data.drop wtLen, rfl, ?_⟩
      unfold sendLoop
      split_ifs with hlt
      · exact ⟨(List.append_nil _).symm, RingBuffPtr.toList_addData .., rfl, fun _ => rfl⟩
      · rw [List.drop_eq_nil_of_le (Nat.le_of_not_lt hlt)]
        exact ⟨(List.append_nil _).symm, (List.append_nil _).symm, rfl, fun _ => rfl⟩
  | cons res writes ih =>
      have hw' : ∀ r ∈ writes, r.Whole := fun r hr => hw r (List.mem_cons_of_mem _ hr)
      have hres : res.Whole := hw res (List.mem_cons_self ..)
      by_cases hlt : wtLen < data.length
      · cases res with
        | took n =>
            rw [sendLoop_took_whole sock writes hres hlt]
            rcases ih hw' { sock with
              accepted := sock.accepted ++ (data.drop wtLen).take (chunkLen data wtLen) }
              (add_chunkLen_le hlt) with ⟨front, rest, hdata, hacc, hbuff, hcan, _⟩
            -- the chunk in front of what the rest of the loop sends
            refine ⟨(data.drop wtLen).take (chunkLen data wtLen) ++ front, rest, ?_, ?_, hbuff, hcan,
              fun h => absurd h Bool.false_ne_true⟩
            · rw [List.append_assoc, ← hdata, ← List.drop_drop, List.take_append_drop]
            · rw [hacc, List.append_assoc]
        | eintr =>
            simp only [sendLoop, hlt, if_true]
            exact ih hw' sock hle
        | eagain =>
            refine ⟨[], data.drop wtLen, rfl, ?_⟩
            rw [sendLoop, if_pos hlt]
            exact ⟨(List.append_nil _).symm, RingBuffPtr.toList_addData .., rfl, fun _ => rfl⟩
        | error => exact absurd hres id
      · -- everything had been sent before
        refine ⟨[], [], List.drop_eq_nil_of_le (Nat.le_of_not_lt hlt), ?_⟩
        simp only [sendLoop, hlt, if_false]
        exact ⟨(List.append_nil _).symm, (List.append_nil _).symm, trivial, fun _ => trivial⟩

/-- A kernel that takes every chunk whole, often enough, takes everything. -/
theorem sendLoop_took {data : List UInt8} {writes : List WriteRes}
    (hw : ∀ r ∈ writes, ∃ n, writeDataMax ≤ n ∧ r = .took n) (sock : SocketNode) {wtLen : ℕ}
    (hlen : data.length ≤ wtLen + writes.length * writeDataMax) :
    (sendLoop data sock wtLen writes).2.1 =
      { sock with accepted := sock.accepted ++ data.drop wtLen } := by
  induction writes generalizing sock wtLen with
  | nil =>
      rw [List.length_nil, Nat.zero_mul, Nat.add_zero] at hlen
      have hdone : ¬ wtLen < data.length := by omega
      rw [sendLoop, if_neg hdone, List.drop_eq_nil_of_le hlen, List.append_nil]
  | cons res writes ih =>
      obtain ⟨n, hn, rfl⟩ := hw res (List.mem_cons_self ..)
      by_cases hlt : wtLen < data.length
      · -- the answers left cover what is behind this chunk
        have hrest : data.length ≤ wtLen + chunkLen data wtLen + writes.length * writeDataMax := by
          rw [List.length_cons, Nat.add_one_mul] at hlen
          unfold chunkLen
          omega
        rw [sendLoop_took_whole sock writes hn hlt,
          ih (fun r hr => hw r (List.mem_cons_of_mem _ hr)) _ hrest]
        rw [List.append_assoc, ← List.drop_drop, List.take_append_drop]
      · rw [sendLoop, if_neg hlt, List.drop_eq_nil_of_le (Nat.le_of_not_lt hlt), List.append_nil]

/-! ## The two writes -/

variable (pb : Protobuf) (op : SocketOp) {sock : SocketNode} {writes : List WriteRes}

theorem send_of_canWt {data : List UInt8} (hcan : sock.canWt = true) :
    send sock data writes = sendLoop data sock 0 writes := by
  rw [send, if_neg (by rw [hcan]; decide)]

/-- A message written when nothing is pending, or refused at once, goes behind
everything before it. -/
theorem stream_writeMsg (hw : ∀ r ∈ writes, r.Whole) (hcan : sock.canWt = true) (msg : UserMsg)
    (horder : sock.wtBuff.toList = [] ∨ blocked writes = true) :
    let sock' := (writeMsg pb op sock msg writes).2.2.1
    sock'.canWt = true ∧ sock'.accepted ++ sock'.wtBuff.toList =
      sock.accepted ++ sock.wtBuff.toList ++ (Frame.ofMsg pb msg).encode := by
  have hsock : (writeMsg pb op sock msg writes).2.2.1 =
      (sendLoop (Frame.ofMsg pb msg).encode sock 0 writes).2.1 := by
    simp only [writeMsg, take_fillFrame, send_of_canWt hcan]
  simp only [hsock]
  obtain ⟨front, rest, hdata, hacc, hbuff, hcan', hblocked⟩ :=
    sendLoop_split hw sock (Nat.zero_le (Frame.ofMsg pb msg).encode.length)
  refine ⟨hcan'.trans hcan, ?_⟩
  rw [hacc, hbuff, ← List.drop_zero (l := (Frame.ofMsg pb msg).encode), hdata]
  -- nothing was pending, or nothing was accepted
  rcases horder with hempty | hblock
  · rw [hempty]
    simp only [List.nil_append, List.append_nil, List.append_assoc]
  · rw [hblocked hblock]
    simp only [List.nil_append, List.append_nil, List.append_assoc]

/-- A flush moves pending bytes to the kernel without changing the stream. -/
theorem stream_flush (hw : ∀ r ∈ writes, r.Whole) :
    let sock' := (flush op sock writes).2.2.1
    sock'.canWt = true ∧ sock'.accepted ++ sock'.wtBuff.toList =
      sock.accepted ++ sock.wtBuff.toList := by
  unfold flush
  simp only [RingBuffPtr.dataSize_eq]
  by_cases hempty : sock.wtBuff.toList.length ≤ 0
  · simp only [hempty, if_true]
    exact ⟨trivial, trivial⟩
  · simp only [hempty, if_false]
    have hpos : 0 < sock.wtBuff.toList.length := Nat.lt_of_not_le hempty
    have hall : sock.wtBuff.toList = sock.wtBuff.toList ++ [] := (List.append_nil _).symm
    rcases op.wtBuff.readDelBegin_cleanData_appendSize hall hpos
      (op.wtBuff.cleanData.le_buffSize_appendSize _) with ⟨ring, hleft, hscratch⟩
    -- the scratch block holds exactly the pending bytes
    have hdata : (op.wtBuff.hold sock.wtBuff.toList).data.take sock.wtBuff.toList.length =
        sock.wtBuff.toList := by
      rw [LineBufferPtr.data_hold, List.take_left]
    simp only [hscratch, hdata]
    rw [send_of_canWt rfl]
    rcases sendLoop_split hw { sock with canWt := true, wtBuff := ring }
      (Nat.zero_le sock.wtBuff.toList.length) with ⟨front, rest, hsplit, hacc, hbuff, hcan, _⟩
    refine ⟨hcan, ?_⟩
    rw [hacc, hbuff]
    show sock.accepted ++ front ++ (ring.toList ++ rest) = sock.accepted ++ sock.wtBuff.toList
    rw [hleft, List.nil_append, List.append_assoc, ← hsplit, List.drop_zero]

end SocketOp

/-! ## Runs of calls on one connection -/

/-- A call on a connection: the scratch buffers as other connections left them,
and what the kernel answers. -/
inductive Output where
  | write (op : SocketOp) (msg : UserMsg) (writes : List WriteRes)
  | flush (op : SocketOp) (writes : List WriteRes)

namespace Output

/-- The connection after a call. -/
def step (pb : Protobuf) (sock : SocketNode) : Output → SocketNode
  | .write op msg writes => (op.writeMsg pb sock msg writes).2.2.1
  | .flush op writes => (op.flush sock writes).2.2.1

/-- The bytes a call adds to the stream. -/
def stream (pb : Protobuf) : Output → List UInt8
  | .write _ msg _ => (Frame.ofMsg pb msg).encode
  | .flush _ _ => []

/-- The kernel answers of a call. -/
def writes : Output → List WriteRes
  | .write _ _ writes | .flush _ writes => writes

/-- A message is not written past pending bytes. -/
def KeepsOrder (sock : SocketNode) : Output → Prop
  | .write _ _ writes => sock.wtBuff.toList = [] ∨ blocked writes = true
  | .flush _ _ => True

instance (sock : SocketNode) : DecidablePred (KeepsOrder sock) := fun out => by
  cases out <;> unfold KeepsOrder <;> infer_instance

/-- **The stream of a connection is in call order** in every run in which each
message finds nothing pending or is refused at once. -/
theorem stream_of_along (pb : Protobuf) (sock : SocketNode) (outs : List Output)
    (hfresh : sock.canWt = true) (hw : ∀ out ∈ outs, ∀ r ∈ out.writes, r.Whole)
    (horder : Along (step pb) KeepsOrder sock outs) {js : List Output} (hjs : js <+: outs) :
    (run (step pb) sock js).accepted ++ (run (step pb) sock js).wtBuff.toList =
      sock.accepted ++ sock.wtBuff.toList ++ js.flatMap (stream pb) := by
  have hw' : ∀ out ∈ js, ∀ r ∈ out.writes, r.Whole := fun out hout => hw out (hjs.subset hout)
  have horder' := horder.of_prefix hjs
  clear horder hw hjs
  induction js generalizing sock with
  | nil => exact (List.append_nil _).symm
  | cons out js ih =>
      obtain ⟨hout, horder'⟩ := horder'
      have hwout := hw' out (List.mem_cons_self ..)
      -- one call adds its own bytes and nothing else
      have hstep : (step pb sock out).canWt = true ∧
          (step pb sock out).accepted ++ (step pb sock out).wtBuff.toList =
            sock.accepted ++ sock.wtBuff.toList ++ stream pb out := by
        cases out with
        | write op msg writes => exact SocketOp.stream_writeMsg pb op hwout hfresh msg hout
        | flush op writes =>
            rw [stream, List.append_nil]
            exact SocketOp.stream_flush op hwout
      rw [run_cons, ih _ hstep.1 (fun o ho => hw' o (List.mem_cons_of_mem _ ho)) horder', hstep.2,
        List.flatMap_cons, List.append_assoc]

/-- A presence message about a uid. -/
def onlineMsg (uid : Int32) : UserMsg :=
  { uid, msgId := 7, msg := (Message.new .userOnlineReq).setUid uid }

/-- The hypotheses of `stream_of_along` at a run with an `EAGAIN` and a flush. -/
theorem stream_flushed :
    let outs := [.write .new (onlineMsg 1) [], .flush .new [.eintr, .took 2048],
      .write .new (onlineMsg 2) [.took 2048]]
    (run (step .oneSmallInt) { sfd := 5 } outs).accepted ++
        (run (step .oneSmallInt) { sfd := 5 } outs).wtBuff.toList =
      outs.flatMap (stream .oneSmallInt) :=
  stream_of_along .oneSmallInt { sfd := 5 } _ rfl (by decide) (by decide) (List.prefix_refl _)

/-- The order is not kept in general: the second message is written past the
first one, which the kernel had refused. -/
theorem not_stream_pastPending :
    ¬ ∀ (pb : Protobuf) (sock : SocketNode) (outs : List Output), sock.canWt = true →
      (∀ out ∈ outs, ∀ r ∈ out.writes, r.Whole) →
      (run (step pb) sock outs).accepted ++ (run (step pb) sock outs).wtBuff.toList =
        sock.accepted ++ sock.wtBuff.toList ++ outs.flatMap (stream pb) := by
  intro h
  have heq := h .oneSmallInt { sfd := 5 }
    [.write .new (onlineMsg 1) [], .write .new (onlineMsg 2) [.took 2048]] rfl (by decide)
  revert heq
  decide

end Output

end Rubo.Util
