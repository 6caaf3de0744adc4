import Rubo.Util.StreamOrder
import Rubo.Util.TcpOp

/-!
# Whole Frames on a Connection That Can Fail

The stream of a connection is what `::write` accepted and what is still in
`_wt_buff`. `StreamOrder` follows it while no call fails. Here calls may fail: a
message can be lost, but the stream still consists of whole frames, in call
order, as long as no call fails or stops inside a chunk it has begun.
-/

namespace Rubo.Util

open Rubo.Foundation Rubo.Msgs

/-- What has left a connection and what is to leave it. -/
def SocketNode.outgoing (node : SocketNode) : List UInt8 := node.accepted ++ node.wtBuff.toList

/-- Two nodes of one connection with the same stream. -/
structure SocketNode.SameOutgoing (node node' : SocketNode) : Prop where
  canWt : node.canWt = true → node'.canWt = true
  outgoing : node'.outgoing = node.outgoing

theorem SocketNode.SameOutgoing.of_eq {node node' : SocketNode} (hcan : node'.canWt = node.canWt)
    (hacc : node'.accepted = node.accepted) (hbuff : node'.wtBuff = node.wtBuff) :
    node.SameOutgoing node' :=
  ⟨fun h => hcan.trans h, by simp only [SocketNode.outgoing, hacc, hbuff]⟩

theorem SocketNode.SameOutgoing.trans {a b c : SocketNode} (h : a.SameOutgoing b)
    (h' : b.SameOutgoing c) : a.SameOutgoing c :=
  ⟨fun hcan => h'.canWt (h.canWt hcan), h'.outgoing.trans h.outgoing⟩

namespace SocketOp

/-! ## Calls that fail -/

/-- The first result other than `EINTR` is `EAGAIN` or an error. -/
def refused : List WriteRes → Bool
  | [] => true
  | .eintr :: writes => refused writes
  | .eagain :: _ => true
  | .error :: _ => true
  | .took _ :: _ => false

/-- The kernel takes each chunk of what is left of the data whole, and a call
fails, if at all, before it has begun with the data. -/
def intact : Bool → ℕ → List WriteRes → Bool
  | _, _, [] => true
  | _, left, .took n :: writes =>
    left == 0 || decide (writeDataMax ≤ n) && intact true (left - writeDataMax) writes
  | begun, left, .eintr :: writes => intact begun left writes
  | _, _, .eagain :: _ => true
  | begun, left, .error :: _ => left == 0 || !begun

/-- `send` splits its data into a front the kernel accepted and a rest that is
queued, or it loses all of it. Nothing is accepted when the kernel refuses. -/
theorem sendLoop_intact {data : List UInt8} {writes : List WriteRes} (sock : SocketNode) {wtLen : ℕ}
    {begun : Bool} (hle : wtLen ≤ data.length)
    (h : intact begun (data.length - wtLen) writes = true) :
    ∃ front rest, (data.drop wtLen = front ++ rest ∨ begun = false ∧ front = [] ∧ rest = []) ∧
      (sendLoop data sock wtLen writes).2.1.accepted = sock.accepted ++ front ∧
      (sendLoop data sock wtLen writes).2.1.wtBuff.toList = sock.wtBuff.toList ++ rest ∧
      (sendLoop data sock wtLen writes).2.1.canWt = sock.canWt ∧
      (refused writes = true → front = []) := by
  induction writes generalizing sock wtLen begun with
  | nil =>
      refine ⟨[], data.drop wtLen, .inl rfl, ?_⟩
      unfold sendLoop
      split_ifs with hlt
      · exact ⟨(List.append_nil _).symm, RingBuffPtr.toList_addData .., rfl, fun _ => rfl⟩
      · rw [List.drop_eq_nil_of_le (Nat.le_of_not_lt hlt)]
        exact ⟨(List.append_nil _).symm, (List.append_nil _).symm, rfl, fun _ => rfl⟩
  | cons res writes ih =>
      by_cases hlt : wtLen < data.length
      · have hleft : (data.length - wtLen == 0) = false :=
          beq_eq_false_iff_ne.mpr (Nat.sub_ne_zero_of_lt hlt)
        cases res with
        | took n =>
            simp only [intact, hleft, Bool.false_or, Bool.and_eq_true, decide_eq_true_eq] at h
            -- a whole chunk fewer is left
            have hrest : data.length - wtLen - writeDataMax =
                data.length - (wtLen + chunkLen data wtLen) := by
              unfold chunkLen
              omega
            rw [hrest] at h
            rw [sendLoop_took_whole sock writes h.1 hlt]
            obtain ⟨front, rest, hdata, hacc, hbuff, hcan, _⟩ :=
              ih { sock with
                accepted := sock.accepted ++ (data.drop wtLen).take (chunkLen data wtLen) }
                (add_chunkLen_le hlt) h.2
            refine ⟨(data.drop wtLen).take (chunkLen data wtLen) ++ front, rest, .inl ?_, ?_, hbuff,
              hcan, fun h => absurd h Bool.false_ne_true⟩
            · -- once a chunk is taken nothing can be lost
              rcases hdata with hdata | ⟨hbegun, _⟩
              · rw [List.append_assoc, ← hdata, ← List.drop_drop, List.take_append_drop]
              · cases hbegun
            · rw [hacc, List.append_assoc]
        | eintr =>
            simp only [sendLoop, if_pos hlt, refused]
            exact ih sock hle h
        | eagain =>
            refine ⟨[], data.drop wtLen, .inl rfl, ?_⟩
            rw [sendLoop, if_pos hlt]
            exact ⟨(List.append_nil _).symm, RingBuffPtr.toList_addData .., rfl, fun _ => rfl⟩
        | error =>
            -- nothing of the data has been taken yet, so all of it is lost
            simp only [intact, hleft, Bool.false_or, Bool.not_eq_true'] at h
            refine ⟨[], [], .inr ⟨h, rfl, rfl⟩, ?_⟩
            rw [sendLoop, if_pos hlt]
            exact ⟨(List.append_nil _).symm, (List.append_nil _).symm, rfl, fun _ => rfl⟩
      · -- everything had been sent before
        refine ⟨[], [], .inl (List.drop_eq_nil_of_le (Nat.le_of_not_lt hlt)), ?_⟩
        simp only [sendLoop, hlt, if_false]
        exact ⟨(List.append_nil _).symm, (List.append_nil _).symm, trivial, fun _ => trivial⟩

/-! ## The two writes -/

variable (pb : Protobuf) (op : SocketOp) {sock : SocketNode} {writes : List WriteRes}

/-- A message does not break into pending bytes, and no call stops inside it. -/
def Orderly (sock : SocketNode) (msg : UserMsg) (writes : List WriteRes) : Prop :=
  intact false (Frame.ofMsg pb msg).encode.length writes = true ∧
    (sock.wtBuff.toList = [] ∨ refused writes = true)

instance (msg : UserMsg) : Decidable (Orderly pb sock msg writes) :=
  inferInstanceAs (Decidable (_ ∧ (_ ∨ _)))

/-- The message goes behind everything before it, or it is lost. -/
theorem outgoing_writeMsg {msg : UserMsg} (h : Orderly pb sock msg writes)
    (hcan : sock.canWt = true) :
    (writeMsg pb op sock msg writes).2.2.1.canWt = true ∧
      ((writeMsg pb op sock msg writes).2.2.1.outgoing = sock.outgoing ∨
        (writeMsg pb op sock msg writes).2.2.1.outgoing =
          sock.outgoing ++ (Frame.ofMsg pb msg).encode) := by
  have hsock : (writeMsg pb op sock msg writes).2.2.1 =
      (sendLoop (Frame.ofMsg pb msg).encode sock 0 writes).2.1 := by
    simp only [writeMsg, take_fillFrame, send_of_canWt hcan]
  obtain ⟨hintact, horder⟩ := h
  obtain ⟨front, rest, hdata, hacc, hbuff, hcan', hrefused⟩ :=
    sendLoop_intact sock (Nat.zero_le (Frame.ofMsg pb msg).encode.length) hintact
  have hout : (sendLoop (Frame.ofMsg pb msg).encode sock 0 writes).2.1.outgoing =
      sock.outgoing ++ (front ++ rest) := by
    unfold SocketNode.outgoing
    rw [hacc, hbuff]
    -- either nothing was pending, or nothing was accepted
    rcases horder with hempty | hrefuse
    · simp only [hempty, List.nil_append, List.append_nil, List.append_assoc]
    · simp only [hrefused hrefuse, List.nil_append, List.append_nil, List.append_assoc]
  rw [hsock, hout]
  refine ⟨hcan'.trans hcan, ?_⟩
  rcases hdata with hdata | ⟨_, hfront, hrest⟩
  · rw [← hdata, List.drop_zero]
    exact .inr rfl
  · rw [hfront, hrest, List.append_nil, List.append_nil]
    exact .inl rfl

/-- A flush leaves the stream alone; what is pending must not be lost. -/
theorem sameOutgoing_flush (h : sock.wtBuff.toList = [] ∨ ∀ r ∈ writes, r.Whole) :
    sock.SameOutgoing (flush op sock writes).2.2.1 := by
  rcases h with hempty | hw
  · -- nothing to flush
    have hsize : sock.wtBuff.dataSize ≤ 0 := by
      rw [RingBuffPtr.dataSize_eq, hempty]
      exact Nat.le_refl 0
    unfold flush
    rw [if_pos hsize]
    exact ⟨fun _ => rfl, rfl⟩
  · obtain ⟨hcan, hout⟩ : (flush op sock writes).2.2.1.canWt = true ∧
        (flush op sock writes).2.2.1.outgoing = sock.outgoing := stream_flush op hw
    exact ⟨fun _ => hcan, hout⟩

theorem sameOutgoing_read (reads : List ReadRes) : sock.SameOutgoing (read op sock reads).2.2 := by
  unfold read
  simp only
  split_ifs
  · exact SocketNode.SameOutgoing.of_eq rfl rfl rfl
  · exact SocketNode.SameOutgoing.of_eq rfl rfl rfl

end SocketOp

namespace TcpOp

open SocketNode (SameOutgoing)

variable (t : TcpOp) {node : SocketNode}

theorem sameOutgoing_eventRead (reads : List ReadRes) :
    node.SameOutgoing (t.eventRead node reads).2.2 := by
  unfold eventRead
  split_ifs
  · exact SocketOp.sameOutgoing_read t.sock reads
  · exact SameOutgoing.of_eq rfl rfl rfl

theorem wtBuff_eventRead (reads : List ReadRes) :
    (t.eventRead node reads).2.2.wtBuff = node.wtBuff := by
  unfold eventRead read SocketOp.read
  simp only
  split_ifs <;> rfl

theorem sameOutgoing_eventWrite {writes : List WriteRes}
    (h : node.wtBuff.toList = [] ∨ ∀ r ∈ writes, r.Whole) :
    node.SameOutgoing (t.eventWrite node writes).2.2 := by
  have hflush := SocketOp.sameOutgoing_flush t.sock h
  unfold eventWrite flush
  generalize t.sock.flush node writes = r at hflush ⊢
  obtain ⟨wtRet, sock, node', rest⟩ := r
  simp only
  by_cases hev : node.event.has FdEvent.write = true
  · -- `FD_EVENT_WRITE` was reported
    rw [if_pos hev]
    split_ifs
    · exact hflush
    · exact hflush
  · rw [if_neg hev]
    by_cases hpending : node.wtBuff.dataSize > 0
    · -- it was not, but bytes are pending
      rw [if_pos hpending]
      split_ifs
      · exact hflush
      · exact hflush
    · rw [if_neg hpending]
      exact SameOutgoing.of_eq rfl rfl rfl

/-- Serving a descriptor leaves its stream alone. -/
theorem sameOutgoing_eventOp {io : KernelIo}
    (h : node.wtBuff.toList = [] ∨ ∀ r ∈ io.writes, r.Whole) :
    node.SameOutgoing (t.eventOp node io).2.2 := by
  have hread : node.SameOutgoing (t.eventRead node io.reads).2.2 := sameOutgoing_eventRead t io.reads
  have hpending : (t.eventRead node io.reads).2.2.wtBuff = node.wtBuff := wtBuff_eventRead t io.reads
  unfold eventOp
  generalize t.eventRead node io.reads = rd at hread hpending ⊢
  rw [← hpending] at h
  have hwrite := hread.trans (sameOutgoing_eventWrite rd.2.1 h)
  simp only
  generalize rd.2.1.eventWrite rd.2.2 io.writes = wt at hwrite ⊢
  split_ifs
  · exact hwrite.trans (SameOutgoing.of_eq rfl rfl rfl)
  · exact hwrite.trans (SameOutgoing.of_eq rfl rfl rfl)

end TcpOp

end Rubo.Util
