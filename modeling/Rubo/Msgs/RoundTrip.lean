import Mathlib.Data.List.TakeWhile
import Rubo.Util.StreamOrder

/-!
# From `write` to `parse_package` and Back

A sender frames messages with `SocketOp::write(sock, msg)`; the bytes reach the
other side cut into chunks; the receiver appends each chunk to its read buffer
and calls `parse_package`. What comes out is what went in, wherever the cuts
are.

The proof is an induction on the chunks over `Decoder.drain_append`: draining
chunk by chunk is draining everything at once. On the parser's side this needs
that no frame makes it stop early, which is what `registered` is for.
-/

namespace Rubo.Msgs

open Rubo.Foundation Rubo.Util

/-! ## The sender -/

/-- A kernel that takes every chunk whole. -/
def accepting : List WriteRes := [.took SocketOp.writeDataMax, .took SocketOp.writeDataMax]

/-- Frame messages back to back onto a connection. -/
def emit (pb : Protobuf) : SocketOp → SocketNode → List UserMsg → SocketNode
  | _, sock, [] => sock
  | op, sock, msg :: msgs =>
    let (_, op, sock, _) := op.writeMsg pb sock msg accepting
    emit pb op sock msgs

/-- A well-formed frame is at most two chunks long. -/
theorem writeMsg_accepting (pb : Protobuf) (op : SocketOp) {sock : SocketNode} {msg : UserMsg}
    (hcan : sock.canWt = true) (hf : (Frame.ofMsg pb msg).WellFormed) :
    (op.writeMsg pb sock msg accepting).2.2.1 =
      { sock with accepted := sock.accepted ++ (Frame.ofMsg pb msg).encode } := by
  -- 12 bytes of header and at most 2048 of body
  have hlen : (Frame.ofMsg pb msg).encode.length ≤ 0 + accepting.length * SocketOp.writeDataMax := by
    rw [Frame.length_encode]
    have := hf.2
    simp only [accepting, SocketOp.writeDataMax, List.length_cons, List.length_nil]
    omega
  have hw : ∀ r ∈ accepting, ∃ n, SocketOp.writeDataMax ≤ n ∧ r = .took n := by
    intro r hr
    simp only [accepting, List.mem_cons, List.not_mem_nil, or_false, or_self] at hr
    exact ⟨_, Nat.le_refl _, hr⟩
  have hsend := SocketOp.sendLoop_took hw sock hlen
  rw [List.drop_zero] at hsend
  simp only [SocketOp.writeMsg, SocketOp.take_fillFrame, SocketOp.send_of_canWt hcan, hsend]

/-- The stream a sender emits. -/
theorem accepted_emit (pb : Protobuf) (op : SocketOp) {sock : SocketNode} {msgs : List UserMsg}
    (hcan : sock.canWt = true) (hf : ∀ m ∈ msgs, (Frame.ofMsg pb m).WellFormed) :
    (emit pb op sock msgs).accepted =
      sock.accepted ++ (msgs.map (Frame.ofMsg pb)).flatMap Frame.encode := by
  induction msgs generalizing op sock with
  | nil => exact (List.append_nil _).symm
  | cons msg msgs ih =>
      have hsock := writeMsg_accepting pb op hcan (hf msg (List.mem_cons_self ..))
      -- `_can_wt` stays `true`, so the next message is written as well
      have hcan' : (op.writeMsg pb sock msg accepting).2.2.1.canWt = true := by
        rw [hsock]
        exact hcan
      rw [emit, ih _ hcan' fun m hm => hf m (List.mem_cons_of_mem _ hm), hsock, List.map_cons,
        List.flatMap_cons, List.append_assoc]

/-! ## The receiver -/

/-- Append chunks to the read buffer of a connection, parsing after each. -/
def feed (rt : Runtime) (user : Ptr) : MsgCenter → SocketNode → List (List UInt8) →
    List UserMsg × MsgCenter × SocketNode
  | mc, sock, [] => ([], mc, sock)
  | mc, sock, chunk :: chunks =>
    let (msgs, mc, sock) :=
      mc.parsePackage rt user { sock with rdBuff := sock.rdBuff.addData chunk }
    let (msgs', mc, sock) := feed rt user mc sock chunks
    (msgs ++ msgs', mc, sock)

/-- **Chunks do not matter**: feeding chunks is parsing the whole stream, as long
as every id in it is registered. -/
theorem feed_eq (rt : Runtime) (user : Ptr) (mc : MsgCenter) (sock : SocketNode)
    (chunks : List (List UInt8)) (hwait : frameNext sock.rdBuff.toList = none)
    (hreg : ∀ f ∈ (frameDecoder.drain (sock.rdBuff.toList ++ chunks.flatten)).1,
      MsgCenter.registered f.msgId = true) :
    (feed rt user mc sock chunks).1 = MsgCenter.envelopes rt user sock.sfd mc
      (frameDecoder.drain (sock.rdBuff.toList ++ chunks.flatten)).1 ∧
    (feed rt user mc sock chunks).2.2.rdBuff.toList =
      (frameDecoder.drain (sock.rdBuff.toList ++ chunks.flatten)).2 := by
  induction chunks generalizing mc sock with
  | nil =>
      rw [List.flatten_nil, List.append_nil, Decoder.drain_of_none hwait]
      exact ⟨rfl, rfl⟩
  | cons chunk chunks ih =>
      -- the frames of the first chunk are a prefix of the frames of all of them
      rw [List.flatten_cons, ← List.append_assoc] at hreg ⊢
      generalize hfirst : sock.rdBuff.toList ++ chunk = first at hreg ⊢
      have hreg₁ : ∀ f ∈ (frameDecoder.drain first).1, MsgCenter.registered f.msgId = true :=
        fun f hf => hreg f ((Decoder.drain_fst_prefix first _).subset hf)
      have hbuff : (sock.rdBuff.addData chunk).toList = first := by
        rw [RingBuffPtr.toList_addData, hfirst]
      obtain ⟨buff, hleft, hparse⟩ :=
        MsgCenter.parsePackage_eq rt user mc { sock with rdBuff := sock.rdBuff.addData chunk }
      simp only [hbuff, MsgCenter.taken_eq_drain hreg₁] at hleft hparse
      rw [Decoder.drain_append] at hreg ⊢
      rw [← hleft] at hreg ⊢
      -- after the first chunk the parser waits again
      have hwait' : frameNext buff.toList = none := by
        rw [hleft]
        exact Decoder.next_drain_snd (d := frameDecoder) first
      rcases ih ((frameDecoder.drain first).1.foldl (MsgCenter.afterFrame rt) mc)
        { sock with rdBuff := buff } hwait' (fun f hf => hreg f (List.mem_append_right _ hf))
        with ⟨hmsgs, hrest⟩
      simp only [feed, hparse]
      -- the envelopes of the first chunk, then those of the others
      refine ⟨?_, hrest⟩
      rw [hmsgs, MsgCenter.envelopes_append rt user sock.sfd hreg₁]

/-- **Framing round trip**: messages framed back to back, cut into any chunks and
parsed after each chunk, come out in order with their ids, uids and bodies, and
nothing is left over. -/
theorem framing_roundTrip (rt : Runtime) (op : SocketOp) (sender : SocketNode) (mc : MsgCenter)
    (user : Ptr) (receiver : SocketNode) (msgs : List UserMsg) (chunks : List (List UInt8))
    (hsender : sender.canWt = true ∧ sender.accepted = [])
    (hreceiver : receiver.rdBuff.toList = [])
    (hmsgs : ∀ m ∈ msgs, MsgCenter.registered m.msgId = true ∧
      2 ≤ (rt.serializeToArray m.msg).length ∧ (rt.serializeToArray m.msg).length ≤ 2048)
    (hcut : chunks.flatten = (emit rt.toProtobuf op sender msgs).accepted) :
    (feed rt user mc receiver chunks).1.map (fun m => (m.msgId, m.uid)) =
        msgs.map (fun m => (m.msgId, m.uid)) ∧
      List.Forall₂ (fun got sent => ∃ r, got.src = .received r ∧
        r.frame.body = rt.serializeToArray sent.msg ∧
        rt.serializeToArray sent.msg <+: r.scratch) (feed rt user mc receiver chunks).1 msgs ∧
      (feed rt user mc receiver chunks).2.2.rdBuff.toList = [] := by
  have hwell : ∀ m ∈ msgs, (Frame.ofMsg rt.toProtobuf m).WellFormed := fun m hm => (hmsgs m hm).2
  have hframes : ∀ f ∈ msgs.map (Frame.ofMsg rt.toProtobuf), f.WellFormed := by
    intro f hf
    obtain ⟨m, hm, rfl⟩ := List.mem_map.mp hf
    exact hwell m hm
  -- the stream decodes to exactly the frames sent
  have hdrain : frameDecoder.drain (receiver.rdBuff.toList ++ chunks.flatten) =
      (msgs.map (Frame.ofMsg rt.toProtobuf), []) := by
    rw [hreceiver, hcut, accepted_emit rt.toProtobuf op hsender.1 hwell, hsender.2]
    exact drain_encode hframes
  have hregistered : ∀ f ∈ msgs.map (Frame.ofMsg rt.toProtobuf),
      MsgCenter.registered f.msgId = true := by
    intro f hf
    obtain ⟨m, hm, rfl⟩ := List.mem_map.mp hf
    exact (hmsgs m hm).1
  have hwait : frameNext receiver.rdBuff.toList = none := by rw [hreceiver]; rfl
  obtain ⟨hout, hleft⟩ :=
    feed_eq rt user mc receiver chunks hwait (by rw [hdrain]; exact hregistered)
  rw [hdrain] at hout hleft
  -- each message that comes out is an envelope of the frame at its place
  have henv : List.Forall₂ (fun got sent =>
      MsgCenter.IsEnvelope rt user receiver.sfd got (Frame.ofMsg rt.toProtobuf sent))
      (feed rt user mc receiver chunks).1 msgs := by
    have hall := MsgCenter.envelopes_forall₂ rt user receiver.sfd mc
      (msgs.map (Frame.ofMsg rt.toProtobuf))
    rw [List.takeWhile_eq_self_iff.mpr hregistered, ← hout] at hall
    exact List.forall₂_map_right_iff.mp hall
  refine ⟨?_, ?_, hleft⟩
  · -- ids and uids
    rw [← List.forall₂_eq_eq_eq, List.forall₂_map_left_iff, List.forall₂_map_right_iff]
    apply henv.imp
    rintro got sent ⟨mc', t, _, rfl⟩
    rfl
  · apply henv.imp
    rintro got sent ⟨mc', t, _, rfl⟩
    refine ⟨_, rfl, rfl, ?_⟩
    show _ <+: (mc'.parseBuff.hold _).data
    rw [LineBufferPtr.data_hold]
    exact List.prefix_append ..

/-- The round trip of two messages whose stream is cut inside a length, inside a
uid and between the frames. -/
theorem framing_roundTrip_two :
    let rt : Runtime := { Protobuf.oneSmallInt with beyond := fun _ => [] }
    let stream := (emit rt.toProtobuf .new { sfd := 5 } [Output.onlineMsg 1, Output.onlineMsg 2]).accepted
    (feed rt 0 .new { sfd := 6 } [stream.take 3, (stream.drop 3).take 7, (stream.drop 10).take 4,
      stream.drop 14]).1.map (fun m => (m.msgId, m.uid)) = [(7, 1), (7, 2)] :=
  (framing_roundTrip { Protobuf.oneSmallInt with beyond := fun _ => [] } .new { sfd := 5 } .new 0
    { sfd := 6 } [Output.onlineMsg 1, Output.onlineMsg 2] _ ⟨rfl, rfl⟩ rfl (by decide) (by decide)).1

end Rubo.Msgs
