import Rubo.Msgs.BodyFidelity
import Rubo.Msgs.LoginPb
import Rubo.Msgs.RoundTrip

/-!
# What Becomes of a Message

A message is serialized field by field, framed and cut up by TCP. The receiver makes
a string of its body through a `char*`, which ends at the first zero byte, and parses
the string without looking at the result.

`arrives`: so what comes out are the fields up to the first that is written with a
zero byte, and of a string the part in front of its first zero. A `0`, a `false` and
the length of an empty string are zero bytes.
-/

namespace Rubo.Msgs

open Rubo.Foundation Rubo.Util
open Proto2 (encodeField encodeInt32 decodeInt32 bytesOf sizeMax)

/-- The value is written without a zero byte. -/
def FieldVal.ZeroFree : FieldVal → Prop
  | .int32 v => v ≠ 0
  | .bool v => v = true
  | .string s => s ≠ [] ∧ 0 ∉ s

instance : DecidablePred FieldVal.ZeroFree
  | .int32 v => inferInstanceAs (Decidable (v ≠ 0))
  | .bool v => inferInstanceAs (Decidable (v = true))
  | .string s => inferInstanceAs (Decidable (s ≠ [] ∧ 0 ∉ s))

/-- No field that is set is written with a zero byte. -/
def Message.ZeroFree (m : Message) : Prop := ∀ n v, m.get n = some v → v.ZeroFree

namespace LoginPb

variable {cs : CodedStream}

/-- What comes out of the fields of a message. -/
def arrived : List (ℕ × FieldVal) → List (ℕ × FieldVal)
  | [] => []
  | f :: fs =>
    if f.2.ZeroFree then f :: arrived fs
    else
      match f.2 with
      | .string s => [(f.1, .string (s.takeWhile (· != 0)))]
      | .int32 _ | .bool _ => []

/-! ## Zero bytes -/

theorem zero_notMem_tag {t : MsgType} {f : ℕ × FieldVal} (hf : Typed t f) :
    0 ∉ Varint.toBytes 5 (tagOf f) := by
  intro hmem
  rw [Varint.zero_mem_toBytes] at hmem
  exact absurd hmem hf.tag.1.ne'

theorem zero_mem_encodeValue (v : FieldVal) : 0 ∈ encodeValue v ↔ ¬ v.ZeroFree := by
  cases v with
  | int32 v =>
      have hval : v.toInt64.toUInt64.toNat = 0 ↔ v = 0 := by
        constructor
        · intro h
          rw [← Proto2.decodeInt32_encode v, h]
          rfl
        · rintro rfl
          rfl
      rw [encodeValue, encodeInt32, Varint.zero_mem_toBytes, hval]
      exact not_not.symm
  | bool v => cases v <;> simp [encodeValue, FieldVal.ZeroFree]
  | string s =>
      rw [encodeValue, List.mem_append, Varint.zero_mem_toBytes, List.length_eq_zero_iff]
      show _ ↔ ¬ (s ≠ [] ∧ 0 ∉ s)
      rw [not_and_or, not_not, not_not]

theorem zero_mem_encodeField {t : MsgType} {f : ℕ × FieldVal} (hf : Typed t f) :
    0 ∈ encodeField f.1 f.2 ↔ ¬ f.2.ZeroFree := by
  rw [encodeField_eq, List.mem_append, or_iff_right (zero_notMem_tag hf), zero_mem_encodeValue]

theorem zero_mem_bytesOf {m : Message} (hm : m.Complete) (hsize : (bytesOf m).length ≤ sizeMax) :
    0 ∈ bytesOf m ↔ ¬ m.ZeroFree := by
  have htyped := typed_fieldsOf hm hsize
  rw [bytesOf_eq, hm.unknown, List.append_nil, encodeFields, List.mem_flatMap]
  constructor
  · rintro ⟨f, hf, hzero⟩ hfree
    exact (zero_mem_encodeField (htyped f hf)).mp hzero (hfree f.1 f.2 (mem_fieldsOf.mp hf).2)
  · intro hnot
    simp only [Message.ZeroFree, not_forall] at hnot
    obtain ⟨n, v, hget, hv⟩ := hnot
    have hmem : (n, v) ∈ fieldsOf m := by
      refine mem_fieldsOf.mpr ⟨?_, hget⟩
      by_contra hmem
      rw [hm.others n hmem] at hget
      cases hget
    exact ⟨(n, v), hmem, (zero_mem_encodeField (htyped _ hmem)).mpr hv⟩

/-- A string is read up to its first zero byte. -/
theorem takeWhile_append_of_notMem {xs : List UInt8} (h : 0 ∉ xs) (ys : List UInt8) :
    (xs ++ ys).takeWhile (· != 0) = xs ++ ys.takeWhile (· != 0) := by
  apply List.takeWhile_append_of_pos
  intro b hb
  rw [bne_iff_ne]
  rintro rfl
  exact h hb

theorem takeWhile_append_of_mem {xs : List UInt8} (h : 0 ∈ xs) (ys : List UInt8) :
    (xs ++ ys).takeWhile (· != 0) = xs.takeWhile (· != 0) := by
  rw [List.takeWhile_append, if_neg]
  intro hlen
  have heq := (List.takeWhile_prefix (· != 0)).eq_of_length hlen
  have hall := List.takeWhile_eq_self_iff.mp heq 0 h
  cases hall

/-! ## Parsing up to a zero byte -/

/-- Where a field is written with a zero byte, parsing ends. -/
theorem mergeField_zero (hcs : cs.Documented) {t : MsgType} {f : ℕ × FieldVal} (hf : Typed t f)
    (hzero : ¬ f.2.ZeroFree) {m : Message} (hfresh : m.get f.1 = none) (fs : List (ℕ × FieldVal))
    (rest : List UInt8) :
    mergeField cs t ((encodeField f.1 f.2 ++ rest).takeWhile (· != 0)) m =
      .inl ⟨false, false, setAll m (arrived (f :: fs))⟩ := by
  rw [encodeField_eq, List.append_assoc, takeWhile_append_of_notMem (zero_notMem_tag hf),
    mergeField_tag hcs hf, takeWhile_append_of_mem ((zero_mem_encodeValue f.2).mpr hzero), arrived,
    if_neg hzero]
  obtain ⟨n, v⟩ := f
  cases v with
  | int32 v =>
      obtain rfl : v = 0 := by simpa [FieldVal.ZeroFree] using hzero
      -- the number is the zero byte
      show mergeValue cs n [] m .int32 = _
      rw [mergeValue, hcs.readInt32_cut (v := 0) List.nil_prefix (by decide)]
      rfl
  | bool v =>
      obtain rfl : v = false := by simpa [FieldVal.ZeroFree] using hzero
      show mergeValue cs n [] m .bool = _
      rw [mergeValue, hcs.readBool_nil]
      rfl
  | string s =>
      have hs := hf.short s rfl
      show mergeValue cs n _ m .string = _
      by_cases hnil : s = []
      · -- the length is the zero byte
        have hold : m.string n = [] := by rw [Message.string, hfresh]
        subst hnil
        obtain ⟨_, hread⟩ := hcs.readString_length (m.string n) (n := 0) List.nil_prefix (by decide)
        show mergeValue cs n [] m .string = _
        rw [mergeValue, hread, hold]
        rfl
      · have hmem : 0 ∈ s := by
          by_contra hmem
          exact hzero ⟨hnil, hmem⟩
        have hlen : 0 ∉ Varint.toBytes 10 s.length := by
          rw [Varint.zero_mem_toBytes, List.length_eq_zero_iff]
          exact hnil
        have hne : s.takeWhile (· != 0) ≠ s := by
          intro heq
          have hall := List.takeWhile_eq_self_iff.mp heq 0 hmem
          cases hall
        rw [encodeValue, takeWhile_append_of_notMem hlen, mergeValue,
          hcs.readString_cut _ hs (List.takeWhile_prefix _) hne]
        rfl

theorem merge_takeWhile (hcs : cs.Documented) {t : MsgType} {fs : List (ℕ × FieldVal)}
    (hfs : ∀ f ∈ fs, Typed t f) (hnodup : (fs.map Prod.fst).Nodup) {m : Message}
    (hfresh : ∀ f ∈ fs, m.get f.1 = none) {passes : ℕ}
    (hpasses : ((encodeFields fs).takeWhile (· != 0)).length < passes) :
    (mergePartial cs t passes ((encodeFields fs).takeWhile (· != 0)) m).message =
      setAll m (arrived fs) := by
  induction fs generalizing m passes with
  | nil =>
      have hmerged : mergePartial cs t passes [] m = ⟨true, true, m⟩ :=
        mergePartial_nil hcs t hpasses m
      exact congrArg Merged.message hmerged
  | cons f fs ih =>
      have hf := hfs f List.mem_cons_self
      obtain ⟨passes, rfl⟩ := Nat.exists_eq_succ_of_ne_zero (Nat.ne_zero_of_lt hpasses)
      rw [List.map_cons, List.nodup_cons] at hnodup
      rw [encodeFields_cons] at hpasses ⊢
      by_cases hzero : f.2.ZeroFree
      · have hbytes : 0 ∉ encodeField f.1 f.2 := fun h => (zero_mem_encodeField hf).mp h hzero
        rw [takeWhile_append_of_notMem hbytes] at hpasses ⊢
        have hpos := List.length_pos_of_ne_nil (encodeField_ne_nil f)
        rw [List.length_append] at hpasses
        rw [mergePartial_field hcs hf, arrived, if_pos hzero]
        apply ih (fun g hg => hfs g (List.mem_cons_of_mem _ hg)) hnodup.2 _ (by omega)
        intro g hg
        have hne : g.1 ≠ f.1 := fun heq => hnodup.1 (heq ▸ List.mem_map_of_mem hg)
        rw [Message.get_set_of_ne m _ hne]
        exact hfresh g (List.mem_cons_of_mem _ hg)
      · rw [mergePartial, mergeField_zero hcs hf hzero (hfresh f List.mem_cons_self) fs]

theorem prefix_arrived (fs : List (ℕ × FieldVal)) :
    (arrived fs).map Prod.fst <+: fs.map Prod.fst := by
  induction fs with
  | nil => exact List.nil_prefix
  | cons f fs ih =>
      rw [arrived]
      split_ifs
      · rw [List.map_cons, List.map_cons, List.prefix_cons_inj]
        exact ih
      · split
        · exact List.cons_prefix_cons.mpr ⟨rfl, List.nil_prefix⟩
        · exact List.nil_prefix
        · exact List.nil_prefix

theorem arrived_of_zeroFree {fs : List (ℕ × FieldVal)} (h : ∀ f ∈ fs, f.2.ZeroFree) :
    arrived fs = fs := by
  induction fs with
  | nil => rfl
  | cons f fs ih =>
      rw [arrived, if_pos (h f List.mem_cons_self), ih fun g hg => h g (List.mem_cons_of_mem _ hg)]

/-- A body, read up to its first zero byte. -/
theorem parseFromString_takeWhile (hcs : cs.Documented) {m : Message} (hm : m.Complete)
    (hsize : (bytesOf m).length ≤ sizeMax) :
    let r := (Message.new m.type).parseFromString (.loginPb cs) ((bytesOf m).takeWhile (· != 0))
    (r.1 = true ↔ m.ZeroFree) ∧ ∀ n, r.2.get n = (arrived (fieldsOf m)).lookup n := by
  intro r
  constructor
  · obtain ⟨hwhole, hcut⟩ := parse_bytesOf_prefix hcs hm hsize (List.takeWhile_prefix (· != 0))
    have hfree : (bytesOf m).takeWhile (· != 0) = bytesOf m ↔ m.ZeroFree := by
      rw [List.takeWhile_eq_self_iff, ← not_iff_not (b := m.ZeroFree),
        ← zero_mem_bytesOf hm hsize]
      simp
    constructor
    · intro hok
      by_contra hnot
      rw [hcut fun heq => hnot (hfree.mp heq)] at hok
      cases hok
    · exact fun h => (hwhole (hfree.mpr h)).1
  · intro n
    obtain ⟨-, hget⟩ := parseFromString_eq
      (rfl : mergePartial cs m.type (((bytesOf m).takeWhile (· != 0)).length + 1) _ _ = _)
    have hbytes : bytesOf m = encodeFields (fieldsOf m) := by
      rw [bytesOf_eq, hm.unknown, List.append_nil]
    have hmessage := merge_takeWhile hcs (typed_fieldsOf hm hsize) (nodup_fieldsOf m)
      (m := Message.new m.type) (fun _ _ => rfl) (Nat.lt_succ_self _)
    rw [← hbytes] at hmessage
    have hnodup := (nodup_fieldsOf m).sublist (prefix_arrived (fieldsOf m)).sublist
    show Message.get _ n = _
    rw [hget, hmessage, get_setAll hnodup]
    exact Option.or_none

/-- A field takes two bytes at least. -/
theorem two_le_length_bytesOf {m : Message} (hm : m.Complete) : 2 ≤ (bytesOf m).length := by
  obtain ⟨f, hf⟩ : ∃ f, f ∈ m.type.schema := by
    cases m.type <;> exact ⟨_, List.mem_cons_self⟩
  obtain ⟨v, hget, -⟩ := hm.fields f hf
  have hmem : (f.1, v) ∈ fieldsOf m := mem_fieldsOf.mpr ⟨List.mem_map_of_mem hf, hget⟩
  refine Nat.le_trans ?_ (length_encodeField_le hmem)
  have htag := List.length_pos_of_ne_nil (Varint.toBytes_ne_nil 4 (tagOf (f.1, v)))
  have hvalue : 0 < (encodeValue v).length := by
    cases v with
    | int32 v => exact List.length_pos_of_ne_nil (Varint.toBytes_ne_nil 9 _)
    | bool v => exact Nat.zero_lt_one
    | string s =>
        have hlen := List.length_pos_of_ne_nil (Varint.toBytes_ne_nil 9 s.length)
        rw [encodeValue, List.length_append]
        exact Nat.lt_of_lt_of_le hlen (Nat.le_add_right _ _)
  rw [encodeField_eq, List.length_append]
  exact Nat.add_le_add htag hvalue

end LoginPb

/-! ## Through the parser -/

namespace MsgCenter

/-- The string made of a body that does not fill the scratch block. -/
theorem cString_hold (rt : Runtime) {buff : LineBufferPtr} {body : List UInt8}
    (hpos : 0 < body.length) (hroom : ∀ k, body.length ≠ buff.buffSize * 2 ^ k) :
    rt.cString (buff.hold body).data = body.takeWhile (· != 0) := by
  have hfull : (buff.hold body).buffSize ≠ body.length := by
    rw [LineBufferPtr.buffSize_hold]
    intro heq
    obtain ⟨k, hk⟩ := (LineBufferPtr.grown_eq_iff buff.buffSize_pos hpos).mp heq
    exact hroom k hk
  have hle := buff.length_le_buffSize_hold body
  obtain ⟨pad, hpad⟩ := Nat.exists_eq_add_of_lt (Nat.lt_of_le_of_ne hle hfull.symm)
  have hdata : (buff.hold body).data = body ++ 0 :: List.replicate pad 0 := by
    rw [LineBufferPtr.data_hold, hpad, Nat.add_assoc, Nat.add_sub_cancel_left, List.replicate_succ]
  rw [Runtime.cString, hdata, List.append_assoc, List.takeWhile_append]
  split_ifs with hall
  · -- the body has no zero byte, and the padding begins with one
    have heq := (List.takeWhile_prefix (· != 0)).eq_of_length hall
    rw [List.cons_append, List.takeWhile_cons_of_neg (by decide), List.append_nil, heq]
  · rfl

/-- The scratch block only doubles. -/
theorem exists_buffSize_hold (buff : LineBufferPtr) {body : List UInt8} (hpos : 0 < body.length) :
    ∃ k, (buff.hold body).buffSize = buff.buffSize * 2 ^ k := by
  obtain ⟨k, hk, -⟩ := LineBuffer.doubleLoop_ok buff.buffSize_pos
    (Nat.le_add_left body.length buff.buffSize)
  refine ⟨k, ?_⟩
  rw [LineBufferPtr.buffSize_hold, LineBufferPtr.grown, LineBuffer.grownSize, if_neg (by omega), hk]

/-- Each message is an envelope made with a scratch block that is some doublings larger. -/
theorem envelopes_doubled (rt : Runtime) (user : Ptr) (sfd : Int32) (mc : MsgCenter)
    {fs : List Frame} (h : ∀ f ∈ fs, registered f.msgId = true ∧ 0 < f.body.length) :
    List.Forall₂ (fun got f => ∃ mc' t k,
        mc'.parseBuff.buffSize = mc.parseBuff.buffSize * 2 ^ k ∧ typeOf f.msgId = some t ∧
          got = envelope rt user sfd mc' t f)
      (envelopes rt user sfd mc fs) fs := by
  induction fs generalizing mc with
  | nil => exact .nil
  | cons f fs ih =>
      obtain ⟨hreg, hpos⟩ := h f List.mem_cons_self
      obtain ⟨t, htype⟩ := registered_iff.mp hreg
      obtain ⟨j, hj⟩ := exists_buffSize_hold mc.parseBuff hpos
      simp only [envelopes, htype]
      refine .cons ⟨mc, t, 0, (Nat.mul_one _).symm, htype, rfl⟩ ?_
      apply (ih (mc.afterFrame rt f) fun g hg => h g (List.mem_cons_of_mem _ hg)).imp
      rintro got g ⟨mc', t', k, hsize, htype', rfl⟩
      refine ⟨mc', t', j + k, ?_, htype', rfl⟩
      rw [hsize, pow_add, ← Nat.mul_assoc, ← hj]
      rfl

/-- What the parser makes of the body of a message. -/
theorem envelope_message {rt : Runtime} {cs : CodedStream} (hcs : cs.Documented)
    (hpb : rt.toProtobuf = .loginPb cs) (user : Ptr) (sfd : Int32) {mc : MsgCenter} {m : UserMsg}
    (hm : m.msg.Complete) (hsize : (bytesOf m.msg).length ≤ sizeMax)
    (hroom : ∀ k, (bytesOf m.msg).length ≠ mc.parseBuff.buffSize * 2 ^ k) :
    let got := envelope rt user sfd mc m.msg.type (Frame.ofMsg rt.toProtobuf m)
    (∃ r, got.src = .received r ∧ (r.accepted = true ↔ m.msg.ZeroFree)) ∧
      ∀ n, got.msg.get n = (LoginPb.arrived (LoginPb.fieldsOf m.msg)).lookup n := by
  have hbody : (Frame.ofMsg rt.toProtobuf m).body = bytesOf m.msg := by
    show rt.serializeToArray m.msg = _
    rw [hpb, LoginPb.serializeToArray_eq hcs]
    exact if_pos hsize
  have hpos : 0 < (bytesOf m.msg).length :=
    Nat.lt_of_lt_of_le (by decide) (LoginPb.two_le_length_bytesOf hm)
  have hparse : (Message.new m.msg.type).parseFromString rt.toProtobuf
        (rt.cString (mc.parseBuff.hold (Frame.ofMsg rt.toProtobuf m).body).data) =
      (Message.new m.msg.type).parseFromString (.loginPb cs)
        ((bytesOf m.msg).takeWhile (· != 0)) := by
    rw [hbody, cString_hold rt hpos hroom, hpb]
  obtain ⟨haccepted, hget⟩ := LoginPb.parseFromString_takeWhile hcs hm hsize
  rw [← hparse] at haccepted hget
  exact ⟨⟨_, rfl, haccepted⟩, hget⟩

end MsgCenter

/-- **What arrives**: of messages with all their fields and no others, whose bodies are no
longer than 2048 bytes and none of them as long as the scratch block of the receiver can
become, sent back to back and cut into any chunks, each comes out in its place, with the
fields up to the first that is written with a zero byte. The parser has accepted it if and
only if there is no such field, and then it is the message that was sent. -/
theorem arrives {rt : Runtime} {cs : CodedStream} (hcs : cs.Documented)
    (hpb : rt.toProtobuf = .loginPb cs) (op : SocketOp)
    (sender : SocketNode) (mc : MsgCenter) (user : Ptr) (receiver : SocketNode)
    (msgs : List UserMsg) (chunks : List (List UInt8))
    (hsender : sender.canWt = true ∧ sender.accepted = [])
    (hreceiver : receiver.rdBuff.toList = [])
    (hmsgs : ∀ m ∈ msgs, MsgCenter.typeOf m.msgId = some m.msg.type ∧ m.msg.Complete ∧
      (LoginPb.serializeWithCachedSizes cs m.msg).length ≤ 2048 ∧
      ∀ k, (LoginPb.serializeWithCachedSizes cs m.msg).length ≠ mc.parseBuff.buffSize * 2 ^ k)
    (hcut : chunks.flatten = (emit rt.toProtobuf op sender msgs).accepted) :
    List.Forall₂ (fun got sent => got.msgId = sent.msgId ∧ got.uid = sent.uid ∧
        (∃ r, got.src = .received r ∧ (r.accepted = true ↔ sent.msg.ZeroFree)) ∧
        (∀ n, got.msg.get n = (LoginPb.arrived (LoginPb.fieldsOf sent.msg)).lookup n) ∧
        (sent.msg.ZeroFree → ∀ n, got.msg.get n = sent.msg.get n))
      (feed rt user mc receiver chunks).1 msgs := by
  simp only [LoginPb.serializeWithCachedSizes_eq hcs] at hmsgs
  have hsize : ∀ m ∈ msgs, (bytesOf m.msg).length ≤ sizeMax :=
    fun m hm => (hmsgs m hm).2.2.1.trans (by decide)
  have hbody : ∀ m ∈ msgs, (Frame.ofMsg rt.toProtobuf m).body = bytesOf m.msg := by
    intro m hm
    show rt.serializeToArray m.msg = _
    rw [hpb, LoginPb.serializeToArray_eq hcs]
    exact if_pos (hsize m hm)
  have hwell : ∀ m ∈ msgs, (Frame.ofMsg rt.toProtobuf m).WellFormed := by
    intro m hm
    unfold Frame.WellFormed
    rw [hbody m hm]
    exact ⟨LoginPb.two_le_length_bytesOf (hmsgs m hm).2.1, (hmsgs m hm).2.2.1⟩
  have hframes : ∀ f ∈ msgs.map (Frame.ofMsg rt.toProtobuf), f.WellFormed := by
    intro f hf
    obtain ⟨m, hm, rfl⟩ := List.mem_map.mp hf
    exact hwell m hm
  -- the stream decodes to exactly the frames sent
  have hdrain : frameDecoder.drain (receiver.rdBuff.toList ++ chunks.flatten) =
      (msgs.map (Frame.ofMsg rt.toProtobuf), []) := by
    rw [hreceiver, hcut, accepted_emit rt.toProtobuf op hsender.1 hwell, hsender.2]
    exact drain_encode hframes
  have hregistered : ∀ f ∈ msgs.map (Frame.ofMsg rt.toProtobuf),
      MsgCenter.registered f.msgId = true ∧ 0 < f.body.length := by
    intro f hf
    have hpos : 0 < f.body.length := Nat.lt_of_lt_of_le (by decide) (hframes f hf).1
    obtain ⟨m, hm, rfl⟩ := List.mem_map.mp hf
    exact ⟨MsgCenter.registered_iff.mpr ⟨_, (hmsgs m hm).1⟩, hpos⟩
  have hwait : frameNext receiver.rdBuff.toList = none := by rw [hreceiver]; rfl
  obtain ⟨hout, -⟩ := feed_eq rt user mc receiver chunks hwait
    (by rw [hdrain]; exact fun f hf => (hregistered f hf).1)
  have henv := MsgCenter.envelopes_doubled rt user receiver.sfd mc hregistered
  rw [hdrain] at hout
  rw [← hout, List.forall₂_map_right_iff] at henv
  obtain ⟨hlength, hall⟩ := List.forall₂_iff_get.mp henv
  refine List.forall₂_iff_get.mpr ⟨hlength, fun i hi hi' => ?_⟩
  obtain ⟨mc', t, k, hblock, htype, heq⟩ := hall i hi hi'
  have hm := List.get_mem msgs ⟨i, hi'⟩
  rw [heq]
  generalize msgs.get ⟨i, hi'⟩ = sent at *
  obtain ⟨hid, hcomplete, hshort, hroom⟩ := hmsgs sent hm
  obtain rfl : sent.msg.type = t := Option.some.inj (hid.symm.trans htype)
  have hroom' : ∀ j, (bytesOf sent.msg).length ≠ mc'.parseBuff.buffSize * 2 ^ j := by
    intro j
    rw [hblock, Nat.mul_assoc, ← pow_add]
    exact hroom (k + j)
  obtain ⟨haccepted, hget⟩ :=
    MsgCenter.envelope_message hcs hpb user receiver.sfd hcomplete (hsize sent hm) hroom'
  refine ⟨rfl, rfl, haccepted, hget, fun hfree n => ?_⟩
  have hall : ∀ f ∈ LoginPb.fieldsOf sent.msg, f.2.ZeroFree :=
    fun f hf => hfree f.1 f.2 (LoginPb.mem_fieldsOf.mp hf).2
  rw [hget, LoginPb.arrived_of_zeroFree hall, LoginPb.lookup_fieldsOf hcomplete]

/-- A presence message, and the answer to a `LoginReq` that is turned down. -/
def onlineAndRefused : List UserMsg :=
  [Output.onlineMsg 1,
   { msgId := 4, msg := ((Message.new .loginRsp).setIsOK false).setUserId 5 }]

theorem complete_onlineAndRefused : ∀ m ∈ onlineAndRefused, m.msg.Complete := by
  intro m hm
  rcases List.mem_pair.mp hm with rfl | rfl
  · exact LoginPb.complete_set_one rfl
  · refine ⟨fun f hf => ?_, fun n hn => ?_, rfl⟩
    · rcases List.mem_pair.mp hf with rfl | rfl
      · exact ⟨.bool false, rfl, rfl⟩
      · exact ⟨.int32 5, rfl, rfl⟩
    · have hn : n ∉ [1, 2] := hn
      rw [List.mem_pair, not_or] at hn
      rw [Message.setUserId, Message.get_set_of_ne _ _ hn.2, Message.setIsOK,
        Message.get_set_of_ne _ _ hn.1]
      rfl

/-- The first arrives, and of the second nothing does, not even the user id. -/
theorem arrives_onlineAndRefused :
    let rt : Runtime := { Protobuf.loginPb .plain with beyond := fun _ => [] }
    let stream := (emit rt.toProtobuf .new { sfd := 5 } onlineAndRefused).accepted
    (feed rt 0 .new { sfd := 6 } [stream.take 3, stream.drop 3]).1.map
        (fun m => (m.msgId, m.msg.get 1, m.msg.get 2)) =
      [(7, some (.int32 1), none), (4, none, none)] := by
  intro rt stream
  have hcut : [stream.take 3, stream.drop 3].flatten = stream := by
    rw [List.flatten_cons, List.flatten_cons, List.flatten_nil, List.append_nil,
      List.take_append_drop]
  have hpb : rt.toProtobuf = .loginPb .plain := rfl
  have hall := arrives CodedStream.documented_plain hpb .new { sfd := 5 } .new 0 { sfd := 6 } onlineAndRefused
    [stream.take 3, stream.drop 3] ⟨rfl, rfl⟩ rfl ?_ hcut
  · obtain ⟨online, _, ⟨hid₁, -, -, hget₁, -⟩, hrest, hgot⟩ := List.forall₂_cons_right_iff.mp hall
    obtain ⟨refused, _, ⟨hid₂, -, -, hget₂, -⟩, hnil, rfl⟩ := List.forall₂_cons_right_iff.mp hrest
    obtain rfl := List.forall₂_nil_right_iff.mp hnil
    simp only [hgot, List.map_cons, List.map_nil, hid₁, hid₂, hget₁, hget₂]
    rfl
  · intro m hm
    have hshort : ∀ m ∈ onlineAndRefused, MsgCenter.typeOf m.msgId = some m.msg.type ∧
      (LoginPb.serializeWithCachedSizes .plain m.msg).length ≤ 4 := by decide
    obtain ⟨htype, hlen⟩ := hshort m hm
    refine ⟨htype, complete_onlineAndRefused m hm, by omega, fun k heq => ?_⟩
    -- a few bytes are less than any doubling of the 256 bytes of a new block
    have hpow := Nat.two_pow_pos k
    have hsize : (LoginPb.serializeWithCachedSizes .plain m.msg).length = 256 * 2 ^ k := heq
    omega

end Rubo.Msgs
