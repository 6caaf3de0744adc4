import Rubo.Foundation.Decoder
import Rubo.Msgs.MsgCenter

/-!
# The Wire Format and What `parse_package` Makes of It

A frame on the wire is its body length, its message id, its uid (four bytes
each, little-endian) and its body. `frameDecoder` is the incremental decoder of
this format; it accepts exactly the encodings of well-formed frames
(`frameNext_eq_some`).

`parsePackage_eq` says what the parser of `MsgCenter` does in these terms: it
takes frames off the front of the read buffer until one has an unregistered id,
and returns an envelope for each of the others.
-/

namespace Rubo.Msgs

open Rubo.Foundation Rubo.Util

/-! ## The format -/

namespace Frame

/-- The frame a message is sent as. -/
def ofMsg (pb : Protobuf) (msg : UserMsg) : Frame :=
  ⟨msg.msgId, msg.uid, pb.serializeToArray msg.msg⟩

/-- The bytes of a frame on the wire. -/
def encode (f : Frame) : List UInt8 :=
  LittleEndian.toBytes 4 f.body.length ++ (LittleEndian.ofInt32 f.msgId ++
    (LittleEndian.ofInt32 f.uid ++ f.body))

/-- The body lengths `parse_package` does not reject. -/
def WellFormed (f : Frame) : Prop := 2 ≤ f.body.length ∧ f.body.length ≤ 2048

instance (f : Frame) : Decidable f.WellFormed := inferInstanceAs (Decidable (_ ∧ _))

@[simp] theorem length_encode (f : Frame) : f.encode.length = f.body.length + 12 := by
  simp only [encode, List.length_append, LittleEndian.length_toBytes, LittleEndian.length_ofInt32]
  omega

end Frame

/-- The first frame of a stream and what follows it; `none` while it is
incomplete, and for ever after a length out of range. -/
def frameNext (xs : List UInt8) : Option (Frame × List UInt8) :=
  if xs.length ≤ 4 then none
  else
    let pkgLen := LittleEndian.ofBytes (xs.take 4)
    -- the length is checked before the rest of the header is there
    if pkgLen ≤ 1 ∨ pkgLen > 2048 then none
    else if xs.length < pkgLen + 12 then none
    else
      some ({ msgId := LittleEndian.toInt32 ((xs.drop 4).take 4)
              uid := LittleEndian.toInt32 ((xs.drop 8).take 4)
              body := (xs.drop 12).take pkgLen }, xs.drop (pkgLen + 12))

/-- A stream that starts with a well-formed frame. -/
theorem frameNext_encode {f : Frame} (hf : f.WellFormed) (r : List UInt8) :
    frameNext (f.encode ++ r) = some (f, r) := by
  have hlen : (f.encode ++ r).length = f.body.length + 12 + r.length := by
    rw [List.length_append, Frame.length_encode]
  -- the four parts, each behind the ones before it
  have hpkg : LittleEndian.ofBytes ((f.encode ++ r).take 4) = f.body.length := by
    rw [Frame.encode, List.append_assoc, List.take_left' (LittleEndian.length_toBytes ..)]
    apply LittleEndian.ofBytes_toBytes
    have := hf.2
    omega
  have h4 : (f.encode ++ r).drop 4 =
      LittleEndian.ofInt32 f.msgId ++ (LittleEndian.ofInt32 f.uid ++ (f.body ++ r)) := by
    rw [Frame.encode, List.append_assoc, List.drop_left' (LittleEndian.length_toBytes ..)]
    simp only [List.append_assoc]
  have h8 : (f.encode ++ r).drop 8 = LittleEndian.ofInt32 f.uid ++ (f.body ++ r) := by
    rw [show 8 = 4 + 4 from rfl, ← List.drop_drop, h4,
      List.drop_left' (LittleEndian.length_ofInt32 _)]
  have h12 : (f.encode ++ r).drop 12 = f.body ++ r := by
    rw [show 12 = 8 + 4 from rfl, ← List.drop_drop, h8,
      List.drop_left' (LittleEndian.length_ofInt32 _)]
  have hrest : (f.encode ++ r).drop (f.body.length + 12) = r := by
    rw [Nat.add_comm, ← List.drop_drop, h12, List.drop_left]
  -- none of the three reasons to wait applies
  have hshort : ¬ (f.encode ++ r).length ≤ 4 := by omega
  have hrange : ¬ (f.body.length ≤ 1 ∨ f.body.length > 2048) := by
    obtain ⟨h2, h2048⟩ := hf
    omega
  have hall : ¬ (f.encode ++ r).length < f.body.length + 12 := by omega
  simp only [frameNext, hpkg, if_neg hshort, if_neg hrange, if_neg hall, h4, h8, h12, hrest,
    List.take_left' (LittleEndian.length_ofInt32 _), LittleEndian.toInt32_ofInt32, List.take_left]

/-- **Only encodings of well-formed frames are accepted.** -/
theorem frameNext_eq_some {xs r : List UInt8} {f : Frame} :
    frameNext xs = some (f, r) ↔ f.WellFormed ∧ xs = f.encode ++ r := by
  constructor
  · intro h
    unfold frameNext at h
    simp only at h
    split_ifs at h with hshort hrange hall
    simp only [Option.some.injEq, Prod.mk.injEq] at h
    obtain ⟨rfl, rfl⟩ := h
    have hbody : ((xs.drop 12).take (LittleEndian.ofBytes (xs.take 4))).length =
        LittleEndian.ofBytes (xs.take 4) := by
      rw [List.length_take, List.length_drop]
      omega
    refine ⟨?_, ?_⟩
    · rw [Frame.WellFormed, hbody]
      omega
    · -- the header bytes are the images of the integers read from them
      have hlen : LittleEndian.toBytes 4 (LittleEndian.ofBytes (xs.take 4)) = xs.take 4 := by
        have h4 : (xs.take 4).length = 4 := by
          rw [List.length_take]
          omega
        have himage := LittleEndian.toBytes_ofBytes (xs.take 4)
        rwa [h4] at himage
      have hid : ((xs.drop 4).take 4).length = 4 := by
        rw [List.length_take, List.length_drop]
        omega
      have huid : ((xs.drop 8).take 4).length = 4 := by
        rw [List.length_take, List.length_drop]
        omega
      simp only [Frame.encode, hbody, hlen, LittleEndian.ofInt32_toInt32 hid,
        LittleEndian.ofInt32_toInt32 huid, List.append_assoc]
      -- the pieces put together again are the stream
      have h12 : (xs.drop 12).take (LittleEndian.ofBytes (xs.take 4)) ++
          xs.drop (LittleEndian.ofBytes (xs.take 4) + 12) = xs.drop 12 := by
        rw [Nat.add_comm _ 12, ← List.drop_drop, List.take_append_drop]
      have h8 : (xs.drop 8).take 4 ++ xs.drop 12 = xs.drop 8 := by
        rw [show 12 = 8 + 4 from rfl, ← List.drop_drop, List.take_append_drop]
      have h4 : (xs.drop 4).take 4 ++ xs.drop 8 = xs.drop 4 := by
        rw [show 8 = 4 + 4 from rfl, ← List.drop_drop, List.take_append_drop]
      rw [h12, h8, h4, List.take_append_drop]
  · rintro ⟨hf, rfl⟩
    exact frameNext_encode hf r

/-- The first of several frames written back to back. -/
theorem frameNext_flatMap {f : Frame} (hf : f.WellFormed) (fs : List Frame) (r : List UInt8) :
    frameNext ((f :: fs).flatMap Frame.encode ++ r) = some (f, fs.flatMap Frame.encode ++ r) := by
  rw [List.flatMap_cons, List.append_assoc]
  exact frameNext_encode hf _

/-- The decoder of the wire format. -/
def frameDecoder : Decoder UInt8 Frame where
  next := frameNext
  next_length h := by
    obtain ⟨_, rfl⟩ := frameNext_eq_some.mp h
    rw [List.length_append, Frame.length_encode]
    omega
  next_append ys h := by
    obtain ⟨hf, rfl⟩ := frameNext_eq_some.mp h
    rw [List.append_assoc]
    exact frameNext_encode hf _

@[simp] theorem frameDecoder_next (xs : List UInt8) : frameDecoder.next xs = frameNext xs := rfl

/-- Frames written back to back are read back, and nothing is left. -/
theorem drain_encode {fs : List Frame} (h : ∀ f ∈ fs, f.WellFormed) :
    frameDecoder.drain (fs.flatMap Frame.encode) = (fs, []) := by
  induction fs with
  | nil => exact Decoder.drain_of_none rfl
  | cons f fs ih =>
      have hnext : frameDecoder.next ((f :: fs).flatMap Frame.encode) =
          some (f, fs.flatMap Frame.encode) := by
        rw [frameDecoder_next, List.flatMap_cons]
        exact frameNext_encode (h f (List.mem_cons_self ..)) _
      rw [Decoder.drain_of_some hnext, ih fun g hg => h g (List.mem_cons_of_mem _ hg)]

/-- A frame with a body that is too short or too long stops the decoder for ever. -/
theorem frameNext_of_not_wellFormed {f : Frame} (hf : ¬ f.WellFormed)
    (hlen : f.body.length < 2 ^ 32) (r : List UInt8) : frameNext (f.encode ++ r) = none := by
  have hpkg : LittleEndian.ofBytes ((f.encode ++ r).take 4) = f.body.length := by
    rw [Frame.encode, List.append_assoc, List.take_left' (LittleEndian.length_toBytes ..)]
    exact LittleEndian.ofBytes_toBytes (by omega)
  have hrange : f.body.length ≤ 1 ∨ f.body.length > 2048 := by
    unfold Frame.WellFormed at hf
    omega
  unfold frameNext
  simp only [hpkg, if_pos hrange, ite_self]

/-- Whatever the frames are, those read back are the first ones written. -/
theorem drain_encode_isPrefix {fs : List Frame} (h : ∀ f ∈ fs, f.body.length < 2 ^ 32) :
    (frameDecoder.drain (fs.flatMap Frame.encode)).1 <+: fs := by
  induction fs with
  | nil => exact List.nil_prefix
  | cons f fs ih =>
      by_cases hf : f.WellFormed
      · -- read back, and the induction goes on behind it
        have hnext : frameDecoder.next ((f :: fs).flatMap Frame.encode) =
            some (f, fs.flatMap Frame.encode) := by
          rw [frameDecoder_next, List.flatMap_cons]
          exact frameNext_encode hf _
        rw [Decoder.drain_of_some hnext]
        exact List.cons_prefix_cons.mpr ⟨rfl, ih fun g hg => h g (List.mem_cons_of_mem _ hg)⟩
      · -- the decoder never gets past this frame
        have hnext : frameDecoder.next ((f :: fs).flatMap Frame.encode) = none := by
          rw [frameDecoder_next, List.flatMap_cons]
          exact frameNext_of_not_wellFormed hf (h f (List.mem_cons_self ..)) _
        rw [Decoder.drain_of_none hnext]
        exact List.nil_prefix

/-- The frames read off the front of what was written are the first ones written. -/
theorem drain_isPrefix {fs : List Frame} (h : ∀ f ∈ fs, f.body.length < 2 ^ 32) {xs : List UInt8}
    (hxs : xs <+: fs.flatMap Frame.encode) : (frameDecoder.drain xs).1 <+: fs := by
  obtain ⟨rest, hrest⟩ := hxs
  have hread := Decoder.drain_fst_prefix (d := frameDecoder) xs rest
  rw [hrest] at hread
  exact hread.trans (drain_encode_isPrefix h)

/-! ## The parser -/

namespace MsgCenter

variable (rt : Runtime) (user : Ptr) (sfd : Int32)

/-- The parser's scratch data after a frame. -/
def afterFrame (mc : MsgCenter) (f : Frame) : MsgCenter where
  parseBuff := mc.parseBuff.hold f.body
  parseString := rt.cString (mc.parseBuff.hold f.body).data

/-- The envelope made of a frame with a registered id. -/
def envelope (mc : MsgCenter) (t : MsgType) (f : Frame) : UserMsg :=
  let block := (mc.parseBuff.hold f.body).data
  let r := (Message.new t).parseFromString rt.toProtobuf (rt.cString block)
  { uid := f.uid
    sfd := sfd
    msgId := f.msgId
    msg := r.2
    src := .received
      { user := user, frame := f, scratch := block, parsed := rt.cString block, accepted := r.1 } }

/-- The envelopes made of a run of frames, up to the first unregistered id. -/
def envelopes : MsgCenter → List Frame → List UserMsg
  | _, [] => []
  | mc, f :: fs =>
    match typeOf f.msgId with
    | none => []
    | some t => envelope rt user sfd mc t f :: envelopes (mc.afterFrame rt f) fs

/-- An envelope of a frame, whatever the parser's scratch data was. -/
def IsEnvelope (msg : UserMsg) (f : Frame) : Prop :=
  ∃ mc t, typeOf f.msgId = some t ∧ msg = envelope rt user sfd mc t f

/-- The frames a call takes: up to and including the first unregistered one. -/
def taken (xs : List UInt8) : List Frame × List UInt8 :=
  frameDecoder.drainUntil (fun f => !registered f.msgId) xs

/-- A pass over a complete frame. -/
theorem takePackage_encode (mc : MsgCenter) {buff : RingBuffPtr} {f : Frame} {r : List UInt8}
    (hf : f.WellFormed) (h : buff.toList = f.encode ++ r) :
    ∃ buff', buff'.toList = r ∧
      takePackage rt user sfd mc buff f.body.length =
        ((match typeOf f.msgId with
          | none => .stop
          | some t => .item (envelope rt user sfd mc t f)), mc.afterFrame rt f, buff') := by
  have hbody : 0 < f.body.length := Nat.lt_of_lt_of_le (by decide) hf.1
  rw [Frame.encode] at h
  simp only [List.append_assoc] at h
  -- the four reads of the source, each from where the last one stopped
  have h₁ := RingBuffPtr.toList_delData_append h (LittleEndian.length_toBytes ..) (by decide)
  obtain ⟨hid, h₂⟩ := RingBuffPtr.readDelBegin_append h₁ (LittleEndian.length_ofInt32 _) (by decide)
  obtain ⟨huid, h₃⟩ :=
    RingBuffPtr.readDelBegin_append h₂ (LittleEndian.length_ofInt32 _) (by decide)
  have hdest := (RingBuffPtr.readDelBegin_append h₃ rfl hbody).1
  rcases mc.parseBuff.readDelBegin_cleanData_appendSize h₃ hbody
    (mc.parseBuff.cleanData.le_buffSize_appendSize _) with ⟨buff', hleft, hscratch⟩
  refine ⟨buff', hleft, ?_⟩
  unfold takePackage
  simp only [hid, huid, hdest, hscratch, LittleEndian.toInt32_ofInt32, genMsgOfInt_eq]
  cases typeOf f.msgId <;> rfl

variable {rt user sfd}

/-- A pass in front of an incomplete or ill-formed frame changes nothing. -/
theorem parseOne_of_none {mc : MsgCenter} {buff : RingBuffPtr} (h : frameNext buff.toList = none) :
    parseOne rt user sfd mc buff = (.stop, mc, buff) := by
  unfold parseOne
  simp only [RingBuffPtr.dataSize_eq]
  by_cases hshort : buff.toList.length ≤ 4
  · -- not even a length
    rw [if_pos hshort]
  · have hread : buff.readBegin 4 = (true, buff.toList.take 4) := by
      rw [RingBuffPtr.readBegin_eq, if_pos (Nat.le_of_not_le hshort)]
    rw [if_neg hshort, hread]
    simp only
    rw [frameNext, if_neg hshort] at h
    simp only at h
    -- the decoder waits for one of the two reasons the parser breaks
    split_ifs at h with hrange hall
    · exact if_pos hrange
    · rw [if_neg hrange]
      exact if_pos hall

/-- A pass in front of a complete frame takes it. -/
theorem parseOne_of_some {mc : MsgCenter} {buff : RingBuffPtr} {f : Frame} {r : List UInt8}
    (h : frameNext buff.toList = some (f, r)) :
    parseOne rt user sfd mc buff = takePackage rt user sfd mc buff f.body.length := by
  obtain ⟨hf, hlist⟩ := frameNext_eq_some.mp h
  have hlen : buff.toList.length = f.body.length + 12 + r.length := by
    rw [hlist, List.length_append, Frame.length_encode]
  have hfront : buff.toList = LittleEndian.toBytes 4 f.body.length ++
      (LittleEndian.ofInt32 f.msgId ++ (LittleEndian.ofInt32 f.uid ++ f.body) ++ r) := by
    rw [hlist, Frame.encode, List.append_assoc]
  have hread := RingBuffPtr.readBegin_append hfront (LittleEndian.length_toBytes ..)
  -- the length read is the length written
  have hpkg : LittleEndian.ofBytes (LittleEndian.toBytes 4 f.body.length) = f.body.length := by
    apply LittleEndian.ofBytes_toBytes
    have := hf.2
    omega
  obtain ⟨h2, h2048⟩ := hf
  unfold parseOne
  simp only [RingBuffPtr.dataSize_eq, hread, hpkg]
  rw [if_neg (by omega), if_neg (by omega), if_neg (by omega)]

theorem taken_of_none {xs : List UInt8} (h : frameNext xs = none) : taken xs = ([], xs) :=
  Decoder.drainUntil_of_none h

/-- A frame with an unregistered id is the last one taken. -/
theorem taken_of_unregistered {xs r : List UInt8} {f : Frame} (h : frameNext xs = some (f, r))
    (htype : typeOf f.msgId = none) : taken xs = ([f], r) := by
  have hreg : (!registered f.msgId) = true := by rw [registered, htype]; rfl
  rw [taken, Decoder.drainUntil_of_some h, if_pos hreg]

theorem taken_of_registered {xs r : List UInt8} {f : Frame} {t : MsgType}
    (h : frameNext xs = some (f, r)) (htype : typeOf f.msgId = some t) :
    taken xs = (f :: (taken r).1, (taken r).2) := by
  have hreg : (!registered f.msgId) = false := by rw [registered, htype]; rfl
  rw [taken, Decoder.drainUntil_of_some h, hreg]
  rfl

/-- Without unregistered ids a call takes every complete frame. -/
theorem taken_eq_drain {xs : List UInt8}
    (h : ∀ f ∈ (frameDecoder.drain xs).1, registered f.msgId = true) :
    taken xs = frameDecoder.drain xs := by
  apply Decoder.drainUntil_eq_drain
  intro f hf
  rw [h f hf]
  rfl

theorem registered_iff {msgId : Int32} : registered msgId = true ↔ ∃ t, typeOf msgId = some t :=
  Option.isSome_iff_exists

variable (rt user sfd)

/-- The messages returned are, one by one, envelopes of the registered frames. -/
theorem envelopes_forall₂ (mc : MsgCenter) (fs : List Frame) :
    List.Forall₂ (IsEnvelope rt user sfd) (envelopes rt user sfd mc fs)
      (fs.takeWhile fun f => registered f.msgId) := by
  induction fs generalizing mc with
  | nil => exact .nil
  | cons f fs ih =>
      cases htype : typeOf f.msgId with
      | none =>
          -- both lists end here
          have hreg : registered f.msgId = false := by rw [registered, htype]; rfl
          simp only [envelopes, htype, List.takeWhile_cons, hreg]
          exact .nil
      | some t =>
          have hreg : registered f.msgId = true := registered_iff.mpr ⟨t, htype⟩
          simp only [envelopes, htype, List.takeWhile_cons, hreg, if_true]
          exact .cons ⟨mc, t, htype, rfl⟩ (ih _)

/-- Each message is an envelope made with a scratch block at least as large as
the one the parser had at first. -/
theorem mem_envelopes {mc : MsgCenter} {fs : List Frame} {msg : UserMsg}
    (h : msg ∈ envelopes rt user sfd mc fs) :
    ∃ f ∈ fs, ∃ mc' t, mc.parseBuff.buffSize ≤ mc'.parseBuff.buffSize ∧
      typeOf f.msgId = some t ∧ msg = envelope rt user sfd mc' t f := by
  induction fs generalizing mc with
  | nil => exact absurd h List.not_mem_nil
  | cons f fs ih =>
      cases htype : typeOf f.msgId with
      | none =>
          simp only [envelopes, htype] at h
          exact absurd h List.not_mem_nil
      | some t =>
          simp only [envelopes, htype] at h
          rcases List.mem_cons.mp h with rfl | h
          · exact ⟨f, List.mem_cons_self .., mc, t, Nat.le_refl _, htype, rfl⟩
          · -- a later message; the scratch block only grows
            obtain ⟨g, hg, mc', t', hsize, htype', hmsg⟩ := ih h
            have hgrown : mc.parseBuff.buffSize ≤ (mc.afterFrame rt f).parseBuff.buffSize :=
              mc.parseBuff.buffSize_le_hold f.body
            exact ⟨g, List.mem_cons_of_mem _ hg, mc', t', hgrown.trans hsize, htype', hmsg⟩

theorem buffSize_le_foldl_afterFrame (mc : MsgCenter) (fs : List Frame) :
    mc.parseBuff.buffSize ≤ (fs.foldl (afterFrame rt) mc).parseBuff.buffSize := by
  induction fs generalizing mc with
  | nil => exact Nat.le_refl _
  | cons f fs ih => exact (mc.parseBuff.buffSize_le_hold f.body).trans (ih (mc.afterFrame rt f))

theorem envelopes_append {fs : List Frame} (h : ∀ f ∈ fs, registered f.msgId = true)
    (mc : MsgCenter) (gs : List Frame) :
    envelopes rt user sfd mc (fs ++ gs) =
      envelopes rt user sfd mc fs ++ envelopes rt user sfd (fs.foldl (afterFrame rt) mc) gs := by
  induction fs generalizing mc with
  | nil => rfl
  | cons f fs ih =>
      obtain ⟨t, htype⟩ := registered_iff.mp (h f (List.mem_cons_self ..))
      simp only [List.cons_append, envelopes, htype, List.foldl_cons]
      rw [ih fun g hg => h g (List.mem_cons_of_mem _ hg)]

/-- The loop with enough fuel, in terms of the decoder. -/
theorem parseLoop_eq {fuel : ℕ} (mc : MsgCenter) {buff : RingBuffPtr}
    (hfuel : buff.toList.length < fuel) :
    ∃ buff', buff'.toList = (taken buff.toList).2 ∧
      parseLoop rt user sfd fuel mc buff =
        (envelopes rt user sfd mc (taken buff.toList).1,
          (taken buff.toList).1.foldl (afterFrame rt) mc, buff') := by
  induction fuel generalizing mc buff with
  | zero => exact absurd hfuel (Nat.not_lt_zero _)
  | succ fuel ih =>
      cases hnext : frameNext buff.toList with
      -- the decoder waits, so the first pass breaks
      | none =>
          rw [taken_of_none hnext]
          exact ⟨buff, rfl, by rw [parseLoop, parseOne_of_none hnext]; rfl⟩
      | some p =>
          obtain ⟨f, r⟩ := p
          obtain ⟨hf, hlist⟩ := frameNext_eq_some.mp hnext
          obtain ⟨buff₁, hbuff₁, htake⟩ := takePackage_encode rt user sfd mc hf hlist
          rw [parseLoop, parseOne_of_some hnext, htake]
          cases htype : typeOf f.msgId with
          | none =>
              -- the frame is gone from the buffer, but there is no envelope for it
              rw [taken_of_unregistered hnext htype]
              exact ⟨buff₁, hbuff₁, by simp only [envelopes, htype]; rfl⟩
          | some t =>
              -- a frame is never empty, so the fuel lasts
              have hshorter : buff₁.toList.length < fuel := by
                rw [hlist, List.length_append, Frame.length_encode] at hfuel
                rw [hbuff₁]
                omega
              obtain ⟨buff₂, hbuff₂, hloop⟩ := ih (mc.afterFrame rt f) hshorter
              rw [hbuff₁] at hbuff₂ hloop
              rw [taken_of_registered hnext htype]
              refine ⟨buff₂, hbuff₂, ?_⟩
              simp only [hloop, envelopes, htype]
              rfl

/-- **What a call does**: it takes the frames `taken`, returns their envelopes and
leaves the rest of the stream in the read buffer. -/
theorem parsePackage_eq (mc : MsgCenter) (sock : SocketNode) :
    ∃ buff, buff.toList = (taken sock.rdBuff.toList).2 ∧
      parsePackage rt mc user sock =
        (envelopes rt user sock.sfd mc (taken sock.rdBuff.toList).1,
          (taken sock.rdBuff.toList).1.foldl (afterFrame rt) mc, { sock with rdBuff := buff }) := by
  have hfuel : sock.rdBuff.toList.length < sock.rdBuff.dataSize + 1 := by
    rw [RingBuffPtr.dataSize_eq]
    exact Nat.lt_succ_self _
  obtain ⟨buff, hbuff, hloop⟩ := parseLoop_eq rt user sock.sfd mc hfuel
  exact ⟨buff, hbuff, by rw [parsePackage, hloop]⟩

/-- The messages that are kept are envelopes of the frames that are kept. -/
theorem filter_envelopes {keep : UserMsg → Bool} {want : Frame → Bool} {msgs : List UserMsg}
    {fs : List Frame} (h : List.Forall₂ (IsEnvelope rt user sfd) msgs fs)
    (hkeep : ∀ msg f, IsEnvelope rt user sfd msg f → (keep msg = true ↔ want f = true)) :
    List.Forall₂ (IsEnvelope rt user sfd) (msgs.filter keep) (fs.filter want) :=
  List.rel_filter (fun msg f hmsg => hkeep msg f hmsg) h

end MsgCenter

end Rubo.Msgs
