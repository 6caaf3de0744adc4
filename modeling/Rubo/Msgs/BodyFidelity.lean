import Mathlib.Data.List.TakeWhile
import Rubo.Msgs.Framing

/-!
# What Reaches `ParseFromString`

`parse_package` copies a body into its scratch block and makes a string of the
block through a `char*`. The string is the body exactly when the body has no
zero byte, and the conversion stays inside the block exactly when some byte of
the block is zero, which a body that fills the block does not leave. The result
of `ParseFromString` is not looked at.

`faithful_iff_fits` puts this together for every message a call returns.
-/

namespace Rubo.Msgs.MsgCenter

open Rubo.Foundation Rubo.Util

/-- The parser did its work on a message: the string was the frame's body, it
ended inside the scratch block, and protobuf accepted it. -/
def Faithful (msg : UserMsg) (f : Frame) : Prop :=
  ∃ r, msg.src = .received r ∧ r.parsed = f.body ∧ 0 ∈ r.scratch ∧ r.accepted = true

/-- A frame the parser can handle when its scratch block has `size` bytes: no
zero byte in the body, the body no doubling of the size, and protobuf accepts
the body. -/
structure Fits (pb : Protobuf) (t : MsgType) (size : ℕ) (f : Frame) : Prop where
  noZero : 0 ∉ f.body
  room : ∀ k, f.body.length ≠ size * 2 ^ k
  accepted : (pb.parseFromString t f.body).1 = true

/-- The size of the scratch block after some frames. -/
def scratchSize (mc : MsgCenter) (fs : List Frame) : ℕ :=
  fs.foldl (fun size f => LineBufferPtr.grown size f.body.length) mc.parseBuff.buffSize

theorem buffSize_foldl_afterFrame (rt : Runtime) (mc : MsgCenter) (fs : List Frame) :
    (fs.foldl (afterFrame rt) mc).parseBuff.buffSize = scratchSize mc fs := by
  induction fs generalizing mc with
  | nil => rfl
  | cons f fs ih =>
      rw [List.foldl_cons, ih, scratchSize, scratchSize, List.foldl_cons, afterFrame,
        LineBufferPtr.buffSize_hold]

/-- Each message returned is the envelope of the frame at its place, made with
the scratch data the frames before it left. -/
theorem getElem?_envelopes {rt : Runtime} {user : Ptr} {sfd : Int32} {mc : MsgCenter}
    {fs : List Frame} {i : ℕ} {m : UserMsg} (h : (envelopes rt user sfd mc fs)[i]? = some m) :
    ∃ f t, fs[i]? = some f ∧ typeOf f.msgId = some t ∧
      m = envelope rt user sfd ((fs.take i).foldl (afterFrame rt) mc) t f := by
  induction fs generalizing mc i with
  | nil => cases h
  | cons f fs ih =>
      cases htype : typeOf f.msgId with
      | none =>
          -- an unregistered id ends the list
          simp only [envelopes, htype] at h
          cases h
      | some t =>
          simp only [envelopes, htype] at h
          cases i with
          | zero =>
              cases h
              exact ⟨f, t, rfl, htype, rfl⟩
          -- counted from the next frame, with the scratch data after this one
          | succ i => exact ih h

/-! ## Strings from blocks -/

/-- A string read through a `char*` has no zero byte. -/
theorem zero_notMem_cString (rt : Runtime) (block : List UInt8) : 0 ∉ rt.cString block := by
  intro hmem
  have hne := List.mem_takeWhile_imp hmem
  simp only [bne_self_eq_false, Bool.false_eq_true] at hne

/-- A string read through a `char*` from a block that starts with `body`. -/
theorem cString_eq_iff {rt : Runtime} {body : List UInt8} {pad : ℕ} :
    rt.cString (body ++ List.replicate (pad + 1) 0) = body ↔ 0 ∉ body := by
  constructor
  · intro h hmem
    rw [← h] at hmem
    exact zero_notMem_cString rt _ hmem
  · intro h
    -- the conversion passes the body and stops at the padding
    have hne : ∀ b ∈ body, (b != 0) = true := by
      intro b hb
      rw [bne_iff_ne]
      rintro rfl
      exact h hb
    rw [Runtime.cString, List.append_assoc, List.takeWhile_append_of_pos hne]
    exact List.append_nil _

/-- The block that holds a body has a zero byte iff the body has one or does not
fill the block. -/
theorem zero_mem_hold {p : LineBufferPtr} {body : List UInt8} (hpos : 0 < body.length) :
    0 ∈ (p.hold body).data ↔ 0 ∈ body ∨ ∀ k, body.length ≠ p.buffSize * 2 ^ k := by
  have hgrown := LineBufferPtr.grown_eq_iff p.buffSize_pos hpos
  have hle := p.length_le_buffSize_hold body
  rw [LineBufferPtr.data_hold, List.mem_append, List.mem_replicate]
  rw [LineBufferPtr.buffSize_hold] at hle ⊢
  rw [← not_exists, ← hgrown]
  -- behind the body there is padding unless the block is exactly filled
  apply or_congr_right
  constructor
  · rintro ⟨hne, _⟩ heq
    rw [heq, Nat.sub_self] at hne
    exact hne rfl
  · intro hne
    exact ⟨by omega, rfl⟩

/-! ## Every returned message -/

/-- The parser is faithful on a frame exactly when the frame fits. -/
theorem faithful_envelope_iff {rt : Runtime} {user : Ptr} {sfd : Int32} {mc : MsgCenter}
    {t : MsgType} {f : Frame} (hpos : 0 < f.body.length) :
    Faithful (envelope rt user sfd mc t f) f ↔
      Fits rt.toProtobuf t mc.parseBuff.buffSize f := by
  have hzero := zero_mem_hold (p := mc.parseBuff) hpos
  constructor
  · rintro ⟨r, hr, hparsed, hscratch, hacc⟩
    cases hr
    simp only at hparsed hscratch hacc
    -- a string that equals the body has no zero byte, as no string has
    have hnoZero : 0 ∉ f.body := by
      intro hmem
      rw [← hparsed] at hmem
      exact zero_notMem_cString rt _ hmem
    rcases hzero.mp hscratch with hmem | hroom
    · exact absurd hmem hnoZero
    · refine ⟨hnoZero, hroom, ?_⟩
      rw [hparsed] at hacc
      exact hacc
  · rintro ⟨hnoZero, hroom, hacc⟩
    have hscratch := hzero.mpr (.inr hroom)
    -- some padding is left, so the string ends right behind the body
    have hstring : rt.cString (mc.parseBuff.hold f.body).data = f.body := by
      have hpad : (mc.parseBuff.hold f.body).buffSize - f.body.length ≠ 0 := by
        intro hpad
        rw [LineBufferPtr.data_hold, hpad, List.replicate_zero, List.append_nil] at hscratch
        exact hnoZero hscratch
      obtain ⟨pad, hpad⟩ := Nat.exists_eq_succ_of_ne_zero hpad
      rw [LineBufferPtr.data_hold, hpad]
      exact cString_eq_iff.mpr hnoZero
    refine ⟨_, rfl, hstring, hscratch, ?_⟩
    simp only [hstring]
    exact hacc

/-- **Exactly the frames that fit are parsed faithfully**: for every read buffer,
every scratch block and every message a call returns. -/
theorem faithful_iff_fits (rt : Runtime) (mc : MsgCenter) (user : Ptr) (sock : SocketNode) (i : ℕ)
    (m : UserMsg) (h : (parsePackage rt mc user sock).1[i]? = some m) :
    ∃ f t, (taken sock.rdBuff.toList).1[i]? = some f ∧ typeOf f.msgId = some t ∧
      (Faithful m f ↔
        Fits rt.toProtobuf t (scratchSize mc ((taken sock.rdBuff.toList).1.take i)) f) := by
  obtain ⟨buff, _, hparse⟩ := parsePackage_eq rt user mc sock
  rw [hparse] at h
  obtain ⟨f, t, hf, htype, rfl⟩ := getElem?_envelopes h
  -- no accepted frame has an empty body
  have hwell : ∀ g ∈ (taken sock.rdBuff.toList).1, g.WellFormed :=
    Decoder.forall_mem_drainUntil (fun hnext => (frameNext_eq_some.mp hnext).1) _
  have hpos : 0 < f.body.length :=
    Nat.lt_of_lt_of_le (by decide) (hwell f (List.mem_of_getElem? hf)).1
  refine ⟨f, t, hf, htype, ?_⟩
  rw [faithful_envelope_iff hpos, buffSize_foldl_afterFrame]

/-- A runtime whose heap has zeros behind every block. -/
def zeroBeyond : Runtime := { Protobuf.oneSmallInt with beyond := fun _ => [0] }

/-- A connection that has received one frame. -/
def oneFrame (f : Frame) : SocketNode := { sfd := 5, rdBuff := RingBuffPtr.new.addData f.encode }

theorem taken_oneFrame {f : Frame} {t : MsgType} (hf : f.WellFormed)
    (ht : typeOf f.msgId = some t) : taken (oneFrame f).rdBuff.toList = ([f], []) := by
  have hlist : (oneFrame f).rdBuff.toList = f.encode ++ [] := by
    rw [oneFrame, RingBuffPtr.toList_addData, RingBuffPtr.toList_new, List.append_nil,
      List.nil_append]
  rw [hlist, taken_of_registered (frameNext_encode hf []) ht, taken_of_none rfl]

theorem parsePackage_oneFrame (rt : Runtime) {f : Frame} {t : MsgType} (hf : f.WellFormed)
    (ht : typeOf f.msgId = some t) :
    (parsePackage rt .new 0 (oneFrame f)).1 = [envelope rt 0 5 .new t f] := by
  obtain ⟨buff, _, hparse⟩ := parsePackage_eq rt 0 .new (oneFrame f)
  rw [hparse, taken_oneFrame hf ht]
  simp only [envelopes, ht]
  rfl

/-- `UserOnlineReq` about uid 1 is parsed faithfully. -/
theorem faithful_uidOne :
    ∃ m, (parsePackage zeroBeyond .new 0 (oneFrame ⟨7, 1, [8, 1]⟩)).1[0]? = some m ∧
      Faithful m ⟨7, 1, [8, 1]⟩ := by
  have htype : typeOf 7 = some .userOnlineReq := by decide
  have htaken := taken_oneFrame (f := ⟨7, 1, [8, 1]⟩) (by decide) htype
  have h : (parsePackage zeroBeyond .new 0 (oneFrame ⟨7, 1, [8, 1]⟩)).1[0]? =
      some (envelope zeroBeyond 0 5 .new .userOnlineReq ⟨7, 1, [8, 1]⟩) := by
    rw [parsePackage_oneFrame zeroBeyond (by decide) htype]
    rfl
  refine ⟨_, h, ?_⟩
  obtain ⟨f, t, hf, ht, hiff⟩ := faithful_iff_fits zeroBeyond .new 0 (oneFrame ⟨7, 1, [8, 1]⟩) 0 _ h
  rw [htaken] at hf hiff
  cases hf
  cases ht.symm.trans htype
  refine hiff.mpr ⟨by decide, fun k hk => ?_, by decide⟩
  -- two bytes are less than any doubling of the 256 bytes of a new block
  have hpow := Nat.two_pow_pos k
  have hsize : 2 = 256 * 2 ^ k := hk
  omega

/-- Not every message is parsed faithfully: the body of `UserOnlineReq` about
uid 0 ends in a zero byte, which does not reach `ParseFromString`. -/
theorem not_faithful_uidZero :
    ¬ ∀ (rt : Runtime) (mc : MsgCenter) (user : Ptr) (sock : SocketNode) (i : ℕ) (m : UserMsg),
      (parsePackage rt mc user sock).1[i]? = some m →
        ∃ f, (taken sock.rdBuff.toList).1[i]? = some f ∧ Faithful m f := by
  intro h
  have htype : typeOf 7 = some .userOnlineReq := by decide
  have hparse : (parsePackage zeroBeyond .new 0 (oneFrame ⟨7, 0, [8, 0]⟩)).1[0]? =
      some (envelope zeroBeyond 0 5 .new .userOnlineReq ⟨7, 0, [8, 0]⟩) := by
    rw [parsePackage_oneFrame zeroBeyond (by decide) htype]
    rfl
  obtain ⟨f, hf, hfaithful⟩ := h _ _ _ _ _ _ hparse
  rw [taken_oneFrame (by decide) htype] at hf
  cases hf
  -- faithfulness would need a body without zero bytes
  have hfits := (faithful_envelope_iff (by decide)).mp hfaithful
  exact hfits.noZero (by decide)

end Rubo.Msgs.MsgCenter
