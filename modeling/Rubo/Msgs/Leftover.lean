import Rubo.Msgs.RoundTrip

/-!
# What `parse_package` Leaves in the Buffer

A call of `parse_package` stops in front of an incomplete frame, in front of a
length out of range, and behind a frame with an unregistered id. Only the first
of these leaves bytes that a later read can complete:

- `extendable_taken_iff`: the leftover can be completed iff the buffer held
  frames with lengths in range, none but the last with an unregistered id, and
  the beginning of a frame the parser accepts;
- `delivered_cut_iff`: how a stream is cut into reads makes no difference iff no
  complete frame of it comes behind one with an unregistered id.
-/

namespace Rubo.Msgs

open Rubo.Foundation Rubo.Util

/-! ## Bytes that can be completed -/

/-- A frame `parse_package` returns a message for. -/
def Frame.Accepted (f : Frame) : Prop := f.WellFormed ∧ MsgCenter.registered f.msgId = true

instance (f : Frame) : Decidable f.Accepted := inferInstanceAs (Decidable (_ ∧ _))

/-- A proper prefix of an accepted frame. -/
def Extendable (xs : List UInt8) : Prop :=
  ∃ (f : Frame) (ys : List UInt8), f.Accepted ∧ ys ≠ [] ∧ xs ++ ys = f.encode

/-- Frames the parser gets over, and the beginning of one it accepts. The last
frame may have an unregistered id: the call ends behind it. -/
def Resumable (xs : List UInt8) : Prop :=
  ∃ (fs : List Frame) (rest : List UInt8), xs = fs.flatMap Frame.encode ++ rest ∧
    (∀ f ∈ fs, f.WellFormed) ∧ (∀ f ∈ fs.dropLast, MsgCenter.registered f.msgId = true) ∧
    Extendable rest

theorem extendable_nil : Extendable [] :=
  ⟨⟨ProtocolDefine.userOnlineReq.toInt, 0, [8, 1]⟩, _, by decide, List.cons_ne_nil _ _, rfl⟩

/-- The largest frame has 2060 bytes. -/
theorem Extendable.length_lt {xs : List UInt8} (h : Extendable xs) : xs.length < 2060 := by
  obtain ⟨f, ys, ⟨⟨_, hle⟩, _⟩, hys, hcat⟩ := h
  have hlen : xs.length + ys.length = f.body.length + 12 := by
    rw [← List.length_append, hcat, Frame.length_encode]
  have hpos : 0 < ys.length := List.length_pos_of_ne_nil hys
  omega

/-- The parser waits for the rest of the frame. -/
theorem Extendable.frameNext_eq_none {xs : List UInt8} (h : Extendable xs) :
    frameNext xs = none := by
  obtain ⟨f, ys, ⟨hf, _⟩, hys, hcat⟩ := h
  cases hnext : frameNext xs with
  | none => rfl
  | some p =>
      obtain ⟨g, r⟩ := p
      -- a frame taken now would be all of `f`
      have hlonger : frameNext (xs ++ ys) = some (g, r ++ ys) := frameDecoder.next_append ys hnext
      have hwhole : frameNext (xs ++ ys) = some (f, []) := by
        rw [hcat]
        simpa using frameNext_encode hf []
      rw [hlonger] at hwhole
      have hnil : r ++ ys = [] := (Prod.mk.inj (Option.some.inj hwhole)).2
      exact absurd (List.append_eq_nil_iff.mp hnil).2 hys

/-- A length that can be seen is in range. -/
theorem Extendable.length_in_range {xs : List UInt8} (h : Extendable xs) (hlen : 4 ≤ xs.length) :
    2 ≤ LittleEndian.ofBytes (xs.take 4) ∧ LittleEndian.ofBytes (xs.take 4) ≤ 2048 := by
  obtain ⟨f, ys, ⟨⟨h2, h2048⟩, _⟩, _, hcat⟩ := h
  have hfront : xs.take 4 = (xs ++ ys).take 4 := (List.take_append_of_le_length hlen).symm
  have htake : xs.take 4 = LittleEndian.toBytes 4 f.body.length := by
    rw [hfront, hcat, Frame.encode, List.take_left' (LittleEndian.length_toBytes ..)]
  rw [htake, LittleEndian.ofBytes_toBytes (by omega)]
  exact ⟨h2, h2048⟩

namespace MsgCenter

/-- The frames taken and the rest are the buffer. -/
theorem taken_spec (xs : List UInt8) :
    xs = (taken xs).1.flatMap Frame.encode ++ (taken xs).2 ∧
      (∀ f ∈ (taken xs).1, f.WellFormed) ∧
      ∀ f ∈ (taken xs).1.dropLast, registered f.msgId = true := by
  induction xs using Decoder.item_induction (d := frameDecoder) with
  | wait xs hnext =>
      rw [taken_of_none hnext]
      exact ⟨rfl, fun f hf => absurd hf List.not_mem_nil, fun f hf => absurd hf List.not_mem_nil⟩
  | item xs f r hnext ih =>
      obtain ⟨hf, hxs⟩ := frameNext_eq_some.mp hnext
      cases htype : typeOf f.msgId with
      | none =>
          rw [taken_of_unregistered hnext htype]
          refine ⟨by simpa using hxs, ?_, fun g hg => absurd hg List.not_mem_nil⟩
          intro g hg
          rcases List.mem_singleton.mp hg with rfl
          exact hf
      | some t =>
          obtain ⟨hcat, hwell, hreg⟩ := ih
          rw [taken_of_registered hnext htype]
          refine ⟨?_, ?_, ?_⟩
          · rw [List.flatMap_cons, List.append_assoc, ← hcat]
            exact hxs
          · intro g hg
            rcases List.mem_cons.mp hg with rfl | hg
            · exact hf
            · exact hwell g hg
          · intro g hg
            -- the first frame, or one of the others but the last
            cases hfs : (taken r).1 with
            | nil =>
                rw [hfs] at hg
                exact absurd hg List.not_mem_nil
            | cons f' fs =>
                rw [hfs, List.dropLast_cons_of_ne_nil (List.cons_ne_nil _ _)] at hg
                rcases List.mem_cons.mp hg with rfl | hg
                · exact registered_iff.mpr ⟨t, htype⟩
                · exact hreg g (hfs ▸ hg)

/-- Frames the parser gets over, in front of bytes it waits behind. -/
theorem taken_flatMap_encode {fs : List Frame} {rest : List UInt8} (hwell : ∀ f ∈ fs, f.WellFormed)
    (hreg : ∀ f ∈ fs.dropLast, registered f.msgId = true) (hrest : frameNext rest = none) :
    taken (fs.flatMap Frame.encode ++ rest) = (fs, rest) := by
  induction fs with
  | nil => exact taken_of_none hrest
  | cons f fs ih =>
      have hnext : frameNext ((f :: fs).flatMap Frame.encode ++ rest) =
          some (f, fs.flatMap Frame.encode ++ rest) :=
        frameNext_flatMap (hwell f (List.mem_cons_self ..)) fs rest
      cases fs with
      | nil =>
          -- the last frame: the call ends here either way
          cases htype : typeOf f.msgId with
          | none => exact taken_of_unregistered hnext htype
          | some t =>
              rw [taken_of_registered hnext htype]
              simp only [List.flatMap_nil, List.nil_append, taken_of_none hrest]
      | cons g gs =>
          rw [List.dropLast_cons_of_ne_nil (List.cons_ne_nil _ _)] at hreg
          obtain ⟨t, htype⟩ := registered_iff.mp (hreg f (List.mem_cons_self ..))
          rw [taken_of_registered hnext htype,
            ih (fun h hh => hwell h (List.mem_cons_of_mem _ hh))
              fun h hh => hreg h (List.mem_cons_of_mem _ hh)]

/-- **When the leftover can be completed.** -/
theorem extendable_taken_iff (xs : List UInt8) : Extendable (taken xs).2 ↔ Resumable xs := by
  constructor
  · intro h
    obtain ⟨hcat, hwell, hreg⟩ := taken_spec xs
    exact ⟨(taken xs).1, (taken xs).2, hcat, hwell, hreg, h⟩
  · rintro ⟨fs, rest, rfl, hwell, hreg, hrest⟩
    rw [taken_flatMap_encode hwell hreg hrest.frameNext_eq_none]
    exact hrest

/-- A length out of range stays where it is. -/
theorem not_resumable_of_length {xs : List UInt8} (hlen : 4 ≤ xs.length)
    (hrange : LittleEndian.ofBytes (xs.take 4) ≤ 1 ∨ LittleEndian.ofBytes (xs.take 4) > 2048) :
    ¬ Resumable xs := by
  intro h
  have hnext : frameNext xs = none := by
    unfold frameNext
    simp only [if_pos hrange, ite_self]
  have hext : Extendable xs := by
    have hleft := (extendable_taken_iff xs).mpr h
    rwa [taken_of_none hnext] at hleft
  have hin := hext.length_in_range hlen
  omega

end MsgCenter

/-! ## Two ways of cutting one stream -/

/-- The frames taken and the bytes left when a buffer receives chunks and is
parsed after each. -/
def cutTaken : List UInt8 → List (List UInt8) → List Frame × List UInt8
  | buff, [] => ([], buff)
  | buff, chunk :: chunks =>
    let (fs, left) := MsgCenter.taken (buff ++ chunk)
    let (gs, left) := cutTaken left chunks
    (fs ++ gs, left)

/-- What can be told of a run of `feed` from outside: the ids and uids of the
messages, and the bytes left in the buffer. -/
def delivered (rt : Runtime) (user : Ptr) (mc : MsgCenter) (sock : SocketNode)
    (chunks : List (List UInt8)) : List (Int32 × Int32) × List UInt8 :=
  let (msgs, _, sock) := feed rt user mc sock chunks
  (msgs.map fun m => (m.msgId, m.uid), sock.rdBuff.toList)

/-- The ids and uids of the frames that have a message. -/
def headers (fs : List Frame) : List (Int32 × Int32) :=
  (fs.filter fun f => MsgCenter.registered f.msgId).map fun f => (f.msgId, f.uid)

theorem headers_append (fs gs : List Frame) : headers (fs ++ gs) = headers fs ++ headers gs := by
  rw [headers, List.filter_append, List.map_append]
  rfl

/-- A call returns one message for each registered frame it takes. -/
theorem map_envelopes_taken (rt : Runtime) (user : Ptr) (sfd : Int32) (mc : MsgCenter)
    (xs : List UInt8) :
    (MsgCenter.envelopes rt user sfd mc (MsgCenter.taken xs).1).map (fun m => (m.msgId, m.uid)) =
      headers (MsgCenter.taken xs).1 := by
  induction xs using Decoder.item_induction (d := frameDecoder) generalizing mc with
  | wait xs hnext => rw [MsgCenter.taken_of_none hnext]; rfl
  | item xs f r hnext ih =>
      cases htype : MsgCenter.typeOf f.msgId with
      | none =>
          have hreg : MsgCenter.registered f.msgId = false := by
            rw [MsgCenter.registered, htype]
            rfl
          rw [MsgCenter.taken_of_unregistered hnext htype]
          simp only [MsgCenter.envelopes, htype, headers, List.filter_cons, hreg]
          rfl
      | some t =>
          have hreg : MsgCenter.registered f.msgId = true := MsgCenter.registered_iff.mpr ⟨t, htype⟩
          rw [MsgCenter.taken_of_registered hnext htype]
          simp only [MsgCenter.envelopes, htype, List.map_cons, ih, headers, List.filter_cons, hreg]
          rfl

/-- What is delivered is a matter of the bytes alone. -/
theorem delivered_eq (rt : Runtime) (user : Ptr) (mc : MsgCenter) (sock : SocketNode)
    (chunks : List (List UInt8)) :
    delivered rt user mc sock chunks =
      (headers (cutTaken sock.rdBuff.toList chunks).1, (cutTaken sock.rdBuff.toList chunks).2) := by
  induction chunks generalizing mc sock with
  | nil => rfl
  | cons chunk chunks ih =>
      obtain ⟨buff, hleft, hparse⟩ :=
        MsgCenter.parsePackage_eq rt user mc { sock with rdBuff := sock.rdBuff.addData chunk }
      simp only [RingBuffPtr.toList_addData] at hleft hparse
      have hrest := ih ((MsgCenter.taken (sock.rdBuff.toList ++ chunk)).1.foldl
        (MsgCenter.afterFrame rt) mc) { sock with rdBuff := buff }
      simp only [delivered, hleft, Prod.mk.injEq] at hrest
      simp only [delivered, feed, hparse, cutTaken, List.map_append, headers_append,
        map_envelopes_taken, hrest]

theorem mem_dropLast_append {α : Type*} {a : α} {l : List α} (l' : List α) (h : a ∈ l.dropLast) :
    a ∈ (l ++ l').dropLast := by
  by_cases hl' : l' = []
  · rwa [hl', List.append_nil]
  · rw [List.dropLast_append_of_ne_nil hl']
    exact List.mem_append_left _ (List.mem_of_mem_dropLast h)

/-- The last frame may end a call, for there is no frame behind it. -/
theorem cutTaken_eq_drain {buff : List UInt8} {chunks : List (List UInt8)}
    (hwait : frameNext buff = none)
    (hreg : ∀ f ∈ (frameDecoder.drain (buff ++ chunks.flatten)).1.dropLast,
      MsgCenter.registered f.msgId = true) :
    cutTaken buff chunks = frameDecoder.drain (buff ++ chunks.flatten) := by
  induction chunks generalizing buff with
  | nil =>
      rw [List.flatten_nil, List.append_nil, Decoder.drain_of_none hwait]
      rfl
  | cons chunk chunks ih =>
      rw [List.flatten_cons, ← List.append_assoc] at hreg ⊢
      rw [Decoder.drain_append] at hreg ⊢
      -- the frames of this chunk come first, and its last one is not before another's
      have hfirst : MsgCenter.taken (buff ++ chunk) = frameDecoder.drain (buff ++ chunk) := by
        apply Decoder.drainUntil_eq_drain_iff.mpr
        intro f hf
        have hmem : f ∈ ((frameDecoder.drain (buff ++ chunk)).1 ++ (frameDecoder.drain
            ((frameDecoder.drain (buff ++ chunk)).2 ++ chunks.flatten)).1).dropLast :=
          mem_dropLast_append _ hf
        rw [hreg f hmem]
        rfl
      have hwait' : frameNext (frameDecoder.drain (buff ++ chunk)).2 = none :=
        Decoder.next_drain_snd (d := frameDecoder) _
      have hrest := ih hwait' fun f hf => hreg f (by
        rw [List.dropLast_append_of_ne_nil (List.ne_nil_of_mem (List.mem_of_mem_dropLast hf))]
        exact List.mem_append_right _ hf)
      simp only [cutTaken, hfirst, hrest]

/-- One byte completes at most one frame, and is the last byte of it. -/
theorem frameNext_concat {xs : List UInt8} {x : UInt8} {f : Frame} {r : List UInt8}
    (hwait : frameNext xs = none) (h : frameNext (xs ++ [x]) = some (f, r)) : r = [] := by
  obtain ⟨hf, hcat⟩ := frameNext_eq_some.mp h
  rcases List.eq_nil_or_concat r with rfl | ⟨r', y, rfl⟩
  · rfl
  · -- the byte is behind the frame, so the frame was there before
    rw [List.concat_eq_append, ← List.append_assoc] at hcat
    obtain ⟨hxs, _⟩ := List.append_inj' hcat rfl
    rw [hxs, frameNext_encode hf] at hwait
    cases hwait

/-- Byte by byte nothing is missed. -/
theorem cutTaken_bytes {buff xs : List UInt8} (hwait : frameNext buff = none) :
    cutTaken buff (xs.map fun x => [x]) = frameDecoder.drain (buff ++ xs) := by
  induction xs generalizing buff with
  | nil =>
      rw [List.append_nil, Decoder.drain_of_none hwait]
      rfl
  | cons x xs ih =>
      have htaken : MsgCenter.taken (buff ++ [x]) = frameDecoder.drain (buff ++ [x]) := by
        apply Decoder.drainUntil_eq_drain_iff.mpr
        intro f hf
        cases hnext : frameNext (buff ++ [x]) with
        | none =>
            rw [Decoder.drain_of_none hnext] at hf
            exact absurd hf List.not_mem_nil
        | some p =>
            -- one frame, and it is the last one
            obtain ⟨g, r⟩ := p
            rw [Decoder.drain_of_some hnext, frameNext_concat hwait hnext,
              Decoder.drain_of_none rfl] at hf
            exact absurd hf List.not_mem_nil
      have hrest := ih (Decoder.next_drain_snd (d := frameDecoder) (buff ++ [x]))
      have hcat : buff ++ x :: xs = buff ++ [x] ++ xs := by
        rw [List.append_assoc]
        rfl
      rw [hcat, Decoder.drain_append]
      simp only [List.map_cons, cutTaken, htaken, hrest]

/-- **Cutting a stream**: any two ways of cutting it into reads deliver the same
messages and leave the same bytes iff no frame with an unregistered id is
followed by another complete frame. -/
theorem delivered_cut_iff (rt : Runtime) (user : Ptr) (sock : SocketNode) (stream : List UInt8) :
    (∀ (mc mc' : MsgCenter) (cut cut' : List (List UInt8)),
        cut.flatten = stream ∧ (∀ chunk ∈ cut, chunk ≠ []) →
        cut'.flatten = stream ∧ (∀ chunk ∈ cut', chunk ≠ []) →
        delivered rt user mc { sock with rdBuff := .new } cut =
          delivered rt user mc' { sock with rdBuff := .new } cut') ↔
      ∀ f ∈ (frameDecoder.drain stream).1.dropLast, MsgCenter.registered f.msgId = true := by
  have hnew : RingBuffPtr.new.toList = [] := rfl
  constructor
  · intro h
    -- all at once against byte by byte
    by_cases hne : stream = []
    · rw [hne]
      exact fun f hf => absurd hf List.not_mem_nil
    · have hcuts := h .new .new [stream] (stream.map fun x => [x])
        ⟨List.flatten_singleton, by simpa using hne⟩
        ⟨by simp [← List.flatMap_def], by simp⟩
      simp only [delivered_eq, hnew] at hcuts
      have hleft := (Prod.mk.inj hcuts).2
      rw [cutTaken_bytes rfl, List.nil_append] at hleft
      have htaken := Decoder.drainUntil_eq_drain_iff.mp (Decoder.drainUntil_snd_eq_iff.mp hleft)
      intro f hf
      simpa using htaken f hf
  · rintro hreg mc mc' cut cut' ⟨hcut, _⟩ ⟨hcut', _⟩
    simp only [delivered_eq, hnew]
    rw [cutTaken_eq_drain rfl (by rwa [List.nil_append, hcut]),
      cutTaken_eq_drain rfl (by rwa [List.nil_append, hcut']), hcut, hcut']

/-- A frame with id 77 and one with id 7 behind it: read at once, the second one
is not delivered. -/
theorem not_delivered_cut :
    ¬ ∀ (rt : Runtime) (user : Ptr) (mc : MsgCenter) (sock : SocketNode)
      (stream : List UInt8) (cut cut' : List (List UInt8)),
      cut.flatten = stream ∧ (∀ chunk ∈ cut, chunk ≠ []) →
      cut'.flatten = stream ∧ (∀ chunk ∈ cut', chunk ≠ []) →
      delivered rt user mc { sock with rdBuff := .new } cut =
        delivered rt user mc { sock with rdBuff := .new } cut' := by
  intro h
  let unknown : List UInt8 := [2, 0, 0, 0, 77, 0, 0, 0, 0, 0, 0, 0, 8, 1]
  let online : List UInt8 := [2, 0, 0, 0, 7, 0, 0, 0, 0, 0, 0, 0, 8, 1]
  have hcuts := h { Protobuf.oneSmallInt with beyond := fun _ => [] } 0 .new {} (unknown ++ online)
    [unknown ++ online] [unknown, online] (by decide) (by decide)
  simp only [delivered_eq] at hcuts
  exact absurd hcuts (by decide)

end Rubo.Msgs
