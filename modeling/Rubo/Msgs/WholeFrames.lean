import Rubo.Msgs.Leftover

/-!
# `parse_package` Works on Whole Frames

The loop of `parse_package` has four exits, and between the checks and the next
pass it removes the header and the body of a frame in four ring-buffer calls
whose results it does not look at. Nevertheless:

- `Loop`: the runs of the loop that end, pass by pass, without a bound on the
  number of passes;
- `removals_of_some`: the four calls of a pass return `true`;
- `parsePackage_wholeFrames`: from every buffer there is such a run, it is what
  `parsePackage` computes, and what it takes off the buffer is whole frames.
-/

namespace Rubo.Msgs

open Rubo.Foundation Rubo.Util

namespace MsgCenter

/-! ## The loop without a bound -/

/-- A run of the loop of `parse_package` that ends: the read buffer at the start of
each pass, the messages appended, and the state in which the loop is left. -/
inductive Loop (rt : Runtime) (user : Ptr) (sfd : Int32) :
    MsgCenter → RingBuffPtr → List RingBuffPtr → List UserMsg → MsgCenter → RingBuffPtr → Prop where
  /-- The pass breaks. -/
  | stop {mc mc' : MsgCenter} {buff buff' : RingBuffPtr} :
      parseOne rt user sfd mc buff = (.stop, mc', buff') →
      Loop rt user sfd mc buff [buff] [] mc' buff'

  /-- The pass appends a message and the loop goes on. -/
  | item {mc mc₁ mc' : MsgCenter} {buff buff₁ buff' : RingBuffPtr} {pmsg : UserMsg}
      {passes : List RingBuffPtr} {ret : List UserMsg} :
      parseOne rt user sfd mc buff = (.item pmsg, mc₁, buff₁) →
      Loop rt user sfd mc₁ buff₁ passes ret mc' buff' →
      Loop rt user sfd mc buff (buff :: passes) (pmsg :: ret) mc' buff'

/-- The results of the calls by which a pass removes bytes: `del_data` for the
length, then `read_del_begin` for the id, the uid and the body. -/
def removals (buff : RingBuffPtr) : List Bool :=
  if buff.dataSize ≤ 4 then []
  else
    let (_, lenBytes) := buff.readBegin 4
    let pkgLen := LittleEndian.ofBytes lenBytes
    if pkgLen ≤ 1 ∨ pkgLen > 2048 then []
    else if buff.dataSize < pkgLen + 4 + 4 + 4 then []
    else
      let (ret₁, buff) := buff.delData 4
      let ((ret₂, _), buff) := buff.readDelBegin 4
      let ((ret₃, _), buff) := buff.readDelBegin 4
      let ((ret₄, _), _) := buff.readDelBegin pkgLen
      [ret₁, ret₂, ret₃, ret₄]

/-- What the loop takes off a read buffer: whole frames, of which only the last can
have an unregistered id, and a message for each of the others. -/
structure TakesWholeFrames (sfd : Int32) (buff buff' : RingBuffPtr) (ret : List UserMsg)
    (fs : List Frame) (last : Option Frame) : Prop where
  /-- The frames are taken from the front, and the rest is untouched. -/
  cut : buff.toList = (fs ++ last.toList).flatMap Frame.encode ++ buff'.toList
  wellFormed : ∀ f ∈ fs ++ last.toList, f.WellFormed
  registered : ∀ f ∈ fs, registered f.msgId = true
  unregistered : ∀ f ∈ last, MsgCenter.registered f.msgId = false
  headers : ret.map (fun m => (m.msgId, m.uid, m.sfd)) = fs.map fun f => (f.msgId, f.uid, sfd)

/-! ## One pass -/

variable {rt : Runtime} {user : Ptr} {sfd : Int32} {mc : MsgCenter} {buff : RingBuffPtr}

/-- A pass that does not take a frame removes nothing. -/
theorem removals_of_none (h : frameNext buff.toList = none) : removals buff = [] := by
  unfold removals
  simp only [RingBuffPtr.dataSize_eq]
  by_cases hshort : buff.toList.length ≤ 4
  · rw [if_pos hshort]
  · have hread : buff.readBegin 4 = (true, buff.toList.take 4) := by
      rw [RingBuffPtr.readBegin_eq, if_pos (Nat.le_of_not_le hshort)]
    rw [if_neg hshort, hread]
    simp only
    rw [frameNext, if_neg hshort] at h
    simp only at h
    split_ifs at h with hrange hall
    · exact if_pos hrange
    · rw [if_neg hrange]
      exact if_pos hall

/-- The four calls of a pass that takes a frame succeed, wherever the ring wraps. -/
theorem removals_of_some {f : Frame} {r : List UInt8} (h : frameNext buff.toList = some (f, r)) :
    removals buff = [true, true, true, true] := by
  obtain ⟨⟨h2, h2048⟩, hlist⟩ := frameNext_eq_some.mp h
  have hbody : 0 < f.body.length := Nat.lt_of_lt_of_le (by decide) h2
  have hlen : buff.toList.length = f.body.length + 12 + r.length := by
    rw [hlist, List.length_append, Frame.length_encode]
  rw [Frame.encode] at hlist
  simp only [List.append_assoc] at hlist
  have hread := RingBuffPtr.readBegin_append hlist (LittleEndian.length_toBytes ..)
  have hpkg : LittleEndian.ofBytes (LittleEndian.toBytes 4 f.body.length) = f.body.length :=
    LittleEndian.ofBytes_toBytes (by omega)
  -- each call finds what it asks for in front, as the one before it has left it
  have hdel : (buff.delData 4).1 = true := by
    rw [RingBuffPtr.delData_fst]
    exact decide_eq_true (by omega)
  have h₁ := RingBuffPtr.toList_delData_append hlist (LittleEndian.length_toBytes ..) (by decide)
  obtain ⟨hid, h₂⟩ := RingBuffPtr.readDelBegin_append h₁ (LittleEndian.length_ofInt32 _) (by decide)
  obtain ⟨huid, h₃⟩ :=
    RingBuffPtr.readDelBegin_append h₂ (LittleEndian.length_ofInt32 _) (by decide)
  have hdest := (RingBuffPtr.readDelBegin_append h₃ rfl hbody).1
  unfold removals
  simp only [RingBuffPtr.dataSize_eq, hread, hpkg]
  rw [if_neg (by omega), if_neg (by omega), if_neg (by omega)]
  simp only [hdel, hid, huid, hdest]

/-! ## The whole loop -/

/-- Before a wait nothing is taken. -/
theorem takesWholeFrames_nil : TakesWholeFrames sfd buff buff [] [] none where
  cut := rfl
  wellFormed := by simp
  registered := by simp
  unregistered := by simp
  headers := rfl

/-- A frame with an unregistered id is taken, and ends the loop. -/
theorem takesWholeFrames_unregistered {f : Frame} {buff' : RingBuffPtr} (hf : f.WellFormed)
    (hlist : buff.toList = f.encode ++ buff'.toList) (hid : MsgCenter.registered f.msgId = false) :
    TakesWholeFrames sfd buff buff' [] [] (some f) where
  cut := by simpa using hlist
  wellFormed := by simpa using hf
  registered := by simp
  unregistered := by simpa using hid
  headers := rfl

/-- A registered frame in front of the frames the rest of the loop takes. -/
theorem TakesWholeFrames.cons {buff₁ buff' : RingBuffPtr} {ret : List UserMsg} {fs : List Frame}
    {last : Option Frame} {f : Frame} {pmsg : UserMsg}
    (h : TakesWholeFrames sfd buff₁ buff' ret fs last) (hf : f.WellFormed)
    (hlist : buff.toList = f.encode ++ buff₁.toList) (hid : MsgCenter.registered f.msgId = true)
    (hmsg : (pmsg.msgId, pmsg.uid, pmsg.sfd) = (f.msgId, f.uid, sfd)) :
    TakesWholeFrames sfd buff buff' (pmsg :: ret) (f :: fs) last where
  cut := by
    rw [List.cons_append, List.flatMap_cons, List.append_assoc, ← h.cut]
    exact hlist
  wellFormed := by
    rw [List.cons_append]
    exact List.forall_mem_cons.mpr ⟨hf, h.wellFormed⟩
  registered := List.forall_mem_cons.mpr ⟨hid, h.registered⟩
  unregistered := h.unregistered
  headers := by rw [List.map_cons, List.map_cons, h.headers, hmsg]

variable (rt user sfd mc buff)

/-- **The loop ends**, having taken whole frames; its passes are at most as many as
the bytes of the buffer, and one. -/
theorem exists_loop :
    ∃ passes ret mc' buff' fs last, Loop rt user sfd mc buff passes ret mc' buff' ∧
      passes.length ≤ buff.toList.length + 1 ∧
      TakesWholeFrames sfd buff buff' ret fs last ∧
      ∀ b ∈ passes, ∀ res ∈ removals b, res = true := by
  -- on the length of what is stored: every pass that goes on shortens it
  induction hn : buff.toList.length using Nat.strong_induction_on generalizing mc buff with
  | _ n ih =>
      cases hnext : frameNext buff.toList with
      | none =>
          refine ⟨[buff], [], mc, buff, [], none, .stop (parseOne_of_none hnext), by simp,
            takesWholeFrames_nil, ?_⟩
          simp [removals_of_none hnext]
      | some p =>
          obtain ⟨f, r⟩ := p
          obtain ⟨hf, hlist⟩ := frameNext_eq_some.mp hnext
          obtain ⟨buff₁, rfl, htake⟩ := takePackage_encode rt user sfd mc hf hlist
          have hpass : parseOne rt user sfd mc buff = _ := (parseOne_of_some hnext).trans htake
          cases htype : typeOf f.msgId with
          | none =>
              have hid : registered f.msgId = false := by rw [registered, htype]; rfl
              rw [htype] at hpass
              refine ⟨[buff], [], _, buff₁, [], some f, .stop hpass, by simp,
                takesWholeFrames_unregistered hf hlist hid, ?_⟩
              simp [removals_of_some hnext]
          | some t =>
              have hshorter : buff₁.toList.length + 14 ≤ n := by
                have h2 := hf.1
                rw [← hn, hlist, List.length_append, Frame.length_encode]
                omega
              obtain ⟨passes, ret, mc', buff', fs, last, hloop, hpasses, htakes, hrets⟩ :=
                ih _ (by omega) (mc.afterFrame rt f) buff₁ rfl
              rw [htype] at hpass
              refine ⟨buff :: passes, _, mc', buff', f :: fs, last, .item hpass hloop, ?_,
                htakes.cons hf hlist (registered_iff.mpr ⟨t, htype⟩) rfl, ?_⟩
              · rw [List.length_cons]
                omega
              · refine List.forall_mem_cons.mpr ⟨?_, hrets⟩
                simp [removals_of_some hnext]

variable {rt user sfd mc buff}

/-- A run that ends is what the bounded loop computes, if the bound covers it. -/
theorem Loop.parseLoop_eq {mc' : MsgCenter} {buff' : RingBuffPtr} {passes : List RingBuffPtr}
    {ret : List UserMsg} (h : Loop rt user sfd mc buff passes ret mc' buff') {fuel : ℕ}
    (hfuel : passes.length ≤ fuel) :
    parseLoop rt user sfd fuel mc buff = (ret, mc', buff') := by
  induction h generalizing fuel with
  | stop hpass =>
      cases fuel with
      | zero => exact absurd hfuel (by simp)
      | succ fuel => rw [parseLoop, hpass]
  | item hpass _ ih =>
      cases fuel with
      | zero => exact absurd hfuel (by simp)
      | succ fuel =>
          have hrest := ih (Nat.le_of_succ_le_succ hfuel)
          simp only [parseLoop, hpass, hrest]

/-- **`parse_package` works on whole frames**: whatever bytes the read buffer holds
and wherever it wraps, the loop ends, `parsePackage` is its result, it has taken
whole frames, and each call by which it has removed bytes has returned `true`. -/
theorem parsePackage_wholeFrames (rt : Runtime) (mc : MsgCenter) (user : Ptr) (sock : SocketNode) :
    ∃ passes ret mc' buff' fs last,
      Loop rt user sock.sfd mc sock.rdBuff passes ret mc' buff' ∧
      parsePackage rt mc user sock = (ret, mc', { sock with rdBuff := buff' }) ∧
      TakesWholeFrames sock.sfd sock.rdBuff buff' ret fs last ∧
      ∀ buff ∈ passes, ∀ res ∈ removals buff, res = true := by
  obtain ⟨passes, ret, mc', buff', fs, last, hloop, hpasses, htakes, hrets⟩ :=
    exists_loop rt user sock.sfd mc sock.rdBuff
  refine ⟨passes, ret, mc', buff', fs, last, hloop, ?_, htakes, hrets⟩
  rw [parsePackage, hloop.parseLoop_eq (by simpa using hpasses)]

end MsgCenter

end Rubo.Msgs
