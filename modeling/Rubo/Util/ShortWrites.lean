import Rubo.Util.StreamOrder

/-!
# Short Writes

`send` hands its data to `::write` in chunks of at most `WRITE_DATA_MAX` bytes.
Whatever the kernel takes of a chunk, the next chunk starts behind the whole of
it, so the bytes of a chunk the kernel did not take are neither sent nor queued.

- `sendLossless_iff`: no byte is lost exactly when each call takes its whole chunk
  (or one fails, and `send` reports that);
- `not_sendLossless_short`: the kernel takes one byte of three.
-/

namespace Rubo.Util.SocketOp

/-! ## The calls of a `send` -/

/-- A call of `::write`: how many bytes it was asked to take, and its answer. -/
abbrev WriteCall := ℕ × WriteRes

/-- The calls made to send `left` bytes: after an answer that is no `EINTR` the
chunk counts as sent. -/
def writeCalls : ℕ → List WriteRes → List WriteCall
  | left, [] => if left = 0 then [] else [(min left writeDataMax, .eagain)]
  | left, res :: writes =>
    if left = 0 then []
    else
      let oneLen := min left writeDataMax
      (oneLen, res) ::
        match res with
        | .took n => if n = 0 then [] else writeCalls (left - oneLen) writes
        | .eintr => writeCalls left writes
        | .eagain | .error => []

/-- The call has failed. -/
def Fails (call : WriteCall) : Prop := call.2 = .error ∨ call.2 = .took 0

/-- The kernel has not taken a part of the chunk only. -/
def TakesAll (call : WriteCall) : Prop :=
  match call.2 with
  | .took n => call.1 ≤ n
  | _ => True

instance : DecidablePred Fails := fun _ => inferInstanceAs (Decidable (_ ∨ _))

instance : DecidablePred TakesAll
  | (oneLen, .took n) => inferInstanceAs (Decidable (oneLen ≤ n))
  | (_, .eintr) | (_, .eagain) | (_, .error) => .isTrue trivial

/-- What the kernel has taken and what is queued is the data, unless an error is
reported. -/
def SendLossless (sock : SocketNode) (data : List UInt8) (writes : List WriteRes) : Prop :=
  (send sock data writes).1 ≠ FdEvent.error →
    (send sock data writes).2.1.accepted ++ (send sock data writes).2.1.wtBuff.toList =
      sock.accepted ++ data

/-! ## The loop -/

variable {data : List UInt8} {sock : SocketNode} {wtLen : ℕ} {writes : List WriteRes}

theorem oneLen_eq_min {left : ℕ} :
    (if left > writeDataMax then writeDataMax else left) = min left writeDataMax := by
  split_ifs <;> omega

/-- One pass of the loop over a chunk of which the kernel takes something. -/
theorem sendLoop_took_some {n : ℕ} (hlt : wtLen < data.length) (hn : n ≠ 0) :
    sendLoop data sock wtLen (.took n :: writes) =
      sendLoop data { sock with accepted := sock.accepted ++
          (data.drop wtLen).take (min n (min (data.length - wtLen) writeDataMax)) }
        (wtLen + min (data.length - wtLen) writeDataMax) writes := by
  have hpos : min n (min (data.length - wtLen) writeDataMax) > 0 := by
    unfold writeDataMax
    omega
  simp only [sendLoop, if_pos hlt, oneLen_eq_min, if_pos hpos]

/-- `send` reports an error exactly when a call has failed. -/
theorem sendLoop_eq_error_iff :
    (sendLoop data sock wtLen writes).1 = FdEvent.error ↔
      ∃ call ∈ writeCalls (data.length - wtLen) writes, Fails call := by
  induction writes generalizing sock wtLen with
  | nil =>
      rw [sendLoop, writeCalls]
      split_ifs <;> simp [Fails, FdEvent.error, FdEvent.write, FdEvent.none]
  | cons res writes ih =>
      by_cases hlt : wtLen < data.length
      · have hleft : data.length - wtLen ≠ 0 := Nat.sub_ne_zero_of_lt hlt
        rw [writeCalls, if_neg hleft]
        cases res with
        | took n =>
            by_cases hn : n = 0
            · simp [sendLoop, hlt, hn, Fails]
            · rw [sendLoop_took_some hlt hn, ih, Nat.sub_add_eq]
              simp [hn, Fails]
        | eintr =>
            simp only [sendLoop, hlt, if_true, ih]
            simp [Fails]
        | eagain => simp [sendLoop, hlt, Fails, FdEvent.error, FdEvent.write]
        | error => simp [sendLoop, hlt, Fails]
      · -- everything had been sent before
        have hleft : data.length - wtLen = 0 := Nat.sub_eq_zero_of_le (Nat.le_of_not_lt hlt)
        simp [sendLoop, hlt, writeCalls, hleft, FdEvent.error, FdEvent.none]

/-- A `send` never makes more bytes than it was given. -/
theorem length_sendLoop_le :
    (sendLoop data sock wtLen writes).2.1.accepted.length +
        (sendLoop data sock wtLen writes).2.1.wtBuff.toList.length ≤
      sock.accepted.length + sock.wtBuff.toList.length + (data.length - wtLen) := by
  induction writes generalizing sock wtLen with
  | nil =>
      rw [sendLoop]
      split_ifs
      · simp [RingBuffPtr.toList_addData, Nat.add_assoc]
      · exact Nat.le_add_right ..
  | cons res writes ih =>
      by_cases hlt : wtLen < data.length
      · cases res with
        | took n =>
            by_cases hn : n = 0
            · simp only [sendLoop, hlt, hn, if_true, Nat.zero_min, gt_iff_lt, Nat.lt_irrefl,
                if_false]
              exact Nat.le_add_right ..
            · rw [sendLoop_took_some hlt hn]
              refine ih.trans ?_
              simp only [List.length_append, List.length_take, List.length_drop]
              omega
        | eintr =>
            simp only [sendLoop, hlt, if_true]
            exact ih
        | eagain =>
            simp [sendLoop, hlt, RingBuffPtr.toList_addData, Nat.add_assoc]
        | error =>
            simp only [sendLoop, hlt, if_true]
            exact Nat.le_add_right ..
      · simp only [sendLoop, hlt, if_false]
        exact Nat.le_add_right ..

/-- The bytes behind `wtLen` are sent or queued exactly when each chunk is taken
whole. -/
theorem sendLoop_lossless_iff (hempty : sock.wtBuff.toList = [])
    (hret : (sendLoop data sock wtLen writes).1 ≠ FdEvent.error) :
    (sendLoop data sock wtLen writes).2.1.accepted ++
          (sendLoop data sock wtLen writes).2.1.wtBuff.toList =
        sock.accepted ++ data.drop wtLen ↔
      ∀ call ∈ writeCalls (data.length - wtLen) writes, TakesAll call := by
  induction writes generalizing sock wtLen with
  | nil =>
      rw [sendLoop, writeCalls]
      by_cases hlt : wtLen < data.length
      · -- no answer left means `EAGAIN`: the rest is queued
        simp [hlt, RingBuffPtr.toList_addData, hempty, TakesAll, Nat.sub_ne_zero_of_lt hlt]
      · simp [hlt, hempty, Nat.le_of_not_lt hlt, Nat.sub_eq_zero_of_le]
  | cons res writes ih =>
      by_cases hlt : wtLen < data.length
      · have hleft : data.length - wtLen ≠ 0 := Nat.sub_ne_zero_of_lt hlt
        rw [writeCalls, if_neg hleft]
        cases res with
        | took n =>
            have hn : n ≠ 0 := by
              rintro rfl
              simp [sendLoop, hlt] at hret
            rw [sendLoop_took_some hlt hn] at hret ⊢
            have hrest := Nat.sub_add_eq data.length wtLen (min (data.length - wtLen) writeDataMax)
            generalize hsock : ({ sock with
                accepted := sock.accepted ++
                  (data.drop wtLen).take (min n (min (data.length - wtLen) writeDataMax)) } :
              SocketNode) = sock' at hret ⊢
            have hempty' : sock'.wtBuff.toList = [] := by
              rw [← hsock]
              exact hempty
            have hacc : sock'.accepted = sock.accepted ++
                (data.drop wtLen).take (min n (min (data.length - wtLen) writeDataMax)) := by
              rw [← hsock]
            by_cases htook : min (data.length - wtLen) writeDataMax ≤ n
            · -- the whole chunk: the loop goes on where the kernel stopped
              have hsplit : sock'.accepted ++
                  data.drop (wtLen + min (data.length - wtLen) writeDataMax) =
                  sock.accepted ++ data.drop wtLen := by
                rw [hacc, Nat.min_eq_right htook, List.append_assoc, ← List.drop_drop,
                  List.take_append_drop]
              rw [← hsplit, ih hempty' hret, hrest]
              simp [hn, TakesAll, htook]
            · -- the bytes between are lost, so what is left is too short
              have hle := @length_sendLoop_le data sock'
                (wtLen + min (data.length - wtLen) writeDataMax) writes
              simp only [hempty', hacc, List.length_append, List.length_take, List.length_drop,
                List.length_nil] at hle
              refine iff_of_false ?_ ?_
              · intro heq
                have hlen := congrArg List.length heq
                simp only [List.length_append, List.length_drop] at hlen
                omega
              · intro hall
                exact htook (hall _ (List.mem_cons_self ..))
        | eintr =>
            simp only [sendLoop, hlt, if_true] at hret ⊢
            rw [ih hempty hret]
            simp [TakesAll]
        | eagain => simp [sendLoop, hlt, RingBuffPtr.toList_addData, hempty, TakesAll]
        | error => simp [sendLoop, hlt] at hret
      · have hleft : data.length - wtLen = 0 := Nat.sub_eq_zero_of_le (Nat.le_of_not_lt hlt)
        simp [sendLoop, hlt, writeCalls, hempty, Nat.le_of_not_lt hlt, hleft]

/-! ## What the kernel has taken -/

/-- The call was interrupted, or the kernel has taken the whole chunk. -/
def Completes (call : WriteCall) : Prop :=
  match call.2 with
  | .took n => call.1 ≤ n
  | .eintr => True
  | .eagain | .error => False

instance : DecidablePred Completes
  | (oneLen, .took n) => inferInstanceAs (Decidable (oneLen ≤ n))
  | (_, .eintr) => .isTrue trivial
  | (_, .eagain) | (_, .error) => .isFalse id

/-- The kernel takes at most the bytes behind `wtLen`, and all of them exactly when
each call completes. -/
theorem sendLoop_accepted :
    ∃ taken, (sendLoop data sock wtLen writes).2.1.accepted = sock.accepted ++ taken ∧
      taken.length ≤ data.length - wtLen ∧
      (taken = data.drop wtLen ↔
        ∀ call ∈ writeCalls (data.length - wtLen) writes, Completes call) := by
  induction writes generalizing sock wtLen with
  | nil =>
      rw [sendLoop, writeCalls]
      by_cases hlt : wtLen < data.length
      · have hrest : data.drop wtLen ≠ [] := mt List.drop_eq_nil_iff.mp (Nat.not_le_of_lt hlt)
        exact ⟨[], by simp [hlt], Nat.zero_le _,
          by simp [hrest.symm, Completes, Nat.sub_ne_zero_of_lt hlt]⟩
      · have hle := Nat.le_of_not_lt hlt
        exact ⟨[], by simp [hlt], Nat.zero_le _, by simp [hle, Nat.sub_eq_zero_of_le]⟩
  | cons res writes ih =>
      by_cases hlt : wtLen < data.length
      · have hrest : data.drop wtLen ≠ [] := mt List.drop_eq_nil_iff.mp (Nat.not_le_of_lt hlt)
        rw [writeCalls, if_neg (Nat.sub_ne_zero_of_lt hlt)]
        cases res with
        | took n =>
            by_cases hn : n = 0
            · -- nothing was taken, and a chunk is not empty
              have hpos : min (data.length - wtLen) writeDataMax ≠ 0 := by
                unfold writeDataMax
                omega
              exact ⟨[], by simp [sendLoop, hlt, hn], Nat.zero_le _,
                by simp [hn, Completes, hrest.symm, hpos]⟩
            · rw [sendLoop_took_some hlt hn]
              obtain ⟨taken, hacc, hlen, hall⟩ := @ih { sock with
                accepted := sock.accepted ++
                  (data.drop wtLen).take (min n (min (data.length - wtLen) writeDataMax)) }
                (wtLen + min (data.length - wtLen) writeDataMax)
              rw [Nat.sub_add_eq] at hlen hall
              refine ⟨_, by rw [hacc, List.append_assoc], ?_, ?_⟩
              · simp only [List.length_append, List.length_take, List.length_drop]
                omega
              · by_cases htook : min (data.length - wtLen) writeDataMax ≤ n
                · -- the whole chunk: the calls behind it decide
                  have hsplit := List.take_append_drop (min (data.length - wtLen) writeDataMax)
                    (data.drop wtLen)
                  rw [List.drop_drop] at hsplit
                  have hsame : (data.drop wtLen).take (min (data.length - wtLen) writeDataMax) ++
                      taken = data.drop wtLen ↔
                      taken = data.drop (wtLen + min (data.length - wtLen) writeDataMax) :=
                    ⟨fun h => List.append_cancel_left (h.trans hsplit.symm), fun h => h ▸ hsplit⟩
                  rw [Nat.min_eq_right htook, hsame, hall]
                  simp [hn, Completes, htook]
                · -- bytes in the middle are missing
                  refine iff_of_false ?_ ?_
                  · intro heq
                    have hlength := congrArg List.length heq
                    simp only [List.length_append, List.length_take, List.length_drop] at hlength
                    omega
                  · intro h
                    exact htook (h _ (List.mem_cons_self ..))
        | eintr =>
            obtain ⟨taken, hacc, hlen, hall⟩ := @ih sock wtLen
            simp only [sendLoop, hlt, if_true]
            exact ⟨taken, hacc, hlen, by simp [hall, Completes]⟩
        | eagain =>
            exact ⟨[], by simp [sendLoop, hlt], Nat.zero_le _, by simp [Completes, hrest.symm]⟩
        | error =>
            exact ⟨[], by simp [sendLoop, hlt], Nat.zero_le _, by simp [Completes, hrest.symm]⟩
      · have hle := Nat.le_of_not_lt hlt
        exact ⟨[], by simp [sendLoop, hlt], Nat.zero_le _,
          by simp [writeCalls, hle, Nat.sub_eq_zero_of_le]⟩

/-! ## The whole of `send` -/

/-- **No byte is lost exactly when no chunk is taken in part**: starting with
nothing pending, and whatever the kernel answers, what it has taken and what is
queued is the data, if and only if a call fails or each takes its whole chunk. -/
theorem sendLossless_iff (hcan : sock.canWt = true) (hempty : sock.wtBuff.toList = []) :
    SendLossless sock data writes ↔
      (∃ call ∈ writeCalls data.length writes, Fails call) ∨
        ∀ call ∈ writeCalls data.length writes, TakesAll call := by
  unfold SendLossless
  rw [send_of_canWt hcan]
  have herror := @sendLoop_eq_error_iff data sock 0 writes
  have hlossless := @sendLoop_lossless_iff data sock 0 writes hempty
  rw [Nat.sub_zero] at herror hlossless
  rw [List.drop_zero] at hlossless
  rw [← herror]
  constructor
  · intro h
    by_cases hret : (sendLoop data sock 0 writes).1 = FdEvent.error
    · exact .inl hret
    · exact .inr ((hlossless hret).mp (h hret))
  · rintro (hret | hall) hne
    · exact absurd hret hne
    · exact (hlossless hne).mpr hall

/-- Three bytes, of which two are refused after an interrupted call. -/
theorem sendLossless_blocked :
    SendLossless { sfd := 5 } [1, 2, 3] [.eintr, .eagain] ↔
      (∃ call ∈ writeCalls 3 [.eintr, .eagain], Fails call) ∨
        ∀ call ∈ writeCalls 3 [.eintr, .eagain], TakesAll call :=
  sendLossless_iff rfl rfl

/-- Bytes are lost in general: the kernel takes one of three, and `send` returns
without the other two. -/
theorem not_sendLossless_short :
    ¬ ∀ (sock : SocketNode) (data : List UInt8) (writes : List WriteRes), sock.canWt = true →
      sock.wtBuff.toList = [] → SendLossless sock data writes := by
  intro h
  have hlossless := h { sfd := 5 } [1, 2, 3] [.took 1] rfl rfl
  revert hlossless
  unfold SendLossless
  decide

end Rubo.Util.SocketOp
