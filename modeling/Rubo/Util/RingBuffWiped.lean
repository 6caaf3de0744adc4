import Rubo.Util.RingBuffDiscipline

/-!
# RingBuff: What Has Been Consumed Is Wiped

`del_data` zeroes the cells it steps over and `append_size` starts from a zeroed
block. `Wiped` says what this adds up to: every cell outside the cyclic range
from `_tail` to `_head` is zero. So the block holds the stored bytes and zeros
(`Wiped.rotate_buff`), and nothing of what was stored before.
-/

namespace Rubo.Util.RingBuff

open Rubo.Foundation Rubo.Comm Memory

/-- Cell `i` lies in the cyclic range from `_tail` up to `_head`. -/
def Live (rb : RingBuff) (i : ℕ) : Prop :=
  if rb.tail ≤ rb.head then rb.tail ≤ i ∧ i < rb.head else i < rb.head ∨ rb.tail ≤ i

instance (rb : RingBuff) : DecidablePred rb.Live := fun i =>
  inferInstanceAs (Decidable
    (if rb.tail ≤ rb.head then rb.tail ≤ i ∧ i < rb.head else i < rb.head ∨ rb.tail ≤ i))

/-- The cells outside the range are zero. -/
def Wiped (rb : RingBuff) : Prop := ∀ i < rb.len, ¬ rb.Live i → rb.buff[i]? = some 0

instance (rb : RingBuff) : Decidable rb.Wiped :=
  inferInstanceAs (Decidable (∀ i < rb.len, ¬ rb.Live i → rb.buff[i]? = some 0))

variable {rb : RingBuff}

/-- The range holds the stored bytes. -/
theorem live_iff_holds (h : rb.Inv) {i : ℕ} (hi : i < rb.len) : rb.Live i ↔ rb.Holds i := by
  have hh := h.head_lt
  have ht := h.tail_lt
  constructor
  · intro hlive
    unfold Live at hlive
    -- how far the cell is behind `_tail`
    by_cases hbehind : rb.tail ≤ i
    · refine ⟨i - rb.tail, ?_, by rw [Nat.add_sub_cancel' hbehind, Nat.mod_eq_of_lt hi]⟩
      by_cases hht : rb.tail ≤ rb.head
      · rw [if_pos hht] at hlive
        rw [dataSize_of_le hh hht]
        omega
      · rw [dataSize_of_lt ht (Nat.lt_of_not_le hht)]
        omega
    · have hht : ¬ rb.tail ≤ rb.head := by
        intro hht
        rw [if_pos hht] at hlive
        exact hbehind hlive.1
      rw [if_neg hht] at hlive
      refine ⟨rb.len - rb.tail + i, ?_, ?_⟩
      · rw [dataSize_of_lt ht (Nat.lt_of_not_le hht)]
        omega
      · rw [mod_of_lt_two_mul (by omega), if_neg (by omega)]
        omega
  · intro hheld
    have hbetween := Checked.Holds.between h hheld
    unfold Live
    split_ifs at hbetween ⊢
    · exact hbetween
    · exact hbetween.1

theorem wiped_new : Wiped new := by decide

/-! ## The block -/

/-- **What is in the block**: from `_tail` on the stored bytes, then zeros. -/
theorem Wiped.rotate_buff (hw : rb.Wiped) (h : rb.Inv) :
    rb.buff.rotate rb.tail = rb.contents ++ List.replicate (rb.len - rb.dataSize) 0 := by
  have hl := h.length_buff
  have hh := h.head_lt
  have ht := h.tail_lt
  have hm := h.margin
  apply List.ext_getElem?
  intro i
  by_cases hi : i < rb.len
  · rw [List.getElem?_rotate (by omega), hl, List.getElem?_append, length_contents h]
    by_cases hstored : i < rb.dataSize
    · rw [if_pos hstored, contents, List.getElem?_take_of_lt hstored,
        List.getElem?_rotate (by omega), hl]
    · rw [if_neg hstored, List.getElem?_replicate, if_pos (by omega)]
      apply hw _ (Nat.mod_lt _ (by omega))
      -- the cell is behind the last stored byte
      rw [mod_of_lt_two_mul (by omega)]
      unfold Live
      by_cases hht : rb.tail ≤ rb.head
      · rw [dataSize_of_le hh hht] at hstored
        rw [if_pos hht]
        split_ifs <;> omega
      · rw [dataSize_of_lt ht (Nat.lt_of_not_le hht)] at hstored
        rw [if_neg hht]
        split_ifs <;> omega
  · rw [List.getElem?_eq_none (by rw [List.length_rotate]; omega), List.getElem?_eq_none]
    rw [List.length_append, List.length_replicate, length_contents h]
    omega

/-! ## The operations -/

/-- Growing leaves no cell as it was: what is not copied is zero. -/
theorem wiped_appendSize (h : rb.Inv) {rb' : RingBuff} (hgrow : rb.appendSize = .ok rb') :
    rb'.Wiped := by
  obtain ⟨buff, hcall, -, -, hcells⟩ := appendSize_cells h rfl
  obtain rfl := Except.ok.inj (hcall.symm.trans hgrow)
  intro i hi hlive
  simp only [Live, Nat.zero_le, if_true, true_and] at hlive
  exact (hcells i hi).trans (if_neg hlive)

theorem wiped_growLoop (h : rb.Inv) (hw : rb.Wiped) {fuel n : ℕ} {rb' : RingBuff}
    (hgrow : growLoop fuel rb n = .ok rb') : rb'.Wiped := by
  induction fuel generalizing rb with
  | zero =>
      unfold growLoop at hgrow
      split_ifs at hgrow
      obtain rfl := Except.ok.inj hgrow
      exact hw
  | succ fuel ih =>
      unfold growLoop at hgrow
      obtain ⟨rb₁, hrb₁, hinv₁, _⟩ := appendSize_ok h
      split_ifs at hgrow
      · simp only [hrb₁] at hgrow
        exact ih hinv₁ (wiped_appendSize h hrb₁) hgrow
      · obtain rfl := Except.ok.inj hgrow
        exact hw

/-- The cells written are live afterwards. -/
theorem wiped_addData (h : rb.Inv) (hw : rb.Wiped) {data : List UInt8} {ret : Bool}
    {rb' : RingBuff} (hadd : rb.addData data = .ok (ret, rb')) : rb'.Wiped := by
  obtain ⟨rb₁, buff, hgrow, h₁, -, hroom, hcall, -, hcells⟩ := addData_cells h data
  obtain ⟨-, rfl⟩ := Prod.mk.inj (Except.ok.inj (hcall.symm.trans hadd))
  have hw₁ := wiped_growLoop h hw hgrow
  have hh := h₁.head_lt
  have ht := h₁.tail_lt
  have hsum := leftSize_add_dataSize h₁
  intro i hi hlive
  have hi' : i < rb₁.len := hi
  simp only [Live, mod_of_lt_two_mul (show rb₁.head + data.length < 2 * rb₁.len by omega)] at hlive
  unfold leftSize at hroom
  -- so nothing was written there, and nothing was stored there before
  have hcell : buff[i]? = rb₁.buff[i]? := by
    rw [hcells i hi]
    split_ifs at hlive hroom ⊢ <;> first | rfl | omega
  refine hcell.trans (hw₁ i hi fun hold => ?_)
  unfold Live at hold
  split_ifs at hlive hroom hold <;> omega

/-- Cells that are no longer live have been zeroed, or were zero before. -/
theorem Wiped.of_removed (hw : rb.Wiped) {n t : ℕ} {buff : List UInt8}
    (hcells : ∀ i < rb.len, buff[i]? =
      if rb.tail ≤ i ∧ i < rb.tail + n ∨ i + rb.len < rb.tail + n then some 0 else rb.buff[i]?)
    (hremoved : ∀ i < rb.len, rb.Live i → ¬ Live { rb with buff := buff, tail := t } i →
      rb.tail ≤ i ∧ i < rb.tail + n ∨ i + rb.len < rb.tail + n) :
    Wiped { rb with buff := buff, tail := t } := by
  intro i hi hlive
  show buff[i]? = some 0
  rw [hcells i hi]
  split_ifs with hzeroed
  · rfl
  · exact hw i hi fun hold => hzeroed (hremoved i hi hold hlive)

theorem wiped_delData (h : rb.Inv) (hw : rb.Wiped) {n : ℕ} {ret : Bool} {rb' : RingBuff}
    (hdel : rb.delData n = .ok (ret, rb')) : rb'.Wiped := by
  have hh := h.head_lt
  have ht := h.tail_lt
  by_cases hn : rb.dataSize < n ∨ n = 0
  · rw [delData, if_pos hn] at hdel
    obtain ⟨-, rfl⟩ := Prod.mk.inj (Except.ok.inj hdel)
    exact hw
  · obtain ⟨buff, -, hcells, hplain, -⟩ := Checked.delData_spec h hn
    obtain ⟨-, rfl⟩ := Prod.mk.inj (Except.ok.inj (hplain.symm.trans hdel))
    refine hw.of_removed hcells fun i hi hold hlive => ?_
    have hm := h.margin
    simp only [Live, mod_of_lt_two_mul (show rb.tail + n < 2 * rb.len by omega)] at hold hlive
    by_cases hht : rb.tail ≤ rb.head
    · have hd := dataSize_of_le hh hht
      split_ifs at hold hlive <;> omega
    · have hd := dataSize_of_lt ht (Nat.lt_of_not_le hht)
      split_ifs at hold hlive <;> omega

theorem wiped_call (h : rb.Inv) (hw : rb.Wiped) {c : Call} {a : Answer} {rb' : RingBuff}
    (hcall : rb.call c = .ok (a, rb')) : rb'.Wiped := by
  cases c with
  | addData data =>
      obtain ⟨rb₁, hadd, -⟩ := addData_ok h data
      simp only [call, hadd, bind, Except.bind] at hcall
      obtain ⟨-, rfl⟩ := Prod.mk.inj (Except.ok.inj hcall)
      exact wiped_addData h hw hadd
  | delData len =>
      obtain ⟨rb₁, hdel, -⟩ := delData_ok h len
      simp only [call, hdel, bind, Except.bind] at hcall
      obtain ⟨-, rfl⟩ := Prod.mk.inj (Except.ok.inj hcall)
      exact wiped_delData h hw hdel
  | readBegin len =>
      simp only [call, readBegin_ok h, bind, Except.bind] at hcall
      obtain ⟨-, rfl⟩ := Prod.mk.inj (Except.ok.inj hcall)
      exact hw
  | readDelBegin len =>
      unfold call readDelBegin at hcall
      by_cases hn : rb.dataSize < len
      · simp only [if_pos hn] at hcall
        obtain ⟨-, rfl⟩ := Prod.mk.inj (Except.ok.inj hcall)
        exact hw
      · obtain ⟨rb₁, hdel, -⟩ := delData_ok h len
        simp only [if_neg hn, copyBegin_ok h (Nat.le_of_not_lt hn), hdel, bind, Except.bind]
          at hcall
        obtain ⟨-, rfl⟩ := Prod.mk.inj (Except.ok.inj hcall)
        exact wiped_delData h hw hdel
  | dataSize =>
      obtain ⟨-, rfl⟩ := Prod.mk.inj (Except.ok.inj hcall)
      exact hw

/-! ## In 64 bits -/

namespace Checked

/-- Where `_tail + len` wraps, `_tail` comes to lie below where it should, among cells
that have been zeroed. -/
theorem wiped_wrapped (h : Bounds rb) (hw : rb.Wiped) {n : ℕ} (hn : n ≤ rb.dataSize)
    (hsum : ¬ rb.tail + n < 2 ^ 64) {buff : List UInt8}
    (hcells : ∀ i < rb.len, buff[i]? =
      if rb.tail ≤ i ∧ i < rb.tail + n ∨ i + rb.len < rb.tail + n then some 0 else rb.buff[i]?) :
    Wiped { rb with buff := buff, tail := SizeT.add rb.tail n % rb.len } := by
  have hh := h.head_lt
  have ht := h.tail_lt
  have hle := h.len_le
  obtain ⟨htail, hwrap⟩ := tail_wrapped h hn hsum
  have hd := dataSize_of_lt ht hwrap
  refine hw.of_removed hcells fun i hi hold hlive => ?_
  simp only [Live, htail] at hold hlive
  split_ifs at hold hlive <;> omega

theorem wiped_delData (h : Bounds rb) (hw : rb.Wiped) {n : ℕ} {ret : Bool} {rb' : RingBuff}
    (hdel : delData rb n = .ok (ret, rb')) : rb'.Wiped := by
  by_cases hn : rb.dataSize < n ∨ n = 0
  · simp only [delData, dataSize_eq h.toInv, bind, Except.bind, if_pos hn] at hdel
    obtain ⟨-, rfl⟩ := Prod.mk.inj (Except.ok.inj hdel)
    exact hw
  · obtain ⟨buff, -, hcells, hplain, hcheck⟩ := delData_spec h.toInv hn
    obtain ⟨-, rfl⟩ := Prod.mk.inj (Except.ok.inj (hcheck.symm.trans hdel))
    by_cases hsum : rb.tail + n < 2 ^ 64
    · rw [SizeT.add_eq hsum]
      exact RingBuff.wiped_delData h.toInv hw hplain
    · exact wiped_wrapped h hw (by omega) hsum hcells

theorem wiped_call (h : Bounds rb) (hw : rb.Wiped) {c : Call} (hfits : Fits rb c) {a : Answer}
    {rb' : RingBuff} (hcall : call rb c = .ok (a, rb')) : rb'.Wiped := by
  cases c with
  | addData data =>
      obtain ⟨rb₁, hadd, -⟩ := RingBuff.addData_ok h.toInv data
      simp only [call, addData_eq h hfits, hadd, checked_ok, bind, Except.bind] at hcall
      obtain ⟨-, rfl⟩ := Prod.mk.inj (Except.ok.inj hcall)
      exact wiped_addData h.toInv hw hadd
  | delData len =>
      obtain ⟨ret, rb₁, hdel, -⟩ := delData_ok h len
      simp only [call, hdel, bind, Except.bind] at hcall
      obtain ⟨-, rfl⟩ := Prod.mk.inj (Except.ok.inj hcall)
      exact wiped_delData h hw hdel
  | readBegin len =>
      simp only [call, readBegin_eq h.toInv, RingBuff.readBegin_ok h.toInv, checked_ok, bind,
        Except.bind] at hcall
      obtain ⟨-, rfl⟩ := Prod.mk.inj (Except.ok.inj hcall)
      exact hw
  | readDelBegin len =>
      unfold call readDelBegin at hcall
      simp only [dataSize_eq h.toInv, bind, Except.bind] at hcall
      by_cases hn : rb.dataSize < len
      · simp only [if_pos hn] at hcall
        obtain ⟨-, rfl⟩ := Prod.mk.inj (Except.ok.inj hcall)
        exact hw
      · obtain ⟨ret, rb₁, hdel, -⟩ := delData_ok h len
        have hcopy := copyBegin_eq h.toInv (Nat.le_of_not_lt hn)
        rw [RingBuff.copyBegin_ok h.toInv (Nat.le_of_not_lt hn), checked_ok] at hcopy
        simp only [if_neg hn, hcopy, hdel] at hcall
        obtain ⟨-, rfl⟩ := Prod.mk.inj (Except.ok.inj hcall)
        exact wiped_delData h hw hdel
  | dataSize =>
      simp only [call, dataSize_eq h.toInv, bind, Except.bind] at hcall
      obtain ⟨-, rfl⟩ := Prod.mk.inj (Except.ok.inj hcall)
      exact hw

theorem Reachable.wiped (h : Reachable rb) : rb.Wiped := by
  induction h with
  | new => exact wiped_new
  | call hreach hfits hcall ih => exact wiped_call hreach.bounds ih hfits hcall

end Checked

/-- **Consumed bytes are wiped**: whatever calls are made on a new ring, every cell
outside the range from `_tail` to `_head` is zero in the end, and the block holds
the stored bytes and zeros only. The same in 64 bits. -/
theorem consumed_wiped :
    (∀ calls : List Call, ∃ answers rb, runE call new calls = .ok (answers, rb) ∧ rb.Wiped ∧
      rb.buff.rotate rb.tail = rb.contents ++ List.replicate (rb.len - rb.dataSize) 0) ∧
    ∀ rb, Checked.Reachable rb → rb.Wiped ∧
      rb.buff.rotate rb.tail = rb.contents ++ List.replicate (rb.len - rb.dataSize) 0 := by
  constructor
  · intro calls
    have hstep : ∀ (rb : RingBuff) (q : List UInt8) (c : Call), rb.Represents q ∧ rb.Wiped →
        ∃ rb', rb.call c = .ok ((Queue.call q c).1, rb') ∧
          rb'.Represents (Queue.call q c).2 ∧ rb'.Wiped := by
      rintro rb q c ⟨hrep, hw⟩
      obtain ⟨rb', hcall, hrep'⟩ := call_refines hrep c
      exact ⟨rb', hcall, hrep', wiped_call hrep.inv hw hcall⟩
    obtain ⟨rb, hrun, hrep, hw⟩ := runE_refines hstep ⟨represents_new, wiped_new⟩ calls
    exact ⟨_, rb, hrun, hw, hw.rotate_buff hrep.inv⟩
  · intro rb hreach
    exact ⟨hreach.wiped, hreach.wiped.rotate_buff hreach.bounds.toInv⟩

/-- Three bytes are stored and the first two read: the block has grown, and of all that
has been in it only the third byte is left. -/
theorem consumed_wiped_password :
    Wiped ⟨[0, 0, 3, 0, 0, 0, 0, 0], 8, 3, 2⟩ ∧
      [0, 0, 3, 0, 0, 0, 0, 0].rotate 2 = [(3 : UInt8)] ++ List.replicate 7 0 :=
  consumed_wiped.2 ⟨[0, 0, 3, 0, 0, 0, 0, 0], 8, 3, 2⟩
    (.call (c := .readDelBegin 2) (.call (c := .addData [1, 2, 3]) .new (by decide) rfl)
      (by decide) rfl)

end Rubo.Util.RingBuff
