import Rubo.Util.RingBuff

/-!
# RingBuff: Memory Safety and the Queue View

One specification per operation: from a ring in its class invariant the
operation faults nowhere, keeps the invariant and acts on `contents` as the
corresponding operation of a byte queue.

The copies are in bounds by the invariant (`stdcopy_ok`, `fillZero_ok`), which
leaves an explicit new block: one lemma per operation says what is in each of
its cells, one case per placement of `_head` and `_tail`. The contents are then
compared cell by cell through `getElem?_contents`.
-/

namespace Rubo.Util.RingBuff

open Rubo.Foundation Rubo.Comm Memory

variable {rb : RingBuff}

/-- An index that wraps at most once. -/
theorem mod_of_lt_two_mul {x n : ℕ} (h : x < 2 * n) :
    x % n = if x < n then x else x - n := by
  split
  · exact Nat.mod_eq_of_lt ‹_›
  · rw [Nat.mod_eq_sub_mod (by omega), Nat.mod_eq_of_lt (by omega)]

/-! ## Reading -/

/-- The cells `copy_begin` reads are the first stored bytes. -/
theorem copyBegin_ok (h : rb.Inv) {n : ℕ} (hn : n ≤ rb.dataSize) :
    rb.copyBegin n = .ok (rb.contents.take n) := by
  have hl := h.length_buff
  have hh := h.head_lt
  have ht := h.tail_lt
  have hget := getElem?_contents h
  unfold copyBegin
  by_cases hht : rb.tail ≤ rb.head
  · have hd := dataSize_of_le hh hht
    rw [if_pos hht, load_ok (by omega)]
    congr 1
    apply List.ext_getElem?
    intro i
    simp only [List.getElem?_take, List.getElem?_drop, hget]
    split_ifs <;> first | rfl | omega
  · have hd := dataSize_of_lt ht (Nat.lt_of_not_le hht)
    rw [if_neg hht]
    by_cases hfit : n ≤ rb.len - rb.tail
    · simp only [ge_iff_le, hfit, if_true]
      rw [load_ok (by omega)]
      congr 1
      apply List.ext_getElem?
      intro i
      simp only [List.getElem?_take, List.getElem?_drop, hget]
      split_ifs <;> first | rfl | omega
    · simp only [ge_iff_le, hfit, if_false]
      rw [load_ok (by omega), load_ok (by omega)]
      simp only [bind, Except.bind, pure, Except.pure]
      congr 1
      apply List.ext_getElem?
      intro i
      have hlen : ((rb.buff.drop rb.tail).take (rb.len - rb.tail)).length = rb.len - rb.tail := by
        rw [List.length_take, List.length_drop]
        omega
      simp only [List.getElem?_append, hlen, List.getElem?_take, List.getElem?_drop, hget]
      split_ifs <;> first | rfl | omega | (congr 1; omega)

/-- `read_begin` succeeds iff enough bytes are stored, and shows the first of them. -/
theorem readBegin_ok (h : rb.Inv) (n : ℕ) :
    rb.readBegin n =
      .ok (if n ≤ rb.contents.length then (true, rb.contents.take n) else (false, [])) := by
  rw [length_contents h]
  unfold readBegin
  by_cases hn : rb.dataSize < n
  · rw [if_pos hn, if_neg (by omega)]
    rfl
  · rw [if_neg hn, copyBegin_ok h (by omega), if_pos (by omega)]
    rfl

/-! ## Removing -/

/-- `del_data` zeroes the first `n` cells from `_tail` on and steps over them. -/
theorem delData_cells (h : rb.Inv) {n : ℕ} (hn : ¬ (rb.dataSize < n ∨ n = 0)) :
    ∃ buff, rb.delData n = .ok (true, { rb with buff := buff, tail := (rb.tail + n) % rb.len }) ∧
      buff.length = rb.len ∧
      ∀ i < rb.len, buff[i]? =
        if rb.tail ≤ i ∧ i < rb.tail + n ∨ i + rb.len < rb.tail + n then some 0
        else rb.buff[i]? := by
  have hl := h.length_buff
  have hh := h.head_lt
  have ht := h.tail_lt
  simp only [delData, if_neg hn]
  by_cases hgt : rb.head > rb.tail
  · -- one run of cells
    have hd := dataSize_of_le hh (Nat.le_of_lt hgt)
    rw [if_pos hgt, fillZero_ok (by omega)]
    refine ⟨_, rfl, (length_splice (by simp; omega)).trans hl, fun i hi => ?_⟩
    rw [getElem?_splice (by simp; omega), List.length_replicate, List.getElem?_replicate]
    split_ifs <;> first | rfl | omega
  · by_cases hlt : rb.head < rb.tail
    · have hd := dataSize_of_lt ht hlt
      rw [if_neg hgt, if_pos hlt]
      by_cases hfit : rb.len - rb.tail ≥ n
      · -- the bytes removed end before the wrap
        simp only [if_pos hfit]
        rw [fillZero_ok (by omega)]
        refine ⟨_, rfl, (length_splice (by simp; omega)).trans hl, fun i hi => ?_⟩
        rw [getElem?_splice (by simp; omega), List.length_replicate, List.getElem?_replicate]
        split_ifs <;> first | rfl | omega
      · -- they straddle it: two fills
        have hlen₁ : (splice rb.buff rb.tail (List.replicate (rb.len - rb.tail) 0)).length =
            rb.len :=
          (length_splice (by simp; omega)).trans hl
        simp only [if_neg hfit]
        rw [fillZero_ok (by omega)]
        simp only [bind, Except.bind]
        rw [fillZero_ok (by omega)]
        refine ⟨_, rfl, (length_splice (by simp; omega)).trans hlen₁, fun i hi => ?_⟩
        rw [getElem?_splice (by simp; omega), getElem?_splice (by simp; omega)]
        simp only [List.length_replicate, List.getElem?_replicate]
        split_ifs <;> first | rfl | omega
    · -- `_head == _tail` would mean nothing is stored
      have hd := dataSize_of_le hh (show rb.tail ≤ rb.head by omega)
      omega

/-- `del_data` drops the first `n` bytes iff that many are stored and `n` is positive. -/
theorem delData_ok (h : rb.Inv) (n : ℕ) :
    ∃ rb', rb.delData n = .ok (decide (0 < n ∧ n ≤ rb.contents.length), rb') ∧ rb'.Inv ∧
      rb'.contents = if 0 < n ∧ n ≤ rb.contents.length then rb.contents.drop n else rb.contents := by
  have hh := h.head_lt
  have ht := h.tail_lt
  have hm := h.margin
  rw [length_contents h]
  by_cases hn : 0 < n ∧ n ≤ rb.dataSize
  · have hget := getElem?_contents h
    obtain ⟨buff, hcall, hlen, hcells⟩ := delData_cells h (show ¬ (rb.dataSize < n ∨ n = 0) by omega)
    rw [if_pos hn, decide_eq_true hn]
    refine ⟨_, hcall, ?_⟩
    have htail : (rb.tail + n) % rb.len =
        if rb.tail + n < rb.len then rb.tail + n else rb.tail + n - rb.len :=
      mod_of_lt_two_mul (by omega)
    set rb' : RingBuff := { rb with buff := buff, tail := (rb.tail + n) % rb.len } with hrb'
    -- what is left is what was stored, less `n`
    have hsize : rb'.dataSize = rb.dataSize - n := by
      unfold dataSize leftSize at hn ⊢
      simp only [hrb', htail]
      split_ifs at hn ⊢ <;> omega
    have hinv : rb'.Inv :=
      { length_buff := hlen, four_le_len := h.four_le_len, head_lt := hh
        tail_lt := Nat.mod_lt _ (by omega), margin := by rw [hsize]; show _ ≤ rb.len; omega }
    refine ⟨hinv, ?_⟩
    apply List.ext_getElem?
    intro i
    rw [getElem?_contents hinv, List.getElem?_drop, hsize, hget]
    -- cell by cell: byte `i` of what is left was byte `n + i`
    by_cases hi : i < rb.dataSize - n
    · rw [if_pos hi, if_pos (show n + i < rb.dataSize by omega)]
      have hbuff : ∀ j < rb.len, ¬ (rb.tail ≤ j ∧ j < rb.tail + n ∨ j + rb.len < rb.tail + n) →
          buff[j]? = rb.buff[j]? := fun j hj hnot => (hcells j hj).trans (if_neg hnot)
      simp only [htail, hrb']
      split_ifs <;> first
        | omega
        | (rw [hbuff _ (by omega) (by omega)]; congr 1; omega)
    · rw [if_neg hi, if_neg (by omega)]
  · refine ⟨rb, ?_, h, by rw [if_neg hn]⟩
    rw [delData, if_pos (by omega), decide_eq_false hn]
    rfl

/-- `read_del_begin` is `read_begin` followed by `del_data`. -/
theorem readDelBegin_ok (h : rb.Inv) (n : ℕ) :
    ∃ rb', rb.readDelBegin n =
        .ok ((decide (0 < n ∧ n ≤ rb.contents.length),
          if n ≤ rb.contents.length then rb.contents.take n else []), rb') ∧ rb'.Inv ∧
      rb'.contents = if 0 < n ∧ n ≤ rb.contents.length then rb.contents.drop n else rb.contents := by
  obtain ⟨rb', hdel, hinv, hcont⟩ := delData_ok h n
  unfold readDelBegin
  by_cases hn : n ≤ rb.contents.length
  · have hn' := hn
    rw [length_contents h] at hn'
    refine ⟨rb', ?_, hinv, hcont⟩
    rw [if_neg (by omega), copyBegin_ok h hn', if_pos hn]
    simp only [bind, Except.bind, hdel, pure, Except.pure]
  · have hn' := hn
    rw [length_contents h] at hn'
    refine ⟨rb, ?_, h, by rw [if_neg (by omega)]⟩
    rw [if_pos (by omega), if_neg hn, decide_eq_false (by omega)]
    rfl

/-! ## Growth -/

/-- `append_size` copies the stored bytes to the start of a zeroed block. -/
theorem appendSize_cells (h : rb.Inv) {newLen : ℕ}
    (hnew : (if rb.len > 1024 then rb.len + defaultBuffSize else rb.len * 2) = newLen) :
    ∃ buff, rb.appendSize = .ok { buff := buff, len := newLen, head := rb.dataSize, tail := 0 } ∧
      rb.len + 4 ≤ newLen ∧ buff.length = newLen ∧
      ∀ i < newLen, buff[i]? = if i < rb.dataSize then rb.contents[i]? else some 0 := by
  have hl := h.length_buff
  have hh := h.head_lt
  have ht := h.tail_lt
  have h4 : 4 ≤ rb.len := h.four_le_len
  have hget := getElem?_contents h
  -- either rule of growth adds at least four cells
  have hgrow : rb.len + 4 ≤ newLen := by
    rw [← hnew]
    unfold defaultBuffSize
    split <;> omega
  unfold appendSize
  rw [hnew]
  by_cases hht : rb.tail ≤ rb.head
  · -- one run of cells, one copy
    have hd := dataSize_of_le hh hht
    rw [if_pos hht, stdcopy_ok (by omega) (by simp; omega)]
    refine ⟨_, rfl, hgrow, (length_splice (by simp; omega)).trans (List.length_replicate ..),
      fun i hi => ?_⟩
    rw [getElem?_splice (by simp; omega), hget]
    simp only [List.length_take, List.length_drop, List.getElem?_take, List.getElem?_drop,
      List.getElem?_replicate]
    split_ifs <;> first | rfl | omega
  · -- two runs, copied one behind the other
    have hd := dataSize_of_lt ht (Nat.lt_of_not_le hht)
    have hlen₁ : (splice (List.replicate newLen (0 : UInt8)) 0
        ((rb.buff.drop rb.tail).take (rb.len - rb.tail))).length = newLen :=
      (length_splice (by simp; omega)).trans (List.length_replicate ..)
    simp only [hht, if_false]
    rw [stdcopy_ok (by omega) (by simp; omega)]
    simp only [bind, Except.bind]
    rw [stdcopy_ok (by omega) (by omega)]
    refine ⟨_, rfl, hgrow, (length_splice (by simp; omega)).trans hlen₁, fun i hi => ?_⟩
    rw [getElem?_splice (by simp; omega), getElem?_splice (by simp; omega), hget]
    simp only [List.length_take, List.length_drop, List.getElem?_take, List.getElem?_drop,
      List.getElem?_replicate]
    split_ifs <;> first | rfl | omega | (congr 1; omega)

/-- `append_size` straightens the ring into a larger block. -/
theorem appendSize_ok (h : rb.Inv) :
    ∃ rb', rb.appendSize = .ok rb' ∧ rb'.Inv ∧ rb'.contents = rb.contents ∧
      rb.leftSize + defaultBuffSize ≤ rb'.leftSize := by
  have hm := h.margin
  have h4 : 4 ≤ rb.len := h.four_le_len
  obtain ⟨buff, hcall, hgrow, hlen, hcells⟩ := appendSize_cells h rfl
  refine ⟨_, hcall, ?_⟩
  generalize (if rb.len > 1024 then rb.len + defaultBuffSize else rb.len * 2) = newLen at *
  have hsize : dataSize { buff := buff, len := newLen, head := rb.dataSize, tail := 0 } =
      rb.dataSize :=
    dataSize_of_le (show rb.dataSize < newLen by omega) (Nat.zero_le _)
  have hinv : Inv { buff := buff, len := newLen, head := rb.dataSize, tail := 0 } :=
    { length_buff := hlen, four_le_len := by unfold defaultBuffSize; show 4 ≤ newLen; omega
      head_lt := by show rb.dataSize < newLen; omega
      tail_lt := by show 0 < newLen; omega
      margin := by rw [hsize]; show _ ≤ newLen; omega }
  refine ⟨hinv, ?_, ?_⟩
  · apply List.ext_getElem?
    intro i
    rw [getElem?_contents hinv, hsize]
    by_cases hi : i < rb.dataSize
    · rw [if_pos hi, if_pos (show 0 + i < newLen by omega), Nat.zero_add, hcells i (by omega),
        if_pos hi]
    · rw [if_neg hi, List.getElem?_eq_none]
      rw [length_contents h]
      omega
  · have h₁ := leftSize_add_dataSize h
    have h₂ := leftSize_add_dataSize hinv
    rw [hsize] at h₂
    simp only [defaultBuffSize]
    simp only at h₂
    omega

/-- The growth loop of `add_data` ends, with room for `n` bytes and the margin. -/
theorem growLoop_ok (h : rb.Inv) {fuel n : ℕ} (hfuel : n + 2 ≤ rb.leftSize + fuel) :
    ∃ rb', growLoop fuel rb n = .ok rb' ∧ rb'.Inv ∧ rb'.contents = rb.contents ∧
      n + 2 ≤ rb'.leftSize := by
  induction fuel generalizing rb with
  | zero =>
    refine ⟨rb, ?_, h, rfl, by omega⟩
    rw [growLoop, if_neg (by omega)]
    rfl
  | succ fuel ih =>
    unfold growLoop
    by_cases hsmall : rb.leftSize ≤ n + 1
    · -- each growth frees at least one more cell, so the fuel suffices
      obtain ⟨rb₁, hrb₁, hinv₁, hcont₁, hleft₁⟩ := appendSize_ok h
      have hfour : defaultBuffSize = 4 := rfl
      obtain ⟨rb₂, hrb₂, hinv₂, hcont₂, hleft₂⟩ := ih hinv₁ (by omega)
      refine ⟨rb₂, ?_, hinv₂, hcont₂.trans hcont₁, hleft₂⟩
      rw [if_pos hsmall, hrb₁]
      exact hrb₂
    · exact ⟨rb, by rw [if_neg hsmall]; rfl, h, rfl, by omega⟩

/-! ## Appending -/

/-- `add_data` grows the block and writes the bytes to the cells from `_head` on. -/
theorem addData_cells (h : rb.Inv) (data : List UInt8) :
    ∃ rb₁ buff, growLoop (data.length + 2) rb data.length = .ok rb₁ ∧ rb₁.Inv ∧
      rb₁.contents = rb.contents ∧ data.length + 2 ≤ rb₁.leftSize ∧
      rb.addData data =
        .ok (true, { rb₁ with buff := buff, head := (rb₁.head + data.length) % rb₁.len }) ∧
      buff.length = rb₁.len ∧
      ∀ i < rb₁.len, buff[i]? =
        if rb₁.head ≤ i ∧ i < rb₁.head + data.length then data[i - rb₁.head]?
        else if i + rb₁.len < rb₁.head + data.length then data[i + rb₁.len - rb₁.head]?
        else rb₁.buff[i]? := by
  have hfuel : data.length + 2 ≤ rb.leftSize + (data.length + 2) := Nat.le_add_left ..
  obtain ⟨rb₁, hgrow, h₁, hcont, hroom⟩ := growLoop_ok h hfuel
  have hl := h₁.length_buff
  have hh := h₁.head_lt
  have ht := h₁.tail_lt
  have hsum := leftSize_add_dataSize h₁
  suffices hwrite : ∃ buff,
      rb.addData data =
        .ok (true, { rb₁ with buff := buff, head := (rb₁.head + data.length) % rb₁.len }) ∧
      buff.length = rb₁.len ∧
      ∀ i < rb₁.len, buff[i]? =
        if rb₁.head ≤ i ∧ i < rb₁.head + data.length then data[i - rb₁.head]?
        else if i + rb₁.len < rb₁.head + data.length then data[i + rb₁.len - rb₁.head]?
        else rb₁.buff[i]? by
    obtain ⟨buff, hcall⟩ := hwrite
    exact ⟨rb₁, buff, hgrow, h₁, hcont, hroom, hcall⟩
  simp only [addData, hgrow, bind, Except.bind]
  by_cases hht : rb₁.tail ≤ rb₁.head
  · simp only [ge_iff_le, hht, if_true]
    by_cases hfit : data.length ≤ rb₁.len - rb₁.head
    · -- the bytes end at the end of the block at the latest
      simp only [hfit, if_true]
      rw [stdcopy_ok (by omega) (by omega), List.drop_zero, List.take_length]
      refine ⟨_, rfl, by rw [length_splice] <;> omega, fun i hi => ?_⟩
      rw [getElem?_splice (by omega)]
      split_ifs <;> first | rfl | omega
    · -- they wrap
      simp only [hfit, if_false]
      have hlen₁ : ((data.drop 0).take (rb₁.len - rb₁.head)).length = rb₁.len - rb₁.head := by
        simp only [List.drop_zero, List.length_take]
        omega
      have hlen₂ : ((data.drop (rb₁.len - rb₁.head)).take
          (data.length - (rb₁.len - rb₁.head))).length = data.length - (rb₁.len - rb₁.head) := by
        simp only [List.length_take, List.length_drop]
        omega
      have hlen₃ : (splice rb₁.buff rb₁.head
          ((data.drop 0).take (rb₁.len - rb₁.head))).length = rb₁.len := by
        rw [length_splice] <;> omega
      have hleft := hroom
      unfold leftSize at hleft
      rw [if_pos hht] at hleft
      have hhead : data.length - (rb₁.len - rb₁.head) = (rb₁.head + data.length) % rb₁.len := by
        rw [mod_of_lt_two_mul (by omega), if_neg (by omega)]
        omega
      rw [stdcopy_ok (by omega) (by omega)]
      simp only
      rw [stdcopy_ok (by omega) (by omega), ← hhead]
      refine ⟨_, rfl, by rw [length_splice (by omega), hlen₃], fun i hi => ?_⟩
      rw [getElem?_splice (by omega), getElem?_splice (by omega), hlen₁, hlen₂]
      simp only [List.getElem?_take, List.getElem?_drop]
      split_ifs <;> first | rfl | omega | (congr 1; omega)
  · -- already wrapped: the free cells are one run below `_tail`
    have hleft := hroom
    unfold leftSize at hleft
    rw [if_neg hht] at hleft
    simp only [ge_iff_le, hht, if_false]
    rw [stdcopy_ok (by omega) (by omega), List.drop_zero, List.take_length]
    refine ⟨_, rfl, by rw [length_splice] <;> omega, fun i hi => ?_⟩
    rw [getElem?_splice (by omega)]
    split_ifs <;> first | rfl | omega

/-- `add_data` always succeeds and appends its bytes. -/
theorem addData_ok (h : rb.Inv) (data : List UInt8) :
    ∃ rb', rb.addData data = .ok (true, rb') ∧ rb'.Inv ∧ rb'.contents = rb.contents ++ data := by
  obtain ⟨rb₁, buff, -, h₁, hcont, hroom, hcall, hlen, hcells⟩ := addData_cells h data
  refine ⟨_, hcall, ?_⟩
  rw [← hcont]
  have hh := h₁.head_lt
  have ht := h₁.tail_lt
  have hget := getElem?_contents h₁
  have hsum := leftSize_add_dataSize h₁
  have hhead : (rb₁.head + data.length) % rb₁.len =
      if rb₁.head + data.length < rb₁.len then rb₁.head + data.length
      else rb₁.head + data.length - rb₁.len :=
    mod_of_lt_two_mul (by omega)
  set rb' : RingBuff := { rb₁ with buff := buff, head := (rb₁.head + data.length) % rb₁.len }
    with hrb'
  -- the new bytes fit in the free cells, so `_head` does not reach `_tail`
  have hsize : rb'.dataSize = rb₁.dataSize + data.length := by
    unfold dataSize leftSize at hsum ⊢
    unfold leftSize at hroom
    simp only [hrb', hhead]
    split_ifs at hroom hsum ⊢ <;> omega
  have hinv : rb'.Inv :=
    { length_buff := hlen, four_le_len := h₁.four_le_len, head_lt := Nat.mod_lt _ (by omega)
      tail_lt := ht, margin := by rw [hsize]; show _ ≤ rb₁.len; omega }
  refine ⟨hinv, ?_⟩
  apply List.ext_getElem?
  intro i
  rw [getElem?_contents hinv, hsize, List.getElem?_append, length_contents h₁, hget]
  by_cases hi : i < rb₁.dataSize + data.length
  · rw [if_pos hi]
    show (if rb₁.tail + i < rb₁.len then buff[rb₁.tail + i]? else buff[rb₁.tail + i - rb₁.len]?) = _
    -- where the byte lies, from `_head` if it is a new one
    by_cases hht : rb₁.tail ≤ rb₁.head
    · have hd := dataSize_of_le hh hht
      by_cases hwrap : rb₁.tail + i < rb₁.len
      · rw [if_pos hwrap, hcells _ hwrap]
        split_ifs <;> first | rfl | omega | (congr 1; omega)
      · rw [if_neg hwrap, hcells _ (by omega)]
        split_ifs <;> first | omega | (congr 1; omega)
    · have hd := dataSize_of_lt ht (Nat.lt_of_not_le hht)
      by_cases hwrap : rb₁.tail + i < rb₁.len
      · rw [if_pos hwrap, hcells _ hwrap]
        split_ifs <;> first | rfl | omega
      · rw [if_neg hwrap, hcells _ (by omega)]
        split_ifs <;> first | rfl | omega | (congr 1; omega)
  · rw [if_neg hi, if_neg (by omega), List.getElem?_eq_none (by omega)]

end Rubo.Util.RingBuff
