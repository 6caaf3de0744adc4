import Rubo.Foundation.Memory

/-!
# Shared Helpers

- The byte-level helpers of `comm/global.cpp` and the standard algorithms the
  buffers use, over bounded blocks: `stdcopy` (`std::copy` of a byte range) and
  `std::fill_n`.
- The choice of a worker, which both IO threads write out.
-/

namespace Rubo.Comm

open Rubo.Foundation Memory

/-! ## Byte copies -/

/-- `stdcopy(dest + doff, src + soff, len)`. -/
def stdcopy (dest : List UInt8) (doff : ℕ) (src : List UInt8) (soff len : ℕ) :
    Except Fault (List UInt8) := do
  let bs ← load src soff len
  store dest doff bs

/-- `std::fill_n(dest + off, len, 0)`. -/
def fillZero (dest : List UInt8) (off len : ℕ) : Except Fault (List UInt8) :=
  store dest off (List.replicate len 0)

theorem stdcopy_ok {dest src : List UInt8} {doff soff len : ℕ}
    (hsrc : soff + len ≤ src.length) (hdest : doff + len ≤ dest.length) :
    stdcopy dest doff src soff len = .ok (splice dest doff ((src.drop soff).take len)) := by
  have hlen : ((src.drop soff).take len).length = len := by
    rw [List.length_take, List.length_drop]
    omega
  rw [stdcopy, load_ok hsrc]
  exact store_ok (by omega)

theorem fillZero_ok {dest : List UInt8} {off len : ℕ} (h : off + len ≤ dest.length) :
    fillZero dest off len = .ok (splice dest off (List.replicate len 0)) :=
  store_ok (by rwa [List.length_replicate])

/-! ## Choosing a worker -/

/-- `UINT_MAX` -/
def uintMax : ℕ := 4294967295

/-- What `GateIO::get_worker` and `LogicIO::get_worker` have in common: the
worker that has the key, or else the first one with the fewest, as a position. -/
def findWorker {α : Type*} (has : α → Bool) (num : α → ℕ) (workers : List α) : Option ℕ :=
  match workers.findIdx? has with
  | some i => some i
  | none =>
    -- `<` keeps the first of several with the same number
    (workers.zipIdx.foldl (fun (min : ℕ × Option ℕ) w =>
      if num w.1 < min.1 then (num w.1, some w.2) else min) (uintMax, none)).2

/-- The choice looks at the key and the number only. -/
theorem findWorker_map {α β : Type*} (has : α → Bool) (num : α → ℕ) (f : β → α)
    (workers : List β) :
    findWorker has num (workers.map f) =
      findWorker (fun w => has (f w)) (fun w => num (f w)) workers := by
  simp [findWorker, List.findIdx?_map, List.zipIdx_map, List.foldl_map, Function.comp_def]

/-- The loop behind the choice: nothing beats the bound it starts with, or the first
of those with the fewest does. -/
theorem foldl_fewest {α : Type*} (num : α → ℕ) (workers : List α) (k : ℕ) (s : ℕ × Option ℕ) :
    let r := (workers.zipIdx k).foldl (fun (min : ℕ × Option ℕ) w =>
      if num w.1 < min.1 then (num w.1, some w.2) else min) s
    (r = s ∧ ∀ w ∈ workers, s.1 ≤ num w) ∨
      ∃ i w, workers[i]? = some w ∧ r = (num w, some (k + i)) ∧ num w < s.1 ∧
        ∀ j v, workers[j]? = some v → num w ≤ num v ∧ (j < i → num w < num v) := by
  induction workers generalizing k s with
  | nil => exact .inl ⟨rfl, by simp⟩
  | cons x xs ih =>
      simp only [List.zipIdx_cons, List.foldl_cons]
      rcases ih (k + 1) (if num x < s.1 then (num x, some k) else s) with
        ⟨hr, hle⟩ | ⟨i, w, hi, hr, hlt, hmin⟩
      · -- nobody behind the first one has fewer
        rw [hr]
        split_ifs at hle ⊢ with hx
        · refine .inr ⟨0, x, rfl, rfl, hx, ?_⟩
          intro j v hj
          cases j with
          | zero =>
              obtain rfl : x = v := by simpa using hj
              exact ⟨Nat.le_refl _, fun h => absurd h (Nat.lt_irrefl _)⟩
          | succ j => exact ⟨hle v (List.mem_of_getElem? hj), fun h => absurd h (Nat.not_lt_zero _)⟩
        · refine .inl ⟨rfl, ?_⟩
          simpa using ⟨Nat.le_of_not_lt hx, hle⟩
      · have hbound : num w < s.1 ∧ num w < num x := by
          split_ifs at hlt with hx
          · exact ⟨Nat.lt_trans hlt hx, hlt⟩
          · exact ⟨hlt, Nat.lt_of_lt_of_le hlt (Nat.le_of_not_lt hx)⟩
        refine .inr ⟨i + 1, w, hi, by rw [hr]; simp [Nat.add_comm, Nat.add_left_comm], hbound.1, ?_⟩
        intro j v hj
        cases j with
        | zero =>
            obtain rfl : x = v := by simpa using hj
            exact ⟨Nat.le_of_lt hbound.2, fun _ => hbound.2⟩
        | succ j =>
            obtain ⟨hle, hless⟩ := hmin j v hj
            exact ⟨hle, fun h => hless (Nat.lt_of_succ_lt_succ h)⟩

/-- **The choice**: the first worker with the key, or else the first one with the
fewest, if that is less than `UINT_MAX`. -/
theorem findWorker_eq_some {α : Type*} {has : α → Bool} {num : α → ℕ} {workers : List α} {i : ℕ}
    (h : findWorker has num workers = some i) :
    ∃ w, workers[i]? = some w ∧
      ((has w = true ∧ ∀ j < i, ∀ v, workers[j]? = some v → has v = false) ∨
        (∀ v ∈ workers, has v = false) ∧ num w < uintMax ∧
          ∀ j v, workers[j]? = some v → num w ≤ num v ∧ (j < i → num w < num v)) := by
  unfold findWorker at h
  cases hidx : workers.findIdx? has with
  | some k =>
      simp only [hidx, Option.some.injEq] at h
      obtain rfl := h
      obtain ⟨hlt, hhas, hbefore⟩ := List.findIdx?_eq_some_iff_getElem.mp hidx
      refine ⟨workers[k], List.getElem?_eq_getElem hlt, .inl ⟨hhas, ?_⟩⟩
      intro j hj v hv
      obtain ⟨hjlt, rfl⟩ := List.getElem?_eq_some_iff.mp hv
      simpa using hbefore j hj
  | none =>
      simp only [hidx] at h
      rcases foldl_fewest num workers 0 (uintMax, none) with ⟨hr, _⟩ | ⟨k, w, hk, hr, hlt, hmin⟩
      · rw [hr] at h
        cases h
      · rw [hr] at h
        obtain rfl : k = i := by simpa using h
        exact ⟨w, hk, .inr ⟨List.findIdx?_eq_none_iff.mp hidx, hlt, hmin⟩⟩

/-- Somebody is found unless everybody has `UINT_MAX`. -/
theorem findWorker_ne_none {α : Type*} {has : α → Bool} {num : α → ℕ} {workers : List α}
    (h : ∃ w ∈ workers, has w = true ∨ num w < uintMax) : findWorker has num workers ≠ none := by
  obtain ⟨w, hw, hor⟩ := h
  unfold findWorker
  cases hidx : workers.findIdx? has with
  | some k => simp
  | none =>
      simp only
      rcases foldl_fewest num workers 0 (uintMax, none) with ⟨_, hle⟩ | ⟨k, v, _, hr, _⟩
      · rcases hor with hhas | hlt
        · rw [List.findIdx?_eq_none_iff.mp hidx w hw] at hhas
          cases hhas
        · exact absurd hlt (Nat.not_lt_of_le (hle w hw))
      · rw [hr]
        simp

end Rubo.Comm
