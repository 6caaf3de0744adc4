import Mathlib.Data.List.Basic
import Mathlib.Data.List.Infix
import Mathlib.Tactic.Common

/-!
# Incremental Decoders

A decoder takes items off the front of a stream. It may have to wait for more
input, but an item it can take is the same whatever arrives later. For such
decoders the items of a stream do not depend on how the stream was cut:

- `drain` takes items until the decoder waits;
- `drain_append`: draining a buffer, then the rest behind what was left, is
  draining everything at once;
- `drainUntil` stops early, after an item of a given kind; what it leaves drains
  to exactly the items it did not take.
-/

namespace Rubo.Foundation

/-- An incremental decoder from a stream of `α` to items `β`. -/
structure Decoder (α β : Type*) where
  /-- The first item and what follows it, or `none` to wait. -/
  next : List α → Option (β × List α)
  /-- An item is never empty. -/
  next_length : ∀ {xs b r}, next xs = some (b, r) → r.length < xs.length
  /-- An item does not depend on what follows it. -/
  next_append : ∀ {xs b r} (ys : List α), next xs = some (b, r) → next (xs ++ ys) = some (b, r ++ ys)

namespace Decoder

variable {α β : Type*} (d : Decoder α β)

/-- Take items until the decoder waits or `stop` tells it to; the last argument
bounds the number of items. -/
def drainLoop (stop : β → Bool) : ℕ → List α → List β × List α
  | 0, xs => ([], xs)
  | n + 1, xs =>
    match d.next xs with
    | none => ([], xs)
    | some (b, r) =>
      if stop b then ([b], r)
      else
        let (bs, r') := drainLoop stop n r
        (b :: bs, r')

/-- The items up to and including the first one `stop` accepts, and what follows. -/
def drainUntil (stop : β → Bool) (xs : List α) : List β × List α :=
  d.drainLoop stop xs.length xs

/-- All complete items, and the incomplete rest. -/
def drain (xs : List α) : List β × List α :=
  d.drainUntil (fun _ => false) xs

variable {d}

/-- Any bound that is large enough gives the same result. -/
theorem drainLoop_eq_drainUntil {stop : β → Bool} {n : ℕ} {xs : List α} (h : xs.length ≤ n) :
    d.drainLoop stop n xs = d.drainUntil stop xs := by
  -- both bounds admit every item, so neither is what ends the loop
  have key : ∀ (m n : ℕ) (xs : List α), xs.length ≤ m → xs.length ≤ n →
      d.drainLoop stop m xs = d.drainLoop stop n xs := by
    intro m
    induction m with
    | zero =>
      intro n xs hm _
      cases n with
      | zero => rfl
      | succ n =>
        cases hnext : d.next xs with
        | none => simp [drainLoop, hnext]
        | some p =>
          have := d.next_length hnext
          omega
    | succ m ih =>
      intro n xs hm hn
      cases hnext : d.next xs with
      | none => cases n <;> simp [drainLoop, hnext]
      | some p =>
        obtain ⟨b, r⟩ := p
        have hlt := d.next_length hnext
        cases n with
        | zero => omega
        | succ n =>
          simp only [drainLoop, hnext]
          rw [ih n r (by omega) (by omega)]
  exact key n xs.length xs h (Nat.le_refl _)

/-- The defining equation of `drainUntil`. -/
theorem drainUntil_eq (stop : β → Bool) (xs : List α) :
    d.drainUntil stop xs =
      match d.next xs with
      | none => ([], xs)
      | some (b, r) =>
        if stop b then ([b], r) else (b :: (d.drainUntil stop r).1, (d.drainUntil stop r).2) := by
  cases hxs : xs with
  | nil =>
    cases hnext : d.next ([] : List α) with
    | none => rfl
    -- the item is at least one byte, so the bound left covers what follows it
    | some p => exact absurd (d.next_length hnext) (by simp)
  | cons x xs' =>
    rw [← hxs]
    have hlen : xs.length = xs'.length + 1 := by rw [hxs, List.length_cons]
    rw [drainUntil, hlen, drainLoop]
    cases hnext : d.next xs with
    | none => rfl
    | some p =>
      obtain ⟨b, r⟩ := p
      have := d.next_length hnext
      simp only
      rw [drainLoop_eq_drainUntil (by omega)]

theorem drainUntil_of_none {stop : β → Bool} {xs : List α} (h : d.next xs = none) :
    d.drainUntil stop xs = ([], xs) := by
  rw [drainUntil_eq, h]

theorem drainUntil_of_some {stop : β → Bool} {xs r : List α} {b : β}
    (h : d.next xs = some (b, r)) :
    d.drainUntil stop xs =
      if stop b then ([b], r) else (b :: (d.drainUntil stop r).1, (d.drainUntil stop r).2) := by
  rw [drainUntil_eq, h]

theorem drain_of_none {xs : List α} (h : d.next xs = none) : d.drain xs = ([], xs) :=
  drainUntil_of_none h

theorem drain_of_some {xs r : List α} {b : β} (h : d.next xs = some (b, r)) :
    d.drain xs = (b :: (d.drain r).1, (d.drain r).2) := by
  rw [drain, drainUntil_of_some h]
  rfl

/-- Induction on the stream, one item at a time. -/
theorem item_induction {motive : List α → Prop}
    (wait : ∀ xs, d.next xs = none → motive xs)
    (item : ∀ xs b r, d.next xs = some (b, r) → motive r → motive xs) (xs : List α) :
    motive xs := by
  induction hn : xs.length using Nat.strong_induction_on generalizing xs with
  | _ n ih =>
    cases hnext : d.next xs with
    | none => exact wait xs hnext
    | some p =>
      obtain ⟨b, r⟩ := p
      have hlt := d.next_length hnext
      exact item xs b r hnext (ih r.length (by omega) r rfl)

/-- What is left after draining makes the decoder wait. -/
theorem next_drain_snd (xs : List α) : d.next (d.drain xs).2 = none := by
  induction xs using item_induction (d := d) with
  | wait xs h => rwa [drain_of_none h]
  | item xs b r h ih => rwa [drain_of_some h]

/-- **Draining does not depend on how the stream is cut.** -/
theorem drain_append (xs ys : List α) :
    d.drain (xs ++ ys) =
      ((d.drain xs).1 ++ (d.drain ((d.drain xs).2 ++ ys)).1, (d.drain ((d.drain xs).2 ++ ys)).2) := by
  induction xs using item_induction (d := d) with
  -- the rest is the whole stream
  | wait xs h => simp [drain_of_none h]
  -- the item is taken from the longer stream as well
  | item xs b r h ih =>
    rw [drain_of_some (d.next_append ys h), drain_of_some h, ih]
    rfl

/-- More input extends the list of items. -/
theorem drain_fst_prefix (xs ys : List α) : (d.drain xs).1 <+: (d.drain (xs ++ ys)).1 := by
  rw [drain_append]
  exact List.prefix_append _ _

/-- **Stopping early loses nothing**: the items of the whole are those taken and
those of the rest. -/
theorem drain_eq_drainUntil (stop : β → Bool) (xs : List α) :
    d.drain xs = ((d.drainUntil stop xs).1 ++ (d.drain (d.drainUntil stop xs).2).1,
      (d.drain (d.drainUntil stop xs).2).2) := by
  induction xs using item_induction (d := d) with
  | wait xs h => simp [drainUntil_of_none h, drain_of_none h]
  | item xs b r h ih =>
    rw [drain_of_some h, drainUntil_of_some h]
    split
    · -- stopped at `b`: the rest is drained as it is
      rfl
    · rw [ih]
      rfl

/-- What holds of every item the decoder can give holds of the items taken. -/
theorem forall_mem_drainUntil {stop : β → Bool} {P : β → Prop}
    (hP : ∀ {xs b r}, d.next xs = some (b, r) → P b) (xs : List α) :
    ∀ b ∈ (d.drainUntil stop xs).1, P b := by
  induction xs using item_induction (d := d) with
  | wait xs hnext =>
    rw [drainUntil_of_none hnext]
    exact fun _ hb => absurd hb List.not_mem_nil
  | item xs b r hnext ih =>
    rw [drainUntil_of_some hnext]
    split
    · -- `b` is the last item taken
      intro c hc
      rcases List.mem_singleton.mp hc with rfl
      exact hP hnext
    · intro c hc
      rcases List.mem_cons.mp hc with rfl | hc
      · exact hP hnext
      · exact ih c hc

/-- Without an item to stop at, `drainUntil` drains. -/
theorem drainUntil_eq_drain {stop : β → Bool} {xs : List α}
    (h : ∀ b ∈ (d.drain xs).1, stop b = false) : d.drainUntil stop xs = d.drain xs := by
  induction xs using item_induction (d := d) with
  | wait xs hnext => rw [drainUntil_of_none hnext, drain_of_none hnext]
  | item xs b r hnext ih =>
    rw [drain_of_some hnext] at h
    have hb : stop b = false := h b (List.mem_cons_self ..)
    rw [drainUntil_of_some hnext, drain_of_some hnext, hb,
      ih fun c hc => h c (List.mem_cons_of_mem _ hc)]
    rfl

/-- Stopping early makes no difference iff nothing but the last item can stop. -/
theorem drainUntil_eq_drain_iff {stop : β → Bool} {xs : List α} :
    d.drainUntil stop xs = d.drain xs ↔ ∀ b ∈ (d.drain xs).1.dropLast, stop b = false := by
  induction xs using item_induction (d := d) with
  | wait xs hnext => simp [drainUntil_of_none hnext, drain_of_none hnext]
  | item xs b r hnext ih =>
    rw [drainUntil_of_some hnext, drain_of_some hnext]
    cases hr : d.next r with
    | none =>
      -- `b` is the last item
      simp [drainUntil_of_none hr, drain_of_none hr]
    | some p =>
      obtain ⟨c, r'⟩ := p
      -- `b` is not the last item, so it must not stop
      have hcons : (d.drain r).1 ≠ [] := by
        rw [drain_of_some hr]
        exact List.cons_ne_nil _ _
      rw [List.dropLast_cons_of_ne_nil hcons]
      cases hb : stop b with
      | true =>
        constructor
        · intro h
          exact absurd (List.cons.inj (Prod.mk.inj h).1).2.symm hcons
        · intro h
          exact absurd (h b (List.mem_cons_self ..)) (by simp [hb])
      | false =>
        simp only [Bool.false_eq_true, if_false, Prod.mk.injEq, List.cons.injEq, true_and,
          List.mem_cons, forall_eq_or_imp, hb]
        rw [← ih, Prod.ext_iff]

/-- What is left tells whether anything was missed. -/
theorem drainUntil_snd_eq_iff {stop : β → Bool} {xs : List α} :
    (d.drainUntil stop xs).2 = (d.drain xs).2 ↔ d.drainUntil stop xs = d.drain xs := by
  constructor
  · intro h
    have hwait := next_drain_snd (d := d) xs
    have hdrain := drain_eq_drainUntil (d := d) stop xs
    -- the rest of `drain` holds no item, so `drainUntil` has taken them all
    rw [← h] at hwait
    rw [hdrain, drain_of_none hwait, List.append_nil]
  · intro h
    rw [h]

/-- The items of `stream` are those in `taken` and those still in `buff`. -/
def Accounts (d : Decoder α β) (stream : List α) (taken : List β) (buff : List α) : Prop :=
  d.drain stream = (taken ++ (d.drain buff).1, (d.drain buff).2)

/-- What arrives behind the stream arrives behind the buffer. -/
theorem Accounts.append {stream buff : List α} {taken : List β} (h : d.Accounts stream taken buff)
    (ys : List α) : d.Accounts (stream ++ ys) taken (buff ++ ys) := by
  rw [Accounts] at h
  rw [Accounts, drain_append, drain_append buff, h, List.append_assoc]

/-- Items move from the buffer to the ones taken. -/
theorem Accounts.drainUntil {stream buff : List α} {taken : List β}
    (h : d.Accounts stream taken buff) (stop : β → Bool) :
    d.Accounts stream (taken ++ (d.drainUntil stop buff).1) (d.drainUntil stop buff).2 := by
  rw [Accounts] at h
  rw [Accounts, h, drain_eq_drainUntil stop buff, List.append_assoc]

/-- An item taken from the buffer is an item of the stream. -/
theorem Accounts.mem_drain {stream buff : List α} {taken : List β}
    (h : d.Accounts stream taken buff) {stop : β → Bool} {b : β}
    (hb : b ∈ (d.drainUntil stop buff).1) : b ∈ (d.drain stream).1 := by
  rw [Accounts] at h
  rw [h, drain_eq_drainUntil stop buff]
  exact List.mem_append_right _ (List.mem_append_left _ hb)

/-- Taking an item leaves fewer of them, as long as there are any. -/
theorem length_drain_drainUntil (stop : β → Bool) (xs : List α) :
    (d.drain (d.drainUntil stop xs).2).1.length ≤ (d.drain xs).1.length - 1 := by
  cases hnext : d.next xs with
  | none => simp [drainUntil_of_none hnext, drain_of_none hnext]
  | some p =>
    obtain ⟨b, r⟩ := p
    -- whether or not it stops, at least one item was taken
    have htaken : 0 < (d.drainUntil stop xs).1.length := by
      rw [drainUntil_of_some hnext]
      split_ifs <;> exact Nat.succ_pos _
    rw [drain_eq_drainUntil stop xs, List.length_append]
    omega

end Decoder

end Rubo.Foundation
