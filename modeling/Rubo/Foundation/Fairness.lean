import Mathlib.Algebra.BigOperators.Group.List.Basic
import Mathlib.Algebra.Ring.Nat
import Mathlib.Data.Countable.Defs
import Mathlib.Data.Nat.Pairing
import Mathlib.Order.WellFounded
import Rubo.Foundation.Machine

/-!
# Fair Schedules

The actions of a machine belong to parties, and a machine that runs for ever is
given its actions by a schedule. A schedule is fair to the parties when each of
them has its turn again and again; an action of no party may come at any time or
never.

- `Helpful.eventually`: a goal is reached under every fair schedule, when in each
  state one party has a step that brings the goal nearer, and the others can only
  do the same or leave it to that party;
- `exists_fair_after`: every run can go on fairly, so what a run has made impossible
  is not reached under some fair schedule.
-/

namespace Rubo.Foundation

variable {σ α π μ : Type*}

/-! ## Runs without end -/

/-- The state after the first `n` actions. -/
def after (step : σ → α → σ) (s : σ) (acts : ℕ → α) : ℕ → σ
  | 0 => s
  | n + 1 => step (after step s acts n) (acts n)

theorem after_add (step : σ → α → σ) (s : σ) (acts : ℕ → α) (n m : ℕ) :
    after step s acts (n + m) = after step (after step s acts n) (fun k => acts (n + k)) m := by
  induction m with
  | zero => rfl
  | succ m ih => rw [← Nat.add_assoc, after, ih, after]

/-- The first actions, one after the other. -/
theorem after_eq_run (step : σ → α → σ) (s : σ) (acts : ℕ → α) (n : ℕ) :
    after step s acts n = run step s ((List.range n).map acts) := by
  induction n with
  | zero => rfl
  | succ n ih => rw [after, ih, List.range_succ, List.map_append, run_append]; rfl

theorem after_invariant {step : σ → α → σ} {I : σ → Prop} (hstep : ∀ s a, I s → I (step s a))
    {s : σ} (hs : I s) (acts : ℕ → α) (n : ℕ) : I (after step s acts n) := by
  rw [after_eq_run]
  exact run_invariant hstep hs _

/-- The actions of a list, and then those of a schedule. -/
def prepend : List α → (ℕ → α) → ℕ → α
  | [], acts, n => acts n
  | a :: _, _, 0 => a
  | _ :: as, acts, n + 1 => prepend as acts n

theorem prepend_length (as : List α) (acts : ℕ → α) (n : ℕ) :
    prepend as acts (as.length + n) = acts n := by
  induction as with
  | nil => rw [List.length_nil, Nat.zero_add, prepend]
  | cons a as ih => rw [List.length_cons, Nat.add_right_comm, prepend, ih]

theorem after_prepend (step : σ → α → σ) (s : σ) (as : List α) (acts : ℕ → α) :
    after step s (prepend as acts) as.length = run step s as := by
  induction as generalizing s with
  | nil => rfl
  | cons a as ih =>
      rw [List.length_cons, Nat.add_comm, after_add, run_cons, ← ih]
      congr 1
      funext k
      rw [Nat.add_comm, prepend]

/-! ## Fairness -/

/-- Every party has its turn again and again. -/
def Fair (party : α → Option π) (acts : ℕ → α) : Prop :=
  ∀ p n, ∃ m, n ≤ m ∧ party (acts m) = some p

variable {party : α → Option π}

theorem Fair.drop {acts : ℕ → α} (h : Fair party acts) (n : ℕ) :
    Fair party fun k => acts (n + k) := by
  intro p k
  obtain ⟨m, hle, hm⟩ := h p (n + k)
  obtain ⟨d, rfl⟩ := Nat.exists_eq_add_of_le ((Nat.le_add_right n k).trans hle)
  exact ⟨d, Nat.le_of_add_le_add_left hle, hm⟩

theorem Fair.prepend {acts : ℕ → α} (h : Fair party acts) (as : List α) :
    Fair party (prepend as acts) := by
  intro p n
  obtain ⟨m, hle, hm⟩ := h p n
  refine ⟨as.length + m, by omega, ?_⟩
  rw [prepend_length]
  exact hm

/-- Finitely or countably many parties can be given their turns fairly. -/
theorem exists_fair [Countable π] [Nonempty π] (hparty : ∀ p, ∃ a, party a = some p) :
    ∃ acts, Fair party acts := by
  obtain ⟨order, horder⟩ := exists_surjective_nat π
  choose act hact using hparty
  refine ⟨fun n => act (order n.unpair.1), ?_⟩
  intro p n
  obtain ⟨k, rfl⟩ := horder p
  have hunpair : (Nat.pair k n).unpair.1 = k := by rw [Nat.unpair_pair]
  refine ⟨Nat.pair k n, Nat.right_le_pair k n, ?_⟩
  show party (act (order (Nat.pair k n).unpair.1)) = some (order k)
  rw [hunpair]
  exact hact (order k)

/-- **Every run can go on fairly.** -/
theorem exists_fair_after [Countable π] [Nonempty π] (hparty : ∀ p, ∃ a, party a = some p)
    (step : σ → α → σ) (s : σ) (as : List α) :
    ∃ acts, Fair party acts ∧ after step s acts as.length = run step s as := by
  obtain ⟨acts, hfair⟩ := exists_fair hparty
  exact ⟨_, hfair.prepend as, after_prepend step s as acts⟩

/-! ## Reaching a goal -/

/-- Short of the goal, every step brings it nearer, or leaves the distance and the
party whose turn would help as they were. A step of that party does not do the latter. -/
structure Helpful (step : σ → α → σ) (party : α → Option π) (I goal : σ → Prop)
    (nearer : μ → μ → Prop) (distance : σ → μ) (helpful : σ → π) : Prop where
  keeps : ∀ s a, I s → I (step s a)
  helps : ∀ s a, I s → ¬ goal s → nearer (distance (step s a)) (distance s) ∨
    party a ≠ some (helpful s) ∧ distance (step s a) = distance s ∧
      helpful (step s a) = helpful s

variable {step : σ → α → σ} {I goal : σ → Prop} {nearer : μ → μ → Prop} {distance : σ → μ}
  {helpful : σ → π}

/-- The distance does not stay the same for ever. -/
theorem Helpful.exists_nearer (h : Helpful step party I goal nearer distance helpful) {s : σ}
    (hs : I s) {acts : ℕ → α} {m : ℕ} (hturn : party (acts m) = some (helpful s)) :
    (∃ n, goal (after step s acts n)) ∨
      ∃ n, nearer (distance (after step s acts n)) (distance s) := by
  induction m generalizing s acts with
  | zero =>
      by_cases hgoal : goal s
      · exact .inl ⟨0, hgoal⟩
      · rcases h.helps s (acts 0) hs hgoal with hn | ⟨hnot, -⟩
        · exact .inr ⟨1, hn⟩
        · exact absurd hturn hnot
  | succ m ih =>
      by_cases hgoal : goal s
      · exact .inl ⟨0, hgoal⟩
      rcases h.helps s (acts 0) hs hgoal with hn | ⟨-, hsame, hparty⟩
      · exact .inr ⟨1, hn⟩
      · -- one action later it is still the turn of the same party
        have hlater : ∀ n, after step (step s (acts 0)) (fun k => acts (1 + k)) n =
            after step s acts (1 + n) := fun n => (after_add step s acts 1 n).symm
        have hturn' : party (acts (1 + m)) = some (helpful (step s (acts 0))) := by
          rw [hparty, ← hturn, Nat.add_comm]
        rcases @ih (step s (acts 0)) (h.keeps s (acts 0) hs) (fun k => acts (1 + k)) hturn' with
          ⟨n, hg⟩ | ⟨n, hn⟩
        · exact .inl ⟨1 + n, hlater n ▸ hg⟩
        · exact .inr ⟨1 + n, by rw [← hlater, ← hsame]; exact hn⟩

/-- **The goal is reached** under every fair schedule. -/
theorem Helpful.eventually (h : Helpful step party I goal nearer distance helpful)
    (hwf : WellFounded nearer) {s : σ} (hs : I s) {acts : ℕ → α} (hfair : Fair party acts) :
    ∃ n, goal (after step s acts n) := by
  -- induction on the distance
  induction hd : distance s using hwf.induction generalizing s acts with
  | _ d ih =>
      obtain ⟨m, -, hturn⟩ := hfair (helpful s) 0
      rcases h.exists_nearer hs hturn with hgoal | ⟨n, hn⟩
      · exact hgoal
      · rw [hd] at hn
        obtain ⟨k, hk⟩ := ih _ hn (after_invariant h.keeps hs acts n) (hfair.drop n) rfl
        exact ⟨n + k, by rw [after_add]; exact hk⟩

/-- What is left to a row of parties is less when it is less for one of them. -/
theorem sum_map_set_lt (left : σ → ℕ) {ts : List σ} {i : ℕ} {t t' : σ} (ht : ts[i]? = some t)
    (hlt : left t' < left t) : ((ts.set i t').map left).sum < (ts.map left).sum := by
  induction ts generalizing i with
  | nil => rw [List.getElem?_nil] at ht; cases ht
  | cons u ts ih =>
      cases i with
      | zero =>
          obtain rfl := Option.some.inj ht
          exact Nat.add_lt_add_right hlt _
      | succ i => exact Nat.add_lt_add_left (ih ht) _

end Rubo.Foundation
