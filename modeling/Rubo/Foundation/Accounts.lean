import Mathlib.Logic.Function.Basic
import Rubo.Foundation.Trace

/-!
# Accounts

A store of accounts, as its users see it: a name is registered once, with a secret, and
is given an identity of its own. From then on the name and the secret yield that
identity.

Names and secrets are of any type. When spellings count as the same, they are classes of
spellings.

`lasts` says what holds of every trace behind a registration.
-/

namespace Rubo.Foundation.Accounts

/-- What a user can ask for. -/
inductive Request (N P : Type*) where
  | login (name : N) (secret : P)
  | register (name : N) (secret : P)
  deriving DecidableEq

/-- The same about other names and secrets. -/
def Request.map {N P N' P' : Type*} (f : N → N') (g : P → P') : Request N P → Request N' P'
  | .login n p => .login (f n) (g p)
  | .register n p => .register (f n) (g p)

/-- What the answer can be. -/
inductive Reply (ι : Type*) where
  | granted (id : ι)
  /-- no such name, or another secret -/
  | refused
  /-- the name is registered already -/
  | taken
  /-- the store would not -/
  | failed
  deriving DecidableEq

/-- The secret and the identity of each name that is registered. -/
abbrev Store (N P ι : Type*) := N → Option (P × ι)

variable {N P ι : Type*} [DecidableEq N]

/-- A request, its answer, and what becomes of the store. -/
inductive Step : Store N P ι → Request N P × Reply ι → Store N P ι → Prop
  | login {a : Store N P ι} {n : N} {p : P} {i : ι} (h : a n = some (p, i)) :
      Step a (.login n p, .granted i) a
  | refuse {a : Store N P ι} {n : N} {p : P} (h : ∀ i, a n ≠ some (p, i)) :
      Step a (.login n p, .refused) a
  | register {a : Store N P ι} {n : N} {p : P} {i : ι} (h : a n = none)
      (hnew : ∀ m q, a m ≠ some (q, i)) :
      Step a (.register n p, .granted i) (Function.update a n (some (p, i)))
  | taken {a : Store N P ι} {n : N} {p : P} {x : P × ι} (h : a n = some x) :
      Step a (.register n p, .taken) a
  | fail {a : Store N P ι} {n : N} {p : P} (h : a n = none) : Step a (.register n p, .failed) a

/-- No two names have the same identity. -/
def Distinct (a : Store N P ι) : Prop :=
  ∀ m n q p i, a m = some (q, i) → a n = some (p, i) → m = n

variable {a b : Store N P ι} {e : Request N P × Reply ι} {n m : N} {p q : P} {i : ι}

/-- Accounts stay. -/
theorem Step.keeps (h : Step a e b) (hn : a n = some (p, i)) : b n = some (p, i) := by
  cases h with
  | login | refuse | taken | fail => exact hn
  | @register m _ _ hm =>
      have hne : n ≠ m := by
        rintro rfl
        rw [hn] at hm
        cases hm
      rw [Function.update_of_ne hne]
      exact hn

theorem Step.distinct (h : Step a e b) (ha : Distinct a) : Distinct b := by
  cases h with
  | login | refuse | taken | fail => exact ha
  | @register k r j _ hnew =>
      intro m n q p i hm hn
      by_cases hmk : m = k
      · by_cases hnk : n = k
        · exact hmk.trans hnk.symm
        · -- the identity is new
          rw [hmk, Function.update_self] at hm
          rw [Function.update_of_ne hnk] at hn
          cases hm
          exact absurd hn (hnew n p)
      · rw [Function.update_of_ne hmk] at hm
        by_cases hnk : n = k
        · rw [hnk, Function.update_self] at hn
          cases hn
          exact absurd hm (hnew m q)
        · rw [Function.update_of_ne hnk] at hn
          exact ha m n q p i hm hn

theorem Step.registered (h : Step a (.register n p, .granted i) b) : b n = some (p, i) := by
  cases h with
  | register => exact Function.update_self ..

/-- What a login to an account is answered. -/
theorem Step.login_known {r : Reply ι} (h : Step a (.login n q, r) b) (hn : a n = some (p, i)) :
    q = p ∧ r = .granted i ∨ q ≠ p ∧ r = .refused := by
  cases h with
  | login hq =>
      obtain ⟨rfl, rfl⟩ : p = q ∧ i = _ := by simpa using hn.symm.trans hq
      exact .inl ⟨rfl, rfl⟩
  | refuse hq =>
      refine .inr ⟨?_, rfl⟩
      rintro rfl
      exact hq i hn

theorem Step.register_known {r : Reply ι} (h : Step a (.register n q, r) b)
    (hn : a n = some (p, i)) : r = .taken := by
  cases h with
  | taken => rfl
  | register hnone => rw [hn] at hnone; cases hnone
  | fail hnone => rw [hn] at hnone; cases hnone

/-- Whoever gets the identity has used the name and the secret. -/
theorem Step.granted_known (h : Step a (.login m q, .granted i) b) (ha : Distinct a)
    (hn : a n = some (p, i)) : m = n ∧ q = p := by
  cases h with
  | login hm =>
      obtain rfl := ha m n q p i hm hn
      obtain ⟨rfl, -⟩ : p = q ∧ i = i := by simpa using hn.symm.trans hm
      exact ⟨rfl, rfl⟩

/-- **An account lasts.** Behind a registration, a login with the name is answered with the
identity if it has the secret and refused otherwise, the name cannot be registered again,
and no other login is answered with the identity. -/
theorem lasts {l : List (Request N P × Reply ι)}
    (h : Trace Step a ((.register n p, .granted i) :: l) b) (ha : Distinct a) :
    (∀ q r, (.login n q, r) ∈ l → q = p ∧ r = .granted i ∨ q ≠ p ∧ r = .refused) ∧
      (∀ q r, (.register n q, r) ∈ l → r = .taken) ∧
      ∀ m q, (.login m q, .granted i) ∈ l → m = n ∧ q = p := by
  cases h with
  | cons hfirst hrest =>
      -- the account is there before each request that follows
      have hbefore : ∀ e ∈ l, ∃ u w : Store N P ι, (u n = some (p, i) ∧ Distinct u) ∧ Step u e w :=
        fun e he => hrest.exists_of_mem (I := fun u => u n = some (p, i) ∧ Distinct u)
          (fun _ _ _ hstep hu => ⟨hstep.keeps hu.1, hstep.distinct hu.2⟩)
          ⟨hfirst.registered, hfirst.distinct ha⟩ he
      refine ⟨fun q r he => ?_, fun q r he => ?_, fun m q he => ?_⟩
      · obtain ⟨u, w, ⟨hn, -⟩, hstep⟩ := hbefore _ he
        exact hstep.login_known hn
      · obtain ⟨u, w, ⟨hn, -⟩, hstep⟩ := hbefore _ he
        exact hstep.register_known hn
      · obtain ⟨u, w, ⟨hn, hu⟩, hstep⟩ := hbefore _ he
        exact hstep.granted_known hu hn

end Rubo.Foundation.Accounts
