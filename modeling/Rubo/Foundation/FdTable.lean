import Mathlib.Data.Finset.Card
import Mathlib.Data.Finset.Lattice.Lemmas
import Mathlib.Tactic.Common

/-!
# Descriptor Tables

The open descriptors of a process and the system calls that open, use and close them.
Any call can fail, and which number a new descriptor gets is up to the kernel. A number
that has been closed can be closed again: that hits nothing, unless the number has been
given away in the meantime.

`Owns k₀ k own` says that a program has brought the table from `k₀` to `k` and has `own`
open now. The rules say what each call makes of it; `Owns.close` is about every number
that was not open at the beginning, whether it is open or not.
-/

namespace Rubo.Foundation

/-- The open descriptors, the pairs of an epoll descriptor and one it watches, and how
many calls have been made. -/
structure FdTable where
  fds : Finset Int32
  watches : Finset (Int32 × Int32)
  calls : ℕ
  nonneg : ∀ fd ∈ fds, 0 ≤ fd

/-- What is not up to the program: which calls fail, the number of a new descriptor,
unless the table is full, and how many addresses a host name has. -/
structure System where
  fails : ℕ → Bool
  fresh : Finset Int32 → Option Int32
  addrs : ℕ → ℕ
  nonneg : ∀ s fd, fresh s = some fd → 0 ≤ fd
  notMem : ∀ s fd, fresh s = some fd → fd ∉ s
  /-- A name without an address is not found. -/
  addrs_pos : ∀ i, 0 < addrs i

/-- No call fails while there are fewer than `n` descriptors. -/
structure System.Unfailing (sys : System) (n : ℕ) : Prop where
  fails : ∀ i, sys.fails i = false
  fresh : ∀ s, s.card < n → sys.fresh s ≠ none

theorem System.Unfailing.mono {sys : System} {m n : ℕ} (h : sys.Unfailing n) (hle : m ≤ n) :
    sys.Unfailing m := ⟨h.fails, fun s hs => h.fresh s (Nat.lt_of_lt_of_le hs hle)⟩

namespace FdTable

variable (sys : System) (k : FdTable)

/-- One call more. -/
def tick : FdTable := { k with calls := k.calls + 1 }

/-- The table with a new descriptor. -/
def add (fd : Int32) (h : 0 ≤ fd) : FdTable :=
  { k with fds := insert fd k.fds, nonneg := Finset.forall_mem_insert _ _ _ |>.mpr ⟨h, k.nonneg⟩ }

/-- A call that opens a descriptor. -/
def openFd : Int32 × FdTable :=
  if sys.fails k.calls then (-1, k.tick)
  else
    match h : sys.fresh k.fds with
    | none => (-1, k.tick)
    | some fd => (fd, k.tick.add fd (sys.nonneg _ _ h))

/-- A call that uses a descriptor and leaves the table as it is. -/
def useFd (fd : Int32) : Bool × FdTable :=
  (decide (fd ∈ k.fds) && !sys.fails k.calls, k.tick)

/-- A call that is about no descriptor. -/
def request : Bool × FdTable := (!sys.fails k.calls, k.tick)

/-- The number of addresses behind a name, `none` where the name is not found. -/
def lookup : Option ℕ × FdTable :=
  (if sys.fails k.calls then none else some (sys.addrs k.calls), k.tick)

/-- `EPOLL_CTL_ADD` -/
def watch (epfd fd : Int32) : Bool × FdTable :=
  if epfd ∈ k.fds ∧ fd ∈ k.fds ∧ (epfd, fd) ∉ k.watches ∧ sys.fails k.calls = false then
    (true, { k.tick with watches := insert (epfd, fd) k.watches })
  else (false, k.tick)

/-- `close(fd)`. Nothing watches a closed descriptor. -/
def closeFd (fd : Int32) : FdTable where
  fds := k.fds.erase fd
  watches := k.watches.filter fun w => w.1 ≠ fd ∧ w.2 ≠ fd
  calls := k.calls + 1
  nonneg fd' hfd' := k.nonneg fd' (Finset.mem_of_mem_erase hfd')

/-- The table has come from `k₀` to `k`, with the descriptors `own` opened since. Standard
input was open and still is, so none of them has the number 0. -/
structure Owns (k₀ k : FdTable) (own : Finset Int32) : Prop where
  stdin : 0 ∈ k₀.fds
  fds : k.fds = k₀.fds ∪ own
  fresh : ∀ fd ∈ own, fd ∉ k₀.fds
  /-- what was watched by what was there -/
  watches : ∀ epfd ∈ k₀.fds, ∀ fd ∈ k₀.fds, (epfd, fd) ∈ k.watches ↔ (epfd, fd) ∈ k₀.watches

variable {sys k} {k₀ k₁ k₂ : FdTable} {own own' : Finset Int32} {fd : Int32}

theorem Owns.refl (h : 0 ∈ k.fds) : Owns k k ∅ := by
  refine ⟨h, ?_, ?_, fun _ _ _ _ => Iff.rfl⟩
  · simp
  · simp

/-- -1 is no descriptor. -/
theorem neg_one_notMem : (-1 : Int32) ∉ k.fds := fun h => absurd (k.nonneg _ h) (by decide)

/-- What was open before stays open. -/
theorem Owns.subset (h : Owns k₀ k own) : k₀.fds ⊆ k.fds := by
  rw [h.fds]
  exact Finset.subset_union_left

theorem Owns.own_subset (h : Owns k₀ k own) : own ⊆ k.fds := by
  rw [h.fds]
  exact Finset.subset_union_right

/-- Nothing is left of a program that owns nothing. -/
theorem Owns.fds_eq (h : Owns k₀ k ∅) : k.fds = k₀.fds := by
  simpa using h.fds

theorem Owns.pos (h : Owns k₀ k own) (hfd : fd ∈ own) : 0 < fd := by
  have hle : 0 ≤ fd := k.nonneg fd (h.own_subset hfd)
  have hne : fd ≠ 0 := by
    rintro rfl
    exact h.fresh 0 hfd h.stdin
  rw [Int32.lt_iff_toInt_lt]
  rw [Int32.le_iff_toInt_le] at hle
  have hne' : fd.toInt ≠ (0 : Int32).toInt := fun heq => hne (Int32.toInt_inj.mp heq)
  omega

theorem Owns.not_neg (h : Owns k₀ k own) (hfd : fd ∈ own) : ¬ fd < 0 := Int32.lt_asymm (h.pos hfd)

/-- A descriptor that is open and was not there at the beginning is owned. -/
theorem Owns.mem_own (h : Owns k₀ k own) (hfd : fd ∈ k.fds) (hnot : fd ∉ k₀.fds) : fd ∈ own := by
  rw [h.fds, Finset.mem_union] at hfd
  exact hfd.resolve_left hnot

/-- One program after the other. -/
theorem Owns.trans (h : Owns k₀ k₁ own) (h' : Owns k₁ k₂ own') : Owns k₀ k₂ (own ∪ own') := by
  refine ⟨h.stdin, ?_, ?_, ?_⟩
  · rw [h'.fds, h.fds, Finset.union_assoc]
  · intro fd hfd
    rcases Finset.mem_union.mp hfd with hfd | hfd
    · exact h.fresh fd hfd
    · exact fun hmem => h'.fresh fd hfd (h.subset hmem)
  -- what was watched at the beginning is there for both programs
  · intro epfd hep fd hfd
    rw [h'.watches epfd (h.subset hep) fd (h.subset hfd), h.watches epfd hep fd hfd]

/-- A call that changes nothing. -/
theorem Owns.tick (h : Owns k₀ k own) : Owns k₀ k.tick own :=
  ⟨h.stdin, h.fds, h.fresh, h.watches⟩

/-- What a call that opens a descriptor has done. -/
inductive Opens (k₀ : FdTable) (own : Finset Int32) : Int32 × FdTable → Prop
  /-- nothing -/
  | fails {k : FdTable} (h : Owns k₀ k own) : Opens k₀ own (-1, k)
  /-- One more is owned. -/
  | opens {fd : Int32} {k : FdTable} (hnot : fd ∉ own) (h : Owns k₀ k (insert fd own)) :
      Opens k₀ own (fd, k)

theorem Owns.openFd (h : Owns k₀ k own) (sys : System) : Opens k₀ own (k.openFd sys) := by
  unfold FdTable.openFd
  split_ifs
  · exact .fails h.tick
  · split
    · exact .fails h.tick
    · next fd hfresh =>
      -- a new number is none of those there, nor of those opened since
      have hnot := sys.notMem _ _ hfresh
      rw [h.fds, Finset.notMem_union] at hnot
      have hfds : insert fd k.fds = k₀.fds ∪ insert fd own := by rw [h.fds, Finset.union_insert]
      refine .opens hnot.2 ⟨h.stdin, hfds, ?_, h.watches⟩
      intro fd' hfd'
      rcases Finset.mem_insert.mp hfd' with rfl | hfd'
      · exact hnot.1
      · exact h.fresh fd' hfd'

theorem openFd_not_neg {n : ℕ} (h : sys.Unfailing n) (hcard : k.fds.card < n) :
    ¬ (k.openFd sys).1 < 0 := by
  unfold FdTable.openFd
  rw [if_neg (by simp [h.fails])]
  split
  · next hfresh => exact absurd hfresh (h.fresh k.fds hcard)
  · next fd hfresh => exact Int32.not_lt.mpr (sys.nonneg _ _ hfresh)

theorem card_openFd_le : (k.openFd sys).2.fds.card ≤ k.fds.card + 1 := by
  unfold FdTable.openFd
  split_ifs
  · exact Nat.le_succ _
  · split
    · exact Nat.le_succ _
    · exact Finset.card_insert_le _ _

theorem subset_openFd : k.fds ⊆ (k.openFd sys).2.fds := by
  unfold FdTable.openFd
  split_ifs
  · exact Finset.Subset.refl _
  · split
    · exact Finset.Subset.refl _
    · exact Finset.subset_insert _ _

theorem Owns.useFd (h : Owns k₀ k own) (sys : System) (fd : Int32) :
    Owns k₀ (k.useFd sys fd).2 own := h.tick

theorem Owns.request (h : Owns k₀ k own) (sys : System) : Owns k₀ (k.request sys).2 own := h.tick

theorem Owns.lookup (h : Owns k₀ k own) (sys : System) : Owns k₀ (k.lookup sys).2 own := h.tick

/-- An epoll descriptor of one's own may watch anything. -/
theorem Owns.watch (h : Owns k₀ k own) (sys : System) {epfd : Int32} (hep : epfd ∉ k₀.fds)
    (fd : Int32) : Owns k₀ (k.watch sys epfd fd).2 own := by
  unfold FdTable.watch
  split_ifs with hok
  · refine ⟨h.stdin, h.fds, h.fresh, ?_⟩
    intro epfd' hep' fd' hfd'
    have hne : (epfd', fd') ≠ (epfd, fd) := by
      intro heq
      rw [(Prod.mk.inj heq).1] at hep'
      exact hep hep'
    show (epfd', fd') ∈ insert (epfd, fd) k.watches ↔ _
    rw [Finset.mem_insert, or_iff_right hne, h.watches epfd' hep' fd' hfd']
  · exact h.tick

/-- What can be watched is open. -/
theorem mem_of_watch {epfd : Int32} (h : (k.watch sys epfd fd).1 = true) :
    epfd ∈ (k.watch sys epfd fd).2.fds ∧ fd ∈ (k.watch sys epfd fd).2.fds ∧
      (epfd, fd) ∈ (k.watch sys epfd fd).2.watches := by
  unfold FdTable.watch at h ⊢
  split_ifs at h ⊢ with hok
  exact ⟨hok.1, hok.2.1, Finset.mem_insert_self _ _⟩

/-- Closing what was not open at the beginning. -/
theorem Owns.close (h : Owns k₀ k own) (hfd : fd ∉ k₀.fds) :
    Owns k₀ (k.closeFd fd) (own.erase fd) := by
  refine ⟨h.stdin, ?_, ?_, ?_⟩
  · show k.fds.erase fd = _
    rw [h.fds, Finset.erase_union_distrib, Finset.erase_eq_of_notMem hfd]
  · intro fd' hfd'
    exact h.fresh fd' (Finset.mem_of_mem_erase hfd')
  · intro epfd hep fd' hfd'
    have hne : epfd ≠ fd ∧ fd' ≠ fd :=
      ⟨fun heq => hfd (heq ▸ hep), fun heq => hfd (heq ▸ hfd')⟩
    show (epfd, fd') ∈ k.watches.filter _ ↔ _
    rw [Finset.mem_filter, and_iff_left hne, h.watches epfd hep fd' hfd']

/-- `if(fd > 0) close(fd);`, for a number that may be 0 as it was at the beginning. -/
theorem Owns.close_pos (h : Owns k₀ k own) (hfd : fd ≠ 0 → fd ∉ k₀.fds) :
    Owns k₀ (if 0 < fd then k.closeFd fd else k) (own.erase fd) := by
  split_ifs with hpos
  · refine h.close (hfd ?_)
    rintro rfl
    exact Int32.lt_irrefl hpos
  · -- a number that is owned is positive
    rw [Finset.erase_eq_of_notMem]
    · exact h
    · exact fun hmem => hpos (h.pos hmem)

/-- Closing what has just been opened. -/
theorem Owns.close_opened (h : Owns k₀ k (insert fd own)) (hnot : fd ∉ own) :
    Owns k₀ (k.closeFd fd) own := by
  have hclose := h.close (h.fresh fd (Finset.mem_insert_self _ _))
  rwa [Finset.erase_insert hnot] at hclose

end FdTable

end Rubo.Foundation
