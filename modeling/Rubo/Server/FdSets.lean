import Rubo.Server.GateIO

/-!
# One Worker per Descriptor

`_fd_set` says which worker serves a descriptor. The IO thread inserts into the
set of the worker `get_worker` returns, the worker erases, and new workers come
at the end of the list. No descriptor is ever in two sets, although nothing in
the code says so: `get_worker` takes the first worker that has the descriptor in
its set or as its Logic connection, so the worker with the descriptor in its set
must not have one of the other kind in front of it (`InOrder`).

- `inOrder_run`: this is kept by workers starting, users logging in and workers
  calling `del_fd`, in any order and with any descriptors;
- `one_worker_per_descriptor`: what follows for the sets and for `get_worker`.
-/

namespace Rubo.Server.GateIO

open Rubo.Foundation Rubo.Msgs Rubo.Util

/-! ## The steps that concern the sets -/

/-- A step that looks at the sets or changes one. -/
inductive FdAct where
  /-- A Logic connection is verified: `on_logic_verifyed(user)`. -/
  | verifyed (user : User) (workerInit : Int32 → Bool)
  /-- A user logs in: `on_user_logined(user, user_id)`. -/
  | logined (user : User) (userId : Int32) (rsp : UserMsg)
  /-- A worker calls `del_fd(fd)`. -/
  | delFd (i : ℕ) (fd : Int32)

/-- One step; the users may have any descriptor, also one that is in use. -/
def fdStep (g : GateIO) : FdAct → GateIO
  | .verifyed user workerInit =>
    let (p, heap) := g.heap.alloc user
    { g with heap := heap }.onLogicVerifyed p workerInit
  | .logined user userId rsp =>
    let (p, heap) := g.heap.alloc user
    { g with heap := heap }.onUserLogined p userId rsp
  | .delFd i fd => g.modifyWorker i fun w => w.delFd fd

/-- The workers are in order: in front of a worker that has a descriptor in its set
there is none that has it in its set or as its Logic connection. -/
def InOrder (wokers : List GateWorker) : Prop :=
  ∀ (i : ℕ) (w : GateWorker) (fd : Int32), wokers[i]? = some w → fd ∈ w.fdSet →
    ∀ (j : ℕ) (v : GateWorker), j < i → wokers[j]? = some v → fd ∉ v.fdSet ∧ v.getLogicfd ≠ fd

/-! ## What the order gives -/

variable {g : GateIO} {wokers wokers' : List GateWorker} {i j : ℕ} {w v : GateWorker} {fd : Int32}

theorem InOrder.eq_of_mem (h : InOrder wokers) (hw : wokers[i]? = some w) (hfd : fd ∈ w.fdSet)
    (hv : wokers[j]? = some v) (hfd' : fd ∈ v.fdSet) : j = i := by
  rcases Nat.lt_trichotomy j i with hlt | heq | hlt
  · exact absurd hfd' (h i w fd hw hfd j v hlt hv).1
  · exact heq
  · exact absurd hfd (h j v fd hv hfd' i w hlt hw).1

/-- `get_worker` finds the worker with the descriptor in its set. -/
theorem InOrder.getWorker_eq (h : InOrder g.wokers) (hw : g.wokers[i]? = some w)
    (hfd : fd ∈ w.fdSet) : g.getWorker fd = some i := by
  obtain ⟨hlt, rfl⟩ := List.getElem?_eq_some_iff.mp hw
  have hidx : g.wokers.findIdx? (fun w => w.isFdIn fd || w.getLogicfd == fd) = some i := by
    refine List.findIdx?_eq_some_iff_getElem.mpr ⟨hlt, by simp [GateWorker.isFdIn, hfd], ?_⟩
    intro j hj
    obtain ⟨hnot, hlogic⟩ := h i _ fd hw hfd j _ hj (List.getElem?_eq_getElem (hj.trans hlt))
    simp [GateWorker.isFdIn, hnot, hlogic]
  rw [getWorker, Comm.findWorker, hidx]

/-! ## What a step does to it -/

theorem inOrder_nil : InOrder [] := by
  intro i w fd hw
  cases hw

/-- A new worker has nothing in its set. -/
theorem InOrder.concat (h : InOrder wokers) (hempty : w.fdSet = ∅) : InOrder (wokers ++ [w]) := by
  intro i u fd hu hfd j v hlt hv
  by_cases hi : i < wokers.length
  · rw [List.getElem?_append_left hi] at hu
    rw [List.getElem?_append_left (hlt.trans hi)] at hv
    exact h i u fd hu hfd j v hlt hv
  · -- the new one
    obtain rfl : w = u := by
      rw [List.getElem?_append_right (Nat.le_of_not_lt hi)] at hu
      exact (List.mem_singleton.mp (List.mem_of_getElem? hu)).symm
    rw [hempty] at hfd
    cases hfd

/-- A worker whose set has only lost descriptors. -/
theorem InOrder.modify_of_subset (h : InOrder wokers) {f : GateWorker → GateWorker}
    (hset : ∀ w, (f w).fdSet ⊆ w.fdSet) (hlogic : ∀ w, (f w).getLogicfd = w.getLogicfd) (k : ℕ) :
    InOrder (wokers.modify k f) := by
  have hold : ∀ {i : ℕ} {w : GateWorker}, (wokers.modify k f)[i]? = some w →
      ∃ u, wokers[i]? = some u ∧ w.fdSet ⊆ u.fdSet ∧ w.getLogicfd = u.getLogicfd := by
    intro i w hw
    obtain ⟨u, hu, rfl⟩ := getElem?_modify_eq_some hw
    split_ifs
    · exact ⟨u, hu, hset u, hlogic u⟩
    · exact ⟨u, hu, Finset.Subset.refl _, rfl⟩
  intro i w fd hw hfd j v hlt hv
  obtain ⟨u, hu, hsub, _⟩ := hold hw
  obtain ⟨u', hu', hsub', hlogic'⟩ := hold hv
  obtain ⟨hnot, hne⟩ := h i u fd hu (hsub hfd) j u' hlt hu'
  exact ⟨fun hmem => hnot (hsub' hmem), hlogic' ▸ hne⟩

/-- A descriptor is inserted where `get_worker` says. -/
theorem InOrder.insert (h : InOrder g.wokers) {k : ℕ} (hk : g.getWorker fd = some k)
    {f : GateWorker → GateWorker} (hset : ∀ w, (f w).fdSet = Insert.insert fd w.fdSet)
    (hlogic : ∀ w, (f w).getLogicfd = w.getLogicfd) : InOrder (g.wokers.modify k f) := by
  obtain ⟨u, hu, hchoice⟩ := Comm.findWorker_eq_some hk
  -- in front of the chosen worker nobody has the descriptor
  have hbefore : ∀ j v, j < k → g.wokers[j]? = some v → fd ∉ v.fdSet ∧ v.getLogicfd ≠ fd := by
    intro j v hlt hv
    have hhas : (v.isFdIn fd || v.getLogicfd == fd) = false := by
      rcases hchoice with ⟨_, hfirst⟩ | ⟨hnobody, _⟩
      · exact hfirst j hlt v hv
      · exact hnobody v (List.mem_of_getElem? hv)
    simpa [GateWorker.isFdIn] using hhas
  -- and behind it nobody has it in its set
  have hbehind : ∀ i w, k < i → g.wokers[i]? = some w → fd ∉ w.fdSet := by
    intro i w hlt hw hfd
    rcases hchoice with ⟨hhas, _⟩ | ⟨hnobody, _⟩
    · obtain ⟨hnot, hne⟩ := h i w fd hw hfd k u hlt hu
      simp [GateWorker.isFdIn, hnot, hne] at hhas
    · have hhas := hnobody w (List.mem_of_getElem? hw)
      simp [GateWorker.isFdIn, hfd] at hhas
  have hmem : ∀ {i : ℕ} {w u : GateWorker} {fd' : Int32}, w = (if k = i then f u else u) →
      fd' ∈ w.fdSet → fd' ∈ u.fdSet ∨ k = i ∧ fd' = fd := by
    rintro i w u fd' rfl hfd'
    split_ifs at hfd' with hki
    · rw [hset, Finset.mem_insert] at hfd'
      exact hfd'.symm.imp id fun heq => ⟨hki, heq⟩
    · exact .inl hfd'
  intro i w fd' hw hfd' j v hlt hv
  obtain ⟨u, hu, hmoved⟩ := getElem?_modify_eq_some hw
  obtain ⟨u', hu', hmoved'⟩ := getElem?_modify_eq_some hv
  have hlogic' : v.getLogicfd = u'.getLogicfd := by
    rw [hmoved']
    split_ifs
    · exact hlogic u'
    · rfl
  rcases hmem hmoved hfd' with hold | ⟨rfl, rfl⟩
  · obtain ⟨hnot, hne⟩ := h i u fd' hu hold j u' hlt hu'
    refine ⟨fun hfd'' => ?_, hlogic' ▸ hne⟩
    rcases hmem hmoved' hfd'' with hold' | ⟨rfl, rfl⟩
    · exact hnot hold'
    · -- the chosen worker is in front of one with the descriptor
      exact hbehind i u hlt hu hold
  · obtain ⟨hnot, hne⟩ := hbefore j u' hlt hu'
    refine ⟨fun hfd'' => ?_, hlogic' ▸ hne⟩
    rcases hmem hmoved' hfd'' with hold' | ⟨rfl, _⟩
    · exact hnot hold'
    · exact Nat.lt_irrefl _ hlt

/-! ## Every step, every run -/

theorem wokers_onLogicVerifyed (g : GateIO) (user : Ptr) (workerInit : Int32 → Bool) :
    (g.onLogicVerifyed user workerInit).wokers = g.wokers ∨
      (g.onLogicVerifyed user workerInit).wokers =
        g.wokers ++ [GateWorker.init (g.node user).sfd] := by
  unfold onLogicVerifyed
  simp only
  split_ifs
  · exact .inl rfl
  · exact .inr rfl

theorem inOrder_onUserLogined (h : InOrder g.wokers) (user : Ptr) (userId : Int32) (rsp : UserMsg) :
    InOrder (g.onUserLogined user userId rsp).wokers := by
  have hfind : ∀ users : Table Int32 Ptr,
      GateIO.getWorker { g with unloginUsers := users } = g.getWorker := fun _ => rfl
  unfold onUserLogined
  simp only [hfind]
  cases hk : g.getWorker (g.node user).sfd with
  | none => exact h
  | some k => exact h.insert hk (fun _ => rfl) fun _ => rfl

theorem inOrder_fdStep (g : GateIO) (act : FdAct) (h : InOrder g.wokers) :
    InOrder (g.fdStep act).wokers := by
  cases act with
  | verifyed user workerInit =>
      rcases wokers_onLogicVerifyed { g with heap := (g.heap.alloc user).2 } (g.heap.alloc user).1
        workerInit with hsame | hnew
      · exact (congrArg InOrder hsame).mpr h
      · exact (congrArg InOrder hnew).mpr (h.concat rfl)
  | logined user userId rsp =>
      exact inOrder_onUserLogined (g := { g with heap := (g.heap.alloc user).2 }) h _ userId rsp
  | delFd i fd =>
      exact h.modify_of_subset (f := fun w => w.delFd fd)
        (fun w => Finset.erase_subset fd w.fdSet) (fun _ => rfl) i

theorem inOrder_run (sockFd : Int32) (acts : List FdAct) :
    InOrder (Rubo.Foundation.run fdStep (init sockFd) acts).wokers :=
  run_invariant (I := fun g : GateIO => InOrder g.wokers) inOrder_fdStep inOrder_nil acts

/-- **One worker per descriptor**: however workers start, users log in and workers
call `del_fd`, a descriptor in the set of a worker is in no other set, and
`get_worker` finds that worker. -/
theorem one_worker_per_descriptor (sockFd : Int32) (acts : List FdAct) {i : ℕ} {w : GateWorker}
    {fd : Int32} (hw : (Rubo.Foundation.run fdStep (init sockFd) acts).wokers[i]? = some w)
    (hfd : fd ∈ w.fdSet) :
    (∀ (j : ℕ) (v : GateWorker),
      (Rubo.Foundation.run fdStep (init sockFd) acts).wokers[j]? = some v → fd ∈ v.fdSet → j = i) ∧
      (Rubo.Foundation.run fdStep (init sockFd) acts).getWorker fd = some i :=
  ⟨fun _ _ hv hfd' => (inOrder_run sockFd acts).eq_of_mem hw hfd hv hfd',
    (inOrder_run sockFd acts).getWorker_eq hw hfd⟩

/-- A user with a descriptor that later is a Logic connection's too. -/
theorem one_worker_seven :
    (Rubo.Foundation.run fdStep (init 3)
      [.verifyed { sock := some { sfd := 5 } } fun _ => true,
        .logined { sock := some { sfd := 7 } } 1 { msg := Message.new .loginRsp },
        .verifyed { sock := some { sfd := 7 } } fun _ => true]).getWorker 7 = some 0 :=
  (one_worker_per_descriptor 3
    [.verifyed { sock := some { sfd := 5 } } fun _ => true,
      .logined { sock := some { sfd := 7 } } 1 { msg := Message.new .loginRsp },
      .verifyed { sock := some { sfd := 7 } } fun _ => true] (i := 0) rfl (by decide)).2

end Rubo.Server.GateIO
