import Rubo.Server.Descriptors

/-!
# Users and Their Logic Connection

A worker stands for one Logic connection. When that connection ends, the worker
stays, with its `_logic_fd` and the socket of `_logic` as they were: GateIO goes
on handing it users, and what they send is written to a descriptor that is closed
or belongs to somebody else by then.

- `liveTraffic_of_along`: nothing of this happens in a run in which another worker
  is preferred to one without Logic connection whenever a login succeeds, and a
  worker without Logic connection gathers nothing for Logic.
- `not_liveTraffic_logicOffline`: Logic ends, and the next client gets its number.
-/

namespace Rubo.Server

open Rubo.Foundation Rubo.Msgs Rubo.Util

namespace GateWorker

variable (rt : Runtime) {w w' : GateWorker}

/-! ## One worker -/

/-- The socket of `_logic` keeps its descriptor. -/
theorem stageInvariant_logicNode (fd : Int32) :
    StageInvariant rt (fun _ _ _ => True)
      (fun w => WellFormed rt w ∧ (w.node w.logic).sfd = fd) where
  wellFormed h := h.1
  calm h hc hq := by
    refine ⟨h.1.of_calm hc hq, ?_⟩
    rw [hc.sameConns.logic, hc.sameConns.sfd]
    exact h.2
  connect {w} ev h := by
    refine ⟨wellFormed_onNewConnect h.1 ev, ?_⟩
    have hlogic : (w.onNewConnect ev).logic = w.logic := rfl
    rw [hlogic, node_onNewConnect, if_neg (Nat.ne_of_lt h.1.logic_lt)]
    exact h.2
  serve {w user} io h hlive _ := by
    refine ⟨wellFormed_serveUser h.1 io hlive.1, ?_⟩
    rw [(sameConns_serveUser io w user).logic, (sameConns_serveUser io w user).sfd]
    exact h.2
  parse {w user} h hlt := by
    obtain ⟨msgs, hparse⟩ := parseUser_spec rt w user
    refine ⟨wellFormed_parseUser h.1 hlt, ?_⟩
    rw [hparse.sameConns.logic, hparse.sameConns.sfd]
    exact h.2

/-- What holds of a worker of the Gate: it was built by the CONNECT events handed
over so far, and neither these nor those still in its inbox are for the descriptor
of Logic. -/
structure Attached (w : GateWorker) : Prop where
  apart : ∃ evs, Apart rt evs { w with ioevsIn := [] } ∧ ∀ ev ∈ evs, ev.sfd ≠ w.logicFd
  inbox : ∀ ev ∈ w.ioevsIn ++ w.eventsIo, ev.event.has FdEvent.connect = true →
    ev.sfd ≠ w.logicFd
  logic : (w.node w.logic).sfd = w.logicFd

variable {rt}

theorem Attached.wellFormed (h : Attached rt w) : WellFormed rt w := by
  obtain ⟨evs, hapart, _⟩ := h.apart
  exact hapart.idle.wellFormed.of_calm (Calm.of_eq rfl rfl rfl rfl rfl) rfl

theorem Attached.epevUsers (h : Attached rt w) : w.epevUsers = [] := by
  obtain ⟨evs, hapart, _⟩ := h.apart
  exact hapart.idle.epevUsers

/-- No user connection has the descriptor of the Logic connection. -/
theorem Attached.sfd_ne (h : Attached rt w) {p : Ptr} (hp : w.IsConn p) :
    (w.node p).sfd ≠ (w.node w.logic).sfd := by
  obtain ⟨evs, hapart, hne⟩ := h.apart
  obtain ⟨ev, hev⟩ := hapart.created.exists_event hp
  have hsfd : (w.node p).sfd = ev.sfd := (hapart.created.made hev).2.1
  obtain ⟨n, _, hn⟩ := hev
  rw [hsfd, h.logic]
  exact hne ev (List.mem_of_getElem? hn)

theorem attached_init (logicFd : Int32) : Attached rt (init logicFd) where
  apart := ⟨[], apart_init logicFd, by simp⟩
  inbox := by
    intro ev hev
    cases hev
  logic := rfl

theorem Apart.of_inbox {evs : List EventNode} (h : Apart rt evs w)
    (heq : w' = { w with eventsIo := w'.eventsIo, ioevsIn := w'.ioevsIn, fdSet := w'.fdSet })
    (hin : w'.ioevsIn = []) : Apart rt evs w' := by
  have hcalm : Calm w w' := by
    rw [heq]
    exact Calm.of_eq rfl rfl rfl rfl rfl
  have hqueue : w'.queue = w.queue := by
    rw [heq]
    rfl
  refine ⟨⟨h.idle.wellFormed.of_calm hcalm hqueue, ?_, ?_⟩, h.uidTable.of_calm hcalm,
    h.created.of_sameConns hcalm.sameConns, hin⟩
  · rw [heq]
    exact h.idle.userMsgsIn
  · rw [heq]
    exact h.idle.epevUsers

/-- Changes to the inbox. -/
theorem Attached.of_inbox (h : Attached rt w)
    (heq : w' = { w with eventsIo := w'.eventsIo, ioevsIn := w'.ioevsIn, fdSet := w'.fdSet })
    (hinbox : ∀ ev ∈ w'.ioevsIn ++ w'.eventsIo, ev.event.has FdEvent.connect = true →
      ev.sfd ≠ w.logicFd) : Attached rt w' := by
  have hlogicFd : w'.logicFd = w.logicFd := by rw [heq]
  refine ⟨?_, ?_, ?_⟩
  · obtain ⟨evs, hapart, hne⟩ := h.apart
    refine ⟨evs, hapart.of_inbox ?_ rfl, ?_⟩
    · rw [heq]
    · rw [hlogicFd]
      exact hne
  · rw [hlogicFd]
    exact hinbox
  · rw [heq]
    exact h.logic

theorem Attached.of_mild (h : Attached rt w) (hm : GateIO.Mild w w') : Attached rt w' := by
  apply h.of_inbox
  · rw [hm.eq]
  · intro ev hev hconnect
    exact h.inbox ev (hm.connects ev hev hconnect) hconnect

/-- A worker may be handed any connection but that of its Logic. -/
theorem Attached.handOver {fd : Int32} (h : Attached rt w) (uid : Int32) (hne : fd ≠ w.logicFd) :
    Attached rt <| GateIO.handOver fd uid w := by
  apply h.of_inbox rfl
  intro ev hev hconnect
  have hcases : ev ∈ w.ioevsIn ++ w.eventsIo ∨ ev.sfd = fd := by
    simp only [List.mem_append, List.mem_singleton, GateIO.handOver] at hev ⊢
    rcases hev with hin | hio | rfl
    · exact .inl (.inl hin)
    · exact .inl (.inr hio)
    · exact .inr rfl
  rcases hcases with hold | heq
  · exact h.inbox ev hold hconnect
  · rw [heq]
    exact hne

/-- What the IO thread has handed over counts as the events of the round. -/
theorem threadLoop_handed (w : GateWorker) (r : WorkerRound) :
    w.threadLoop rt { r with ioevs := [] } =
      threadLoop rt { w with ioevsIn := [] } { r with ioevs := w.ioevsIn } := by
  unfold threadLoop
  simp only [List.append_nil, List.nil_append]
  rfl

theorem Attached.gathered (h : Attached rt w) (r : WorkerRound) :
    ((w.gathered rt r).node (w.gathered rt r).logic).sfd = w.logicFd := by
  have hread := (stageInvariant_logicNode rt w.logicFd).readIn ⟨h.wellFormed, h.logic⟩
    h.epevUsers (along_true (w.marked r) (w.marked r).epevUsers)
  exact ((stageInvariant_logicNode rt w.logicFd).parsed hread hread.1.rdUsers_lt).2

theorem Attached.threadLoop (h : Attached rt w) (r : WorkerRound) :
    Attached rt (w.threadLoop rt { r with ioevs := [] }) := by
  obtain ⟨hlogicFd, hin, hio⟩ := threadLoop_inbox rt w { r with ioevs := [] }
  refine ⟨?_, ?_, ?_⟩
  · obtain ⟨evs, hapart, hne⟩ := h.apart
    have hnext := apart_threadLoop hapart { r with ioevs := w.ioevsIn }
    rw [← threadLoop_handed] at hnext
    refine ⟨evs ++ connects [{ r with ioevs := w.ioevsIn }], hnext.of_inbox rfl rfl, ?_⟩
    intro ev hev
    rw [hlogicFd]
    rcases List.mem_append.mp hev with hold | hnew
    · exact hne ev hold
    · -- one of the events handed over
      have hmem : ev ∈ w.ioevsIn ∧ ev.event.has FdEvent.connect = true := by
        simpa [connects] using hnew
      exact h.inbox ev (List.mem_append_left _ hmem.1) hmem.2
  · rw [hlogicFd, hin, hio]
    intro ev hev hconnect
    exact h.inbox ev (List.mem_append_right _ hev) hconnect
  · rw [hlogicFd]
    exact ((stageInvariant_logicNode rt w.logicFd).threadLoop ⟨h.wellFormed, h.logic⟩ h.epevUsers
      (along_true _ _)).2

end GateWorker

namespace GateIO

variable (rt : Runtime) {g g' : GateIO}

/-! ## What should hold -/

/-- The Logic connection of the worker is open. -/
def Ledger.live (l : Ledger) (worker : ℕ) : Bool :=
  match l.logics[worker]? with
  | some (_, live) => live
  | none => false

/-- Users are handed to workers whose Logic connection is open, and messages for
Logic are written to that connection. -/
def Ledger.Admits (l : Ledger) : Movement → Prop
  | .handed _ worker => l.live worker = true
  | .forwarded fd worker => l.logics[worker]? = some (fd, true)
  | _ => True

/-- All user traffic of the run has reached a live Logic connection, and no user
connection has the descriptor of its worker's Logic socket. -/
structure LiveTraffic (s : Traced) : Prop where
  movements : Along Ledger.note Ledger.Admits .empty s.2
  apart : ∀ w ∈ s.1.wokers, ∀ p, w.IsConn p → (w.node p).sfd ≠ (w.node w.logic).sfd

/-! ## The condition -/

/-- The kernel's promise: a new connection gets a descriptor that is not open. -/
def freshAccepts : Condition where
  accept s fd := (Ledger.of s.2).isOpen fd = false
  reply _ _ _ := True
  worker _ _ _ := True

/-- The worker knows the descriptor: as one of its users', or as that of Logic. -/
def knows (w : GateWorker) (fd : Int32) : Bool := w.isFdIn fd || w.getLogicfd == fd

/-- For a user with this descriptor, the worker `w` at position `k` comes before the
worker `v` at position `j`: it knows the descriptor and `v` does not, or it has
fewer users, or it stands earlier. -/
def Before (fd : Int32) (w : GateWorker) (k : ℕ) (v : GateWorker) (j : ℕ) : Prop :=
  (knows w fd = true ∧ (knows v fd = false ∨ k < j)) ∨
    (knows v fd = false ∧ (w.fdNum < v.fdNum ∨ (w.fdNum = v.fdNum ∧ k < j)))

/-- The worker at position `j` is not the one to get a user with this descriptor:
it is full, or another one comes before it. -/
def PassedOver (wokers : List GateWorker) (fd : Int32) (v : GateWorker) (j : ℕ) : Prop :=
  (knows v fd = false ∧ Comm.uintMax ≤ v.fdNum) ∨
    ∃ c ∈ wokers.zipIdx, Before fd c.1 c.2 v j

/-- Whenever a login succeeds, the workers without Logic connection are passed over,
and such a worker gathers nothing for Logic. -/
def logicsKept : Condition where
  accept _ _ := True
  reply _ s msg := IsLogin msg → ∀ user ∈ s.1.getUnloginUser msg.sfd, ∀ c ∈ s.1.wokers.zipIdx,
    (Ledger.of s.2).live c.2 = false → PassedOver s.1.wokers (s.1.node user).sfd c.1 c.2
  worker s i r := ∀ w ∈ s.1.wokers[i]?,
    (Ledger.of (s.2 ++ (workerClosed rt w r).map .closed)).live i = false →
      (w.gathered rt r).userMsgsIn = []

instance (fd : Int32) (w : GateWorker) (k : ℕ) (v : GateWorker) (j : ℕ) :
    Decidable (Before fd w k v j) := inferInstanceAs (Decidable (_ ∨ _))

instance (wokers : List GateWorker) (fd : Int32) (v : GateWorker) (j : ℕ) :
    Decidable (PassedOver wokers fd v j) := inferInstanceAs (Decidable (_ ∨ _))

instance (s : Traced) (fd : Int32) : Decidable (freshAccepts.accept s fd) :=
  inferInstanceAs (Decidable (_ = _))

instance (f : Int32 → Bool) (s : Traced) (msg : UserMsg) : Decidable (freshAccepts.reply f s msg) :=
  inferInstanceAs (Decidable True)

instance (s : Traced) (i : ℕ) (r : WorkerRound) : Decidable (freshAccepts.worker s i r) :=
  inferInstanceAs (Decidable True)

instance (s : Traced) (fd : Int32) : Decidable ((logicsKept rt).accept s fd) :=
  inferInstanceAs (Decidable True)

instance (f : Int32 → Bool) (s : Traced) (msg : UserMsg) :
    Decidable ((logicsKept rt).reply f s msg) := inferInstanceAs (Decidable (_ → _))

instance (s : Traced) (i : ℕ) (r : WorkerRound) : Decidable ((logicsKept rt).worker s i r) :=
  inferInstanceAs (Decidable (∀ w ∈ s.1.wokers[i]?,
    _ = false → (w.gathered rt r).userMsgsIn = []))

/-- Nobody is chosen who is passed over. -/
theorem PassedOver.not_chosen {fd : Int32} {v : GateWorker} {j : ℕ}
    (h : PassedOver g.wokers fd v j) (hv : g.wokers[j]? = some v) : g.getWorker fd ≠ some j := by
  intro hchosen
  obtain ⟨w, hw, hcases⟩ := Comm.findWorker_eq_some hchosen
  obtain rfl : v = w := Option.some.inj (hv.symm.trans hw)
  have hknows : ∀ u : GateWorker, (u.isFdIn fd || u.getLogicfd == fd) = knows u fd := fun _ => rfl
  simp only [hknows] at hcases
  rcases h with ⟨hnot, hfull⟩ | ⟨⟨u, k⟩, hu, hbefore⟩
  · -- full
    rcases hcases with ⟨hhas, _⟩ | ⟨_, hlt, _⟩
    · rw [hnot] at hhas
      cases hhas
    · exact absurd hlt (Nat.not_lt_of_le hfull)
  · have hk : g.wokers[k]? = some u := List.mem_zipIdx_iff_getElem?.mp hu
    rcases hcases with ⟨hhas, hfirst⟩ | ⟨hnobody, _, hmin⟩
    · -- it knows the descriptor, and nobody before it does
      rcases hbefore with ⟨hu, hnot | hlt⟩ | ⟨hnot, _⟩
      · rw [hnot] at hhas
        cases hhas
      · rw [hfirst k hlt u hk] at hu
        cases hu
      · rw [hnot] at hhas
        cases hhas
    · -- nobody knows it, and it is the first one with the fewest
      rcases hbefore with ⟨hu, _⟩ | ⟨_, hlt | ⟨heq, hlt⟩⟩
      · rw [hnobody u (List.mem_of_getElem? hk)] at hu
        cases hu
      · exact absurd hlt (Nat.not_lt_of_le (hmin k u hk).1)
      · exact absurd heq.symm (Nat.ne_of_lt ((hmin k u hk).2 hlt))

/-! ## The invariant -/

theorem Ledger.along_closed (fds : List Int32) (l : Ledger) :
    Along note Admits l (fds.map .closed) := by
  induction fds generalizing l with
  | nil => trivial
  | cons fd fds ih => exact ⟨trivial, ih _⟩

/-- What holds between any two stages. -/
structure Sheltered (s : Traced) : Prop where
  keyed : Keyed s.1
  admitted : Along Ledger.note Ledger.Admits .empty s.2
  /-- The ledger has an entry for each worker. -/
  logics : (Ledger.of s.2).logics.map Prod.fst = s.1.wokers.map GateWorker.getLogicfd
  /-- The descriptor of a live Logic connection is nobody else's. -/
  live : ∀ (i : ℕ) (fd : Int32), (Ledger.of s.2).logics[i]? = some (fd, true) →
    (Ledger.of s.2).isOpen fd = true ∧ s.1.unloginUsers.find fd = none
  attached : ∀ w ∈ s.1.wokers, GateWorker.Attached rt w

theorem sheltered_init (sockFd : Int32) : Sheltered rt (init sockFd, []) where
  keyed := keyed_init sockFd
  admitted := trivial
  logics := rfl
  live i fd h := by cases h
  attached w hw := by cases hw

variable {rt} {log ms : List Movement}

/-- A worker whose Logic connection is open has the descriptor noted. -/
theorem Sheltered.noted (h : Sheltered rt (g, log)) {w : GateWorker} {i : ℕ}
    (hw : g.wokers[i]? = some w) (hlive : (Ledger.of log).live i = true) :
    (Ledger.of log).logics[i]? = some (w.logicFd, true) := by
  have hfst := congrArg (fun l => l[i]?) h.logics
  simp only [List.getElem?_map, hw, Option.map_some] at hfst
  unfold Ledger.live at hlive
  cases hentry : (Ledger.of log).logics[i]? with
  | none => simp [hentry] at hlive
  | some c =>
      obtain ⟨fd, live⟩ := c
      simp only [hentry, Option.map_some, Option.some.injEq] at hfst hlive
      rw [hfst, hlive]
      rfl

/-- Closing ends some Logic connections and starts none. -/
theorem Ledger.logics_closed {fds : List Int32} {l : Ledger} {i : ℕ} {fd : Int32}
    (h : ((fds.map Movement.closed).foldl note l).logics[i]? = some (fd, true)) :
    l.logics[i]? = some (fd, true) ∧ fd ∉ fds := by
  rw [(foldl_closed fds l).2, List.getElem?_map] at h
  cases hentry : l.logics[i]? with
  | none => simp [hentry] at h
  | some c =>
      obtain ⟨fd', live⟩ := c
      simp only [hentry, Option.map_some, Option.some.injEq, Prod.mk.injEq,
        Bool.and_eq_true, decide_eq_true_eq] at h
      obtain ⟨rfl, rfl, hnot⟩ := h
      exact ⟨rfl, hnot⟩

theorem Ledger.map_fst_closed (fds : List Int32) (l : Ledger) :
    ((fds.map Movement.closed).foldl note l).logics.map Prod.fst = l.logics.map Prod.fst := by
  rw [(foldl_closed fds l).2]
  simp

theorem Ledger.isOpen_closed {fds : List Int32} {l : Ledger} {fd : Int32} (h : fd ∉ fds) :
    ((fds.map Movement.closed).foldl note l).isOpen fd = l.isOpen fd := by
  simp [isOpen, (foldl_closed fds l).1, h]

theorem Sheltered.closes {fds : List Int32} (h : Sheltered rt (g, log)) (hc : Closes g g' fds) :
    Sheltered rt (g', log ++ fds.map .closed) where
  keyed := h.keyed.of_closes hc
  admitted := along_append.mpr ⟨h.admitted, Ledger.along_closed fds _⟩
  logics := by
    rw [Ledger.of_append, Ledger.map_fst_closed, Mild.map_getLogicfd hc.wokers]
    exact h.logics
  live i fd hentry := by
    rw [Ledger.of_append] at hentry ⊢
    obtain ⟨hold, hnot⟩ := Ledger.logics_closed hentry
    rw [Ledger.isOpen_closed hnot, hc.kept fd hnot]
    exact h.live i fd hold
  attached w' hw' := by
    obtain ⟨w, hw, hmild⟩ := Mild.exists_of_mem hc.wokers hw'
    exact (h.attached w hw).of_mild hmild

theorem Sheltered.accepts {fd : Int32} (h : Sheltered rt (g, log)) (ha : Accepts g g' fd)
    (hfresh : (Ledger.of log).isOpen fd = false) :
    Sheltered rt (g', log ++ [.accepted fd]) where
  keyed := h.keyed.of_accepts ha
  admitted := along_append.mpr ⟨h.admitted, trivial, trivial⟩
  logics := by
    rw [Ledger.of_concat, ha.wokers]
    exact h.logics
  live i d hentry := by
    rw [Ledger.of_concat] at hentry ⊢
    obtain ⟨hopen, hnone⟩ := h.live i d hentry
    -- the descriptor of a live Logic connection is open, so it is not the new one
    have hd : d ≠ fd := by
      rintro rfl
      rw [hopen] at hfresh
      cases hfresh
    refine ⟨?_, ?_⟩
    · simpa [Ledger.isOpen, Ledger.note, Table.find_set, hd] using hopen
    · rw [ha.unloginUsers, Table.find_insert, if_neg hd]
      exact hnone
  attached := by
    rw [ha.wokers]
    exact h.attached

/-- Handing over opens and closes nothing. -/
theorem Ledger.isOpen_handed (l : Ledger) (fd d : Int32) (i : ℕ) :
    (l.note (.handed fd i)).isOpen d = l.isOpen d ∧ (l.note (.handed fd i)).logics = l.logics := by
  unfold isOpen
  cases hconn : l.conns.find fd with
  | none => simp [note, hconn]
  | some ws =>
      by_cases hd : d = fd
      · simp [note, hconn, hd]
      · simp [note, hconn, Table.find_set, hd]

/-- The connection answered leaves the table; nobody else enters it. -/
theorem Leaves.find_eq_none {msg : UserMsg} {fd d : Int32} (hl : Leaves g g' msg fd)
    (h : g.unloginUsers.find d = none) : g'.unloginUsers.find d = none := by
  rw [hl.unloginUsers, Table.find_erase, h]
  exact ite_self _

/-- The connection leaves, and no worker gets it. -/
theorem Sheltered.leaves {msg : UserMsg} {fd : Int32} (h : Sheltered rt (g, log))
    (hl : Leaves g g' msg fd) (hkeyed : Keyed g') (hwokers : g'.wokers = g.wokers) :
    Sheltered rt (g', log) where
  keyed := hkeyed
  admitted := h.admitted
  logics := hwokers ▸ h.logics
  live i d hentry := (h.live i d hentry).imp_right hl.find_eq_none
  attached := hwokers ▸ h.attached

/-- The connection becomes the Logic connection of a new worker. -/
theorem Sheltered.verified {msg : UserMsg} {fd : Int32} (h : Sheltered rt (g, log))
    (hl : Leaves g g' msg fd) (hkeyed : Keyed g')
    (hwokers : g'.wokers = g.wokers ++ [GateWorker.init fd]) :
    Sheltered rt (g', log ++ [.verified fd]) where
  keyed := hkeyed
  admitted := along_append.mpr ⟨h.admitted, trivial, trivial⟩
  logics := by
    rw [Ledger.of_concat, hwokers]
    simp only [Ledger.note, List.map_append, h.logics]
    rfl
  live i d hentry := by
    rw [Ledger.of_concat] at hentry ⊢
    show (Ledger.of log).isOpen d = true ∧ _
    have hentry' : ((Ledger.of log).logics ++ [(fd, (Ledger.of log).isOpen fd)])[i]? =
        some (d, true) := hentry
    rcases List.mem_append.mp (List.mem_of_getElem? hentry') with hold | hnew
    · obtain ⟨j, hj⟩ := List.mem_iff_getElem?.mp hold
      exact (h.live j d hj).imp_right hl.find_eq_none
    · -- the new Logic connection
      simp only [List.mem_singleton, Prod.mk.injEq] at hnew
      obtain ⟨rfl, hopen⟩ := hnew
      refine ⟨hopen.symm, ?_⟩
      simp [hl.unloginUsers, Table.find_erase]
  attached w hw := by
    rw [hwokers] at hw
    rcases List.mem_append.mp hw with hold | hnew
    · exact h.attached w hold
    · rw [List.mem_singleton.mp hnew]
      exact GateWorker.attached_init fd

/-- The connection is handed to a worker with a live Logic connection. -/
theorem Sheltered.handed {msg : UserMsg} {fd : Int32} {uid : Int32} {i : ℕ}
    (h : Sheltered rt (g, log)) (hl : Leaves g g' msg fd) (hkeyed : Keyed g')
    (hlive : (Ledger.of log).live i = true)
    (hwokers : g'.wokers = g.wokers.modify i (handOver fd uid)) :
    Sheltered rt (g', log ++ [.handed fd i]) where
  keyed := hkeyed
  admitted := along_append.mpr ⟨h.admitted, hlive, trivial⟩
  logics := by
    rw [Ledger.of_concat, (Ledger.isOpen_handed _ fd fd i).2, hwokers,
      map_modify_eq (f := handOver fd uid) (fun _ => rfl)]
    exact h.logics
  live j d hentry := by
    rw [Ledger.of_concat, (Ledger.isOpen_handed _ fd fd i).2] at hentry
    rw [Ledger.of_concat, (Ledger.isOpen_handed _ fd d i).1]
    exact (h.live j d hentry).imp_right hl.find_eq_none
  attached w hw := by
    rw [hwokers] at hw
    rcases mem_modify hw with hold | ⟨v, hv, rfl⟩
    · exact h.attached w hold
    · -- the descriptor handed over is a key of the table, that of Logic is none
      apply (h.attached v (List.mem_of_getElem? hv)).handOver uid
      rintro rfl
      obtain ⟨_, p, hp, _⟩ := hl.find h.keyed
      have hnone := (h.live i v.logicFd (h.noted hv hlive)).2
      rw [hp] at hnone
      cases hnone

theorem Sheltered.replies {f : Int32 → Bool} {msg : UserMsg} (h : Sheltered rt (g, log))
    (hr : Replied f g g' msg ms) (hc : (logicsKept rt).reply f (g, log) msg) :
    Sheltered rt (g', log ++ ms) := by
  have hkeyed := h.keyed.of_replied hr
  cases hr with
  | unchanged hcloses => exact h.closes hcloses
  | verified _ hl _ hwokers => exact h.verified hl hkeyed hwokers
  | dropped _ hl _ hwokers =>
      rw [List.append_nil]
      exact h.leaves hl hkeyed hwokers
  | stranded _ hl _ hwokers =>
      rw [List.append_nil]
      exact h.leaves hl hkeyed hwokers
  | @handed fd uid i hmsg hl hworker hwokers _ =>
      refine h.handed hl hkeyed ?_ hwokers
      obtain ⟨hsfd, p, hp, hpfd⟩ := hl.find h.keyed
      obtain ⟨w, hw, _⟩ := Comm.findWorker_eq_some hworker
      -- whoever is chosen is not passed over
      by_contra hdead
      have hpassed := hc hmsg p (hsfd ▸ hp) (w, i) (List.mem_zipIdx_iff_getElem?.mpr hw)
        (by simpa using hdead)
      rw [hpfd] at hpassed
      exact hpassed.not_chosen hw hworker

theorem Ledger.along_forwarded {l : Ledger} {fd : Int32} {i : ℕ} {msgs : List UserMsg}
    (h : msgs = [] ∨ l.logics[i]? = some (fd, true)) :
    Along note Admits l (msgs.map fun _ => .forwarded fd i) := by
  induction msgs with
  | nil => trivial
  | cons msg msgs ih =>
      have hentry := h.resolve_left (List.cons_ne_nil msg msgs)
      exact ⟨hentry, ih (.inr hentry)⟩

theorem Sheltered.worker {i : ℕ} {r : WorkerRound} (h : Sheltered rt (g, log))
    (hc : (logicsKept rt).worker (g, log) i { r with ioevs := [] }) :
    Sheltered rt (tracedStep rt (g, log) (.worker i r)) := by
  cases hw : g.wokers[i]? with
  | none =>
      rw [tracedStep_worker_none rt hw]
      exact h
  | some w =>
      rw [tracedStep_worker rt hw]
      have hattached := h.attached w (List.mem_of_getElem? hw)
      have hlogicFd : ∀ w : GateWorker,
          (w.threadLoop rt { r with ioevs := [] }).getLogicfd = w.getLogicfd :=
        fun w => (GateWorker.threadLoop_inbox rt w _).1
      -- the descriptors closed in the round, then the messages forwarded
      have hclosed : Sheltered rt (g, log ++
          (workerClosed rt w { r with ioevs := [] }).map .closed) := by
        refine ⟨h.keyed, along_append.mpr ⟨h.admitted, Ledger.along_closed _ _⟩, ?_, ?_, h.attached⟩
        · rw [Ledger.of_append, Ledger.map_fst_closed]
          exact h.logics
        · intro j d hentry
          rw [Ledger.of_append] at hentry ⊢
          obtain ⟨hold, hnot⟩ := Ledger.logics_closed hentry
          rw [Ledger.isOpen_closed hnot]
          exact h.live j d hold
      have hof : ∀ (log' : List Movement) (fd : Int32) (msgs : List UserMsg),
          Ledger.of (log' ++ msgs.map fun _ => .forwarded fd i) = Ledger.of log' := by
        intro log' fd msgs
        rw [Ledger.of_append, Ledger.foldl_forwarded]
      unfold workerMovements
      simp only
      rw [← List.append_assoc]
      refine ⟨h.keyed.of_find rfl (fun _ => rfl) (fun _ _ => id),
        along_append.mpr ⟨hclosed.admitted, ?_⟩, ?_, ?_, ?_⟩
      · apply Ledger.along_forwarded
        cases hlive : (Ledger.of (log ++
            (workerClosed rt w { r with ioevs := [] }).map .closed)).live i with
        | false => exact .inl (hc w hw hlive)
        | true =>
            rw [hattached.gathered]
            exact .inr (hclosed.noted hw hlive)
      · simp only [hof]
        rw [map_modify_eq hlogicFd]
        exact hclosed.logics
      · intro j d hentry
        simp only [hof] at hentry ⊢
        exact hclosed.live j d hentry
      · intro w' hw'
        rcases mem_modify hw' with hold | ⟨v, hv, rfl⟩
        · exact h.attached w' hold
        · exact (h.attached v (List.mem_of_getElem? hv)).threadLoop r

theorem stepInvariant_sheltered :
    StepInvariant rt (freshAccepts.and (logicsKept rt)) (Sheltered rt) where
  closes h hc := h.closes hc
  accepts h ha hc := h.accepts ha hc.1
  replies h hr hc := h.replies hr hc.2
  worker h hc := h.worker hc.2

variable (rt)

/-- **User traffic reaches a live Logic connection only**, on a kernel that gives
new connections descriptors that are not open, in every run in which the workers
without Logic connection are passed over by every login and gather nothing for
Logic. -/
theorem liveTraffic_of_along {sockFd : Int32} {acts : List Act}
    (hkernel : Along (tracedStep rt) (freshAccepts.On rt) (init sockFd, []) acts)
    (h : Along (tracedStep rt) ((logicsKept rt).On rt) (init sockFd, []) acts) :
    LiveTraffic (Rubo.Foundation.run (tracedStep rt) (init sockFd, []) acts) := by
  have hboth := (hkernel.and h).mono fun s a hc => Condition.on_and rt hc.1 hc.2
  have hsheltered := run_invariant_of_along (I := Sheltered rt)
    (fun _ _ hs hc => stepInvariant_sheltered.step hs hc) (sheltered_init rt sockFd) hboth
  exact ⟨hsheltered.admitted, fun w hw p hp => (hsheltered.attached w hw).sfd_ne hp⟩

/-! ## Runs on fixed inputs -/

instance (l : Ledger) : (m : Movement) → Decidable (l.Admits m)
  | .handed _ _ => inferInstanceAs (Decidable (_ = _))
  | .forwarded _ _ => inferInstanceAs (Decidable (_ = _))
  | .accepted _ => inferInstanceAs (Decidable True)
  | .closed _ => inferInstanceAs (Decidable True)
  | .verified _ => inferInstanceAs (Decidable True)

/-- After `clientLogsIn` a second Logic server is verified and the first one ends.
The next client goes to the second one, which has fewer users. -/
def secondLogic : List Act :=
  clientLogsIn ++
    [.worker 0 {},
     .io { ready := .one ⟨3, true, false⟩, accepts := [.conn 6 "" 0 true] },
     .io { ready := .one ⟨6, true, false⟩
           io := fun _ => { reads := [.data verifyFrame.encode] } },
     .worker 0 { ready := .one ⟨4, true, false⟩, io := fun _ => { reads := [.eof] } },
     .io { ready := .one ⟨3, true, false⟩, accepts := [.conn 4 "" 0 true] },
     .io { ready := .one ⟨4, true, false⟩, io := fun _ => { reads := [.eof] } },
     .io { ready := .one ⟨3, true, false⟩, accepts := [.conn 7 "" 0 true] },
     .io { ready := .one ⟨7, true, false⟩
           io := fun _ => { reads := [.data loginFrame.encode] }
           dbs := [oneUserDb] },
     .worker 1 {}]

/-- All traffic of `secondLogic` reaches a live Logic connection. -/
theorem liveTraffic_secondLogic :
    LiveTraffic (Rubo.Foundation.run (tracedStep .proto2) (init 3, []) secondLogic) ∧
      Movement.handed 7 1 ∈
        (Rubo.Foundation.run (tracedStep .proto2) (init 3, []) secondLogic).2 := by
  constructor
  · apply liveTraffic_of_along <;> decide +kernel
  · decide +kernel

/-- The only Logic server ends, and the next client gets its descriptor. -/
def logicOffline : List Act :=
  logicConnects ++
    [.worker 0 { ready := .one ⟨4, true, false⟩, io := fun _ => { reads := [.eof] } },
     .io { ready := .one ⟨3, true, false⟩, accepts := [.conn 4 "" 0 true] },
     .io { ready := .one ⟨4, true, false⟩
           io := fun _ => { reads := [.data loginFrame.encode] }
           dbs := [oneUserDb] },
     .worker 0 {}]

/-- User traffic does not reach a live Logic connection in general: the client of
`logicOffline` is handed to the worker that has lost Logic, its own descriptor is
the one the worker keeps for Logic, and the message about it is written to itself. -/
theorem not_liveTraffic_logicOffline :
    ¬ ∀ (rt : Runtime) (sockFd : Int32) (acts : List Act),
      Along (tracedStep rt) (freshAccepts.On rt) (init sockFd, []) acts →
        LiveTraffic (Rubo.Foundation.run (tracedStep rt) (init sockFd, []) acts) := by
  intro h
  have hlive := h .proto2 3 logicOffline (by decide +kernel)
  have hrefused : ¬ Along Ledger.note Ledger.Admits .empty
      (Rubo.Foundation.run (tracedStep .proto2) (init 3, []) logicOffline).2 := by decide +kernel
  exact hrefused hlive.movements

end GateIO

end Rubo.Server
