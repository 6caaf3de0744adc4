import Rubo.Server.Descriptors
import Rubo.Server.WorkerThread

/-!
# The Load Table

`get_worker` decides by the `_fd_set` of each worker. The IO thread inserts a
descriptor at the login, the worker erases it when it has ended the connection,
by number. Here the threads are interleaved step by step, over one set of
descriptors: a worker's `event_op` frees a number three steps before its
`del_fd`, and what the IO thread inserts in between is erased again.

- `Parted`: at every stop each worker is `Tidy`, and an open descriptor belongs to
  the IO thread or to one worker;
- `loadTable_of_along`: in the runs without a login in that window, the set of a
  worker with nothing under way is the set of descriptors it serves.
-/

namespace Rubo.Server

open Rubo.Foundation Rubo.Msgs Rubo.Util GateWorker

open GateIO (handOver modifyWorker)

/-- The Gate between any two steps of its threads: where each worker stands, and
the descriptors the process has open. -/
structure GateThreads where
  gate : GateIO
  pcs : ℕ → Pc
  isOpen : Finset Int32

namespace GateThreads

variable (rt : Runtime)

/-! ## The steps -/

/-- A step of one of the threads. GateIO closes connections of users that wait; its other
steps leave descriptors and workers alone. Left out is `kick_out(user)` for a user of an
earlier round, still in `_unlogin_reads`, that does not wait any more: the number it
closes may be a worker's by then. -/
inductive Act where
  /-- GateIO: `on_accept()`. -/
  | accept (res : AcceptRes)
  /-- GateIO: `on_logic_verifyed(user)`. -/
  | verify (user : Ptr) (workerInit : Int32 → Bool)
  /-- GateIO: `on_user_logined(user, user_id)` for a reply. -/
  | login (user : Ptr) (rsp : UserMsg)
  /-- GateIO: `kick_out(user)`, or the same after an error. -/
  | close (user : Ptr)
  /-- GateIO: `notify_workers()`. -/
  | notify
  /-- A worker. -/
  | worker (i : ℕ) (r : WorkerRound)

/-- No descriptor is open but the listening socket. -/
def start (sockFd : Int32) : GateThreads := ⟨.init sockFd, fun _ => .start, {sockFd}⟩

/-- The user waits in `_unlogin_users`. -/
def Waits (s : GateThreads) (user : Ptr) : Prop :=
  s.gate.getUnloginUser (s.gate.node user).sfd = some user

instance (s : GateThreads) (user : Ptr) : Decidable (s.Waits user) :=
  inferInstanceAs (Decidable (_ = _))

def step (s : GateThreads) : Act → GateThreads
  | .accept .fail => s
  | .accept (.conn fd ip port options) =>
    -- the kernel gives out a number that is free, and the standard streams are not
    if fd ∈ s.isOpen ∨ fd ≤ 0 then s
    else
      let gate := s.gate.onAccept (.conn fd ip port options)
      let isOpen := (insert fd s.isOpen).filter (· ∉ s.gate.tcpOp.closedSince gate.tcpOp)
      { s with gate := gate, isOpen := isOpen }
  | .verify user workerInit =>
    if s.Waits user then { s with gate := s.gate.onLogicVerifyed user workerInit } else s
  | .login user rsp =>
    if s.Waits user then
      -- `on_user_login` has stored the uid
      let heap := s.gate.heap.set user { s.gate.heap.obj user with uid := rsp.msg.userId }
      { s with gate := { s.gate with heap := heap }.onUserLogined user rsp.msg.userId rsp }
    else s
  | .close user =>
    if s.Waits user then
      { s with gate := s.gate.kickOut user, isOpen := s.isOpen.erase (s.gate.node user).sfd }
    else s
  | .notify => { s with gate := s.gate.notifyWorkers }
  | .worker i r =>
    match s.gate.wokers[i]? with
    | none => s
    | some w =>
      let (w', pc) := pcStep rt (w, s.pcs i) r
      { gate := s.gate.modifyWorker i fun _ => w'
        pcs := Function.update s.pcs i pc
        isOpen := s.isOpen.filter (· ∉ w.tcpOp.closedSince w'.tcpOp) }

/-! ## The property and its condition -/

/-- No connection is ending, and no event is on its way. -/
def Settled (w : GateWorker) (pc : Pc) : Prop :=
  pc.leaving = none ∧ pc.evLists = [] ∧ w.ioevsIn = [] ∧ w.eventsIo = []

/-- The set of a worker with nothing under way is the set of descriptors it serves. -/
def LoadTable (s : GateThreads) : Prop :=
  ∀ (i : ℕ) (w : GateWorker), s.gate.wokers[i]? = some w → Settled w (s.pcs i) →
    ∀ fd, fd ∈ w.fdSet ↔ w.Serves fd

/-- The descriptor of the user that is leaving a worker. -/
def leavingFd (w : GateWorker) (pc : Pc) : Option Int32 :=
  match pc.leaving with
  | none => none
  | some user => if (w.node user).type = .system then none else some (w.node user).sfd

/-- The descriptor that is leaving the worker a login under `fd` goes to. -/
def leavingAt (s : GateThreads) (fd : Int32) : Option Int32 := do
  let i ← s.gate.getWorker fd
  let w ← s.gate.wokers[i]?
  leavingFd w (s.pcs i)

/-- No login goes to a worker that is between closing the same descriptor and its
`del_fd`. -/
def Admits (s : GateThreads) : Act → Prop
  | .login user _ => s.leavingAt (s.gate.node user).sfd ≠ some (s.gate.node user).sfd
  | _ => True

instance (s : GateThreads) : ∀ a : Act, Decidable (s.Admits a)
  | .login _ _ => inferInstanceAs (Decidable (_ ≠ _))
  | .accept _ | .verify _ _ | .close _ | .notify | .worker _ _ => inferInstanceAs (Decidable True)

/-! ## Who has a descriptor -/

/-- An open descriptor is that of one waiting user or belongs to one worker. -/
structure Parted (s : GateThreads) : Prop where
  tidy : ∀ {i : ℕ} {w : GateWorker}, s.gate.wokers[i]? = some w → Tidy rt w (s.pcs i)
  idle : ∀ {i}, s.gate.wokers.length ≤ i → s.pcs i = .start
  waits : ∀ {fd p}, s.gate.unloginUsers.find fd = some p →
    fd ∈ s.isOpen ∧ 0 < fd ∧ p < s.gate.heap.next ∧ (s.gate.node p).sfd = fd
  held : ∀ {i : ℕ} {w : GateWorker} {fd : Int32}, s.gate.wokers[i]? = some w → w.Holds (s.pcs i) fd →
    fd ∈ s.isOpen ∧ s.gate.unloginUsers.find fd = none
  apart : ∀ {i j : ℕ} {w v : GateWorker} {fd : Int32}, s.gate.wokers[i]? = some w → s.gate.wokers[j]? = some v →
    w.Holds (s.pcs i) fd → v.Holds (s.pcs j) fd → i = j

variable {rt} {s : GateThreads} {w : GateWorker} {pc : Pc} {fd : Int32} {i : ℕ}

theorem Parted.loadTable (h : Parted rt s) : LoadTable s := by
  rintro i w hw ⟨hleaving, hev, hin, hio⟩ fd
  have htidy := h.tidy hw
  have hhanded : w.handedFds (s.pcs i) = [] := by
    rw [handedFds, handed, hev, hin, hio]
    rfl
  have hdeleted : w.deletedFd (s.pcs i) ≠ some fd := by
    cases hpc : s.pcs i <;> simp_all [Pc.leaving, deletedFd]
  rw [htidy.table, hhanded]
  simp [hdeleted]

theorem parted_start (sockFd : Int32) : Parted rt (start sockFd) where
  tidy hw := by cases hw
  idle _ := rfl
  waits hp := by cases hp
  held hw := by cases hw
  apart hw := by cases hw

/-- A new worker serves nobody and has its Logic connection. -/
theorem tidy_init (logicFd : Int32) :
    Tidy rt (GateWorker.init logicFd) .start ∧
      ∀ fd, (GateWorker.init logicFd).Holds .start fd → fd = logicFd := by
  have hidle : Idle rt (GateWorker.init logicFd) := idle_init logicFd
  have hfind : ∀ {fd p}, (GateWorker.init logicFd).users.sockUsers.find fd = some p →
      p = 0 ∧ fd = logicFd := by
    intro fd p hp
    have hlt := (hidle.wellFormed.found hp).1
    have hsfd := (hidle.wellFormed.found hp).2.1
    obtain rfl : p = 0 := Nat.lt_one_iff.mp hlt
    exact ⟨rfl, hsfd.symm⟩
  refine ⟨⟨hidle.wellFormed, nofun, List.nodup_nil, nofun, nofun, hidle.epevUsers, ?_⟩, ?_⟩
  · intro fd
    refine iff_of_false (Finset.notMem_empty fd) ?_
    rintro (⟨p, hp, htype⟩ | hmem | hdel)
    · obtain ⟨rfl, -⟩ := hfind hp
      rw [show (GateWorker.init logicFd).node 0 = _ from rfl] at htype
      cases htype
    · cases hmem
    · cases hdel
  · rintro fd (hmem | ⟨hne, -⟩)
    · cases hmem
    · obtain ⟨p, hp⟩ := Option.ne_none_iff_exists'.mp hne
      exact (hfind hp).2

/-! ## Every step of GateIO -/

/-- Steps that leave the workers alone. -/
theorem Parted.of_gate (h : Parted rt s) (gate : GateIO) (isOpen : Finset Int32)
    (hwokers : gate.wokers = s.gate.wokers)
    (hwaits : ∀ {fd p}, gate.unloginUsers.find fd = some p →
      fd ∈ isOpen ∧ 0 < fd ∧ p < gate.heap.next ∧ (gate.node p).sfd = fd)
    (hheld : ∀ fd ∈ s.isOpen, s.gate.unloginUsers.find fd = none →
      fd ∈ isOpen ∧ gate.unloginUsers.find fd = none) :
    Parted rt { s with gate := gate, isOpen := isOpen } where
  tidy hw := h.tidy (hwokers ▸ hw)
  idle hi := h.idle (hwokers ▸ hi)
  waits := hwaits
  held hw hfd := hheld _ (h.held (hwokers ▸ hw) hfd).1 (h.held (hwokers ▸ hw) hfd).2
  apart hw hv := h.apart (hwokers ▸ hw) (hwokers ▸ hv)

theorem Parted.accept (h : Parted rt s) (res : AcceptRes) : Parted rt (step rt s (.accept res)) := by
  cases res with
  | fail => exact h
  | conn fd ip port options =>
      simp only [step]
      split_ifs with hbusy
      · exact h
      obtain ⟨hfree, hpos⟩ := not_or.mp hbusy
      rw [Int32.not_le] at hpos
      have hne : ∀ d ∈ s.isOpen, d ≠ fd := fun d hd heq => hfree (heq ▸ hd)
      unfold GateIO.onAccept
      rcases s.gate.tcpOp.accept_conn_cases fd ip port options with
        ⟨t, haccept, hsince⟩ | ⟨t, haccept, hsince⟩ <;> simp only [haccept, hsince]
      · -- a new user waits
        have hin : ∀ d, d = fd ∨ d ∈ s.isOpen →
            d ∈ (insert fd s.isOpen).filter (· ∉ ([] : List Int32)) := by simp
        refine h.of_gate _ _ rfl ?_ ?_
        · intro d p hp
          have hnode : ∀ p, (({ s.gate with heap := (s.gate.heap.alloc
              { sock := some { sfd := fd, ip := ip, port := port } }).2 } : GateIO).node p).sfd =
                if p = s.gate.heap.next then fd else (s.gate.node p).sfd := by
            intro p
            unfold GateIO.node
            rw [Heap.obj_alloc]
            split_ifs <;> rfl
          rcases Table.find_insert_eq_some hp with ⟨rfl, rfl⟩ | hold
          · exact ⟨hin _ (.inl rfl), hpos, Nat.lt_succ_self _, (hnode _).trans (if_pos rfl)⟩
          · obtain ⟨hopen, hd, hlt, hsfd⟩ := h.waits hold
            exact ⟨hin _ (.inr hopen), hd, Nat.lt_succ_of_lt hlt,
              ((hnode p).trans (if_neg (Nat.ne_of_lt hlt))).trans hsfd⟩
        · intro d hd hnone
          refine ⟨hin d (.inr hd), ?_⟩
          show (s.gate.unloginUsers.insert fd s.gate.heap.next).find d = none
          rw [Table.find_insert, if_neg (hne d hd), hnone]
      · -- the connection is closed again
        have hin : ∀ d ∈ s.isOpen, d ∈ (insert fd s.isOpen).filter (· ∉ [fd]) := by
          intro d hd
          simp [hne d hd, hd]
        refine h.of_gate _ _ rfl ?_ ?_
        · intro d p hp
          obtain ⟨hopen, hrest⟩ := h.waits hp
          exact ⟨hin d hopen, hrest⟩
        · exact fun d hd hnone => ⟨hin d hd, hnone⟩

theorem Waits.ne_none {user : Ptr} (h : s.Waits user) :
    s.gate.unloginUsers.find (s.gate.node user).sfd ≠ none := by
  rw [Waits, GateIO.getUnloginUser] at h
  rw [h]
  exact Option.some_ne_none user

/-- No worker has the descriptor of a user that waits. -/
theorem Parted.not_holds (h : Parted rt s) {user : Ptr} (hwaits : s.Waits user)
    (hw : s.gate.wokers[i]? = some w) : ¬ w.Holds (s.pcs i) (s.gate.node user).sfd :=
  fun hhold => hwaits.ne_none (h.held hw hhold).2

/-- The user that waits leaves `_unlogin_users`. -/
theorem Parted.find_erase (h : Parted rt s) {user : Ptr} {p : Ptr}
    (hp : (s.gate.unloginUsers.erase (s.gate.node user).sfd).find fd = some p) :
    fd ≠ (s.gate.node user).sfd ∧
      fd ∈ s.isOpen ∧ 0 < fd ∧ p < s.gate.heap.next ∧ (s.gate.node p).sfd = fd :=
  ⟨(Table.find_erase_eq_some.mp hp).1, h.waits (Table.find_erase_eq_some.mp hp).2⟩

theorem find_erase_of_none {t : Table Int32 Ptr} (h : t.find fd = none) (d : Int32) :
    (t.erase d).find fd = none := by
  rw [Table.find_erase, h, ite_self]

theorem Parted.close (h : Parted rt s) (user : Ptr) : Parted rt (step rt s (.close user)) := by
  simp only [step]
  split_ifs with hwaits
  · refine h.of_gate _ _ rfl ?_ ?_
    · intro d p hp
      obtain ⟨hne, hopen, hrest⟩ := h.find_erase hp
      exact ⟨Finset.mem_erase.mpr ⟨hne, hopen⟩, hrest⟩
    · intro d hd hnone
      refine ⟨Finset.mem_erase.mpr ⟨?_, hd⟩, find_erase_of_none hnone _⟩
      rintro rfl
      exact hwaits.ne_none hnone
  · exact h

theorem getElem?_concat_eq_some {α : Type*} {as : List α} {a b : α} {i : ℕ}
    (h : (as ++ [a])[i]? = some b) : as[i]? = some b ∨ (i = as.length ∧ b = a) := by
  rcases Nat.lt_trichotomy i as.length with hlt | heq | hgt
  · rw [List.getElem?_append_left hlt] at h
    exact .inl h
  · rw [heq, List.getElem?_concat_length] at h
    exact .inr ⟨heq, (Option.some.inj h).symm⟩
  · rw [List.getElem?_eq_none (by simpa using Nat.succ_le_of_lt hgt)] at h
    cases h

theorem Parted.verify (h : Parted rt s) (user : Ptr) (workerInit : Int32 → Bool) :
    Parted rt (step rt s (.verify user workerInit)) := by
  simp only [step]
  split_ifs with hwaits
  · obtain ⟨hopen, hpos, -, -⟩ := h.waits hwaits
    have hgone := h.of_gate { s.gate with
        unloginUsers := s.gate.unloginUsers.erase (s.gate.node user).sfd
        tcpOp := s.gate.tcpOp.delEpev (s.gate.node user).sfd } s.isOpen rfl
      (fun hp => (h.find_erase hp).2) fun d hd hnone => ⟨hd, find_erase_of_none hnone _⟩
    unfold GateIO.onLogicVerifyed
    simp only
    split_ifs
    · exact hgone
    · obtain ⟨htidy, hholds⟩ := @tidy_init rt (s.gate.node user).sfd
      have hstart : s.pcs s.gate.wokers.length = .start := h.idle (Nat.le_refl _)
      refine ⟨?_, ?_, hgone.waits, ?_, ?_⟩
      · intro i w hw
        rcases getElem?_concat_eq_some hw with hw | ⟨rfl, rfl⟩
        · exact h.tidy hw
        · exact hstart ▸ htidy
      · intro i hi
        refine h.idle (Nat.le_of_succ_le ?_)
        simpa using hi
      · intro i w d hw hhold
        rcases getElem?_concat_eq_some hw with hw | ⟨rfl, rfl⟩
        · exact hgone.held hw hhold
        · rw [hstart] at hhold
          obtain rfl := hholds d hhold
          exact ⟨hopen, by simp [Table.find_erase]⟩
      · intro i j w v d hw hv hhold hhold'
        rcases getElem?_concat_eq_some hw with hw | ⟨rfl, rfl⟩ <;>
          rcases getElem?_concat_eq_some hv with hv | ⟨rfl, rfl⟩
        · exact h.apart hw hv hhold hhold'
        · rw [hstart] at hhold'
          obtain rfl := hholds d hhold'
          exact absurd hhold (h.not_holds hwaits hw)
        · rw [hstart] at hhold
          obtain rfl := hholds d hhold
          exact absurd hhold' (h.not_holds hwaits hv)
        · rfl
  · exact h

/-- A worker that is handed a descriptor nobody has, and that is not leaving it. -/
theorem tidy_handOver (h : Tidy rt w pc) (hpos : 0 < fd) (hfree : ¬ w.Holds pc fd)
    (hleaving : leavingFd w pc ≠ some fd) (uid : Int32) :
    Tidy rt (handOver fd uid w) pc ∧
      ∀ d, (handOver fd uid w).Holds pc d → d = fd ∨ w.Holds pc d := by
  obtain ⟨hnot, hfind⟩ := not_or.mp hfree
  have hhanded : (handOver fd uid w).handed pc =
      w.handed pc ++ [{ uid := uid, sfd := fd, event := FdEvent.connect }] :=
    (List.append_assoc ..).symm
  have hfds : (handOver fd uid w).handedFds pc = w.handedFds pc ++ [fd] := by
    rw [handedFds, hhanded, List.map_append]
    rfl
  refine ⟨⟨?_, ?_, ?_, ?_, ?_, ?_, ?_⟩, ?_⟩
  · exact h.wellFormed.of_calm (Calm.of_eq rfl rfl rfl rfl rfl) rfl
  · rw [hhanded]
    intro ev hev
    rcases List.mem_append.mp hev with hev | hev
    · exact h.connects ev hev
    · rw [List.mem_singleton.mp hev]
      exact ⟨(by decide : FdEvent.connect.has FdEvent.connect = true), hpos⟩
  · rw [hfds, List.nodup_append]
    refine ⟨h.nodup, List.nodup_singleton _, ?_⟩
    rintro d hd d' hd' rfl
    exact hnot (List.mem_singleton.mp hd' ▸ hd)
  · rw [hfds]
    intro d hd
    rcases List.mem_append.mp hd with hd | hd
    · exact h.fresh d hd
    · rw [List.mem_singleton.mp hd]
      -- what the worker has under the descriptor is closed
      show w.users.sockUsers.find fd = none ∨ w.closedFd pc = some fd
      by_contra hboth
      exact hfind (not_or.mp hboth)
  · intro user huser hsys
    rw [hfds, List.mem_append, List.mem_singleton]
    rintro (hmem | heq)
    · exact h.gone user huser hsys hmem
    · have hsys' : (w.node user).type ≠ .system := hsys
      refine hleaving ?_
      simp only [leavingFd, huser, if_neg hsys']
      exact congrArg some heq
  · cases pc <;> exact h.stands
  · intro d
    have hdeleted : (handOver fd uid w).deletedFd pc = w.deletedFd pc := by cases pc <;> rfl
    have hserves : (handOver fd uid w).Serves d ↔ w.Serves d := Iff.rfl
    rw [hfds, hdeleted, hserves, List.mem_append, List.mem_singleton]
    show d ∈ insert fd w.fdSet ↔ _
    rw [Finset.mem_insert, h.table]
    tauto
  · rintro d (hd | hd)
    · rw [hfds, List.mem_append, List.mem_singleton] at hd
      exact hd.symm.imp_right .inl
    · refine .inr (.inr ⟨hd.1, fun heq => hd.2 ?_⟩)
      rw [← heq]
      cases pc <;> rfl

/-- `on_user_logined(user, user_id)` -/
theorem Parted.logined (h : Parted rt s) {user : Ptr} (hwaits : s.Waits user)
    (hleaving : s.leavingAt (s.gate.node user).sfd ≠ some (s.gate.node user).sfd)
    (userId : Int32) (rsp : UserMsg) :
    Parted rt { s with gate := s.gate.onUserLogined user userId rsp } := by
  obtain ⟨hopen, hpos, -, -⟩ := h.waits hwaits
  have hgone := h.of_gate { s.gate with
      unloginUsers := s.gate.unloginUsers.erase (s.gate.node user).sfd } s.isOpen rfl
    (fun hp => (h.find_erase hp).2) fun d hd hnone => ⟨hd, find_erase_of_none hnone _⟩
  have hworker : GateIO.getWorker { s.gate with
      unloginUsers := s.gate.unloginUsers.erase (s.gate.node user).sfd } = s.gate.getWorker := rfl
  unfold GateIO.onUserLogined
  simp only [hworker]
  cases hk : s.gate.getWorker (s.gate.node user).sfd with
  | none => exact hgone
  | some k =>
      simp only
      -- the chosen worker gets the descriptor, the others have what they had
      have hold : ∀ {i : ℕ} {w' : GateWorker}, (s.gate.wokers.modify k (handOver
            (s.gate.node user).sfd (s.gate.heap.obj user).uid))[i]? = some w' →
          ∃ w, s.gate.wokers[i]? = some w ∧ Tidy rt w' (s.pcs i) ∧ ∀ d, w'.Holds (s.pcs i) d →
            i = k ∧ d = (s.gate.node user).sfd ∨ w.Holds (s.pcs i) d := by
        intro i w' hw'
        obtain ⟨w, hw, rfl⟩ := getElem?_modify_eq_some hw'
        refine ⟨w, hw, ?_⟩
        split_ifs with hi
        · subst hi
          have hnot : leavingFd w (s.pcs k) ≠ some (s.gate.node user).sfd := by
            simpa [leavingAt, hk, hw] using hleaving
          obtain ⟨htidy, hholds⟩ := tidy_handOver (h.tidy hw) hpos (h.not_holds hwaits hw) hnot
            (s.gate.heap.obj user).uid
          exact ⟨htidy, fun d hd => (hholds d hd).imp_left fun heq => ⟨rfl, heq⟩⟩
        · exact ⟨h.tidy hw, fun d hd => .inr hd⟩
      refine ⟨?_, ?_, hgone.waits, ?_, ?_⟩
      · intro i w' hw'
        exact (hold hw').choose_spec.2.1
      · intro i hi
        exact h.idle (by simpa [modifyWorker] using hi)
      · intro i w' d hw' hd
        obtain ⟨w, hw, -, hholds⟩ := hold hw'
        rcases hholds d hd with ⟨-, rfl⟩ | hd
        · refine ⟨hopen, ?_⟩
          show (s.gate.unloginUsers.erase (s.gate.node user).sfd).find (s.gate.node user).sfd = none
          rw [Table.find_erase, if_pos rfl]
        · exact hgone.held hw hd
      · intro i j w' v' d hw' hv' hd hd'
        obtain ⟨w, hw, -, hholds⟩ := hold hw'
        obtain ⟨v, hv, -, hholds'⟩ := hold hv'
        rcases hholds d hd with ⟨hi, rfl⟩ | hd
        · rcases hholds' _ hd' with ⟨hj, -⟩ | hd'
          · rw [hi, hj]
          · exact absurd hd' (h.not_holds hwaits hv)
        · rcases hholds' d hd' with ⟨-, rfl⟩ | hd'
          · exact absurd hd (h.not_holds hwaits hw)
          · exact h.apart hw hv hd hd'

theorem Parted.login (h : Parted rt s) {user : Ptr} {rsp : UserMsg}
    (hadmits : s.Admits (.login user rsp)) : Parted rt (step rt s (.login user rsp)) := by
  simp only [step]
  split_ifs with hwaits
  · -- storing the uid leaves the nodes alone
    have hnode : ∀ p, GateIO.node { s.gate with
        heap := s.gate.heap.set user { s.gate.heap.obj user with uid := rsp.msg.userId } } p =
          s.gate.node p := by
      intro p
      unfold GateIO.node
      rw [Heap.obj_set]
      split_ifs with hp
      · rw [hp]
        rfl
      · rfl
    have hstored := h.of_gate { s.gate with
        heap := s.gate.heap.set user { s.gate.heap.obj user with uid := rsp.msg.userId } }
      s.isOpen rfl (fun {fd p} hp => by rw [hnode]; exact h.waits hp)
      fun d hd hnone => ⟨hd, hnone⟩
    refine Parted.logined hstored ?_ ?_ rsp.msg.userId rsp
    · rw [Waits, hnode]
      exact hwaits
    · rw [hnode]
      exact hadmits
  · exact h

/-! ## Every step of a worker -/

/-- Steps in which no worker takes hold of a descriptor. -/
theorem Parted.of_workers (h : Parted rt s) {s' : GateThreads}
    (hworkers : ∀ {i : ℕ} {w' : GateWorker}, s'.gate.wokers[i]? = some w' →
      ∃ w, s.gate.wokers[i]? = some w ∧ Tidy rt w' (s'.pcs i) ∧
        ∀ d, w'.Holds (s'.pcs i) d → w.Holds (s.pcs i) d ∧ (d ∈ s.isOpen → d ∈ s'.isOpen))
    (hidle : ∀ {i : ℕ}, s'.gate.wokers.length ≤ i → s'.pcs i = .start)
    (hgate : s'.gate = { s.gate with wokers := s'.gate.wokers })
    (hwaits : ∀ {d p}, s.gate.unloginUsers.find d = some p → d ∈ s.isOpen → d ∈ s'.isOpen) :
    Parted rt s' where
  tidy hw' := (hworkers hw').choose_spec.2.1
  idle := hidle
  waits {fd p} hp := by
    rw [hgate] at hp ⊢
    obtain ⟨hopen, hrest⟩ := h.waits hp
    exact ⟨hwaits hp hopen, hrest⟩
  held {i w' fd} hw' hd := by
    obtain ⟨w, hw, -, hholds⟩ := hworkers hw'
    obtain ⟨hd, hopen⟩ := hholds fd hd
    rw [hgate]
    exact ⟨hopen (h.held hw hd).1, (h.held hw hd).2⟩
  apart {i j w' v' fd} hw' hv' hd hd' := by
    obtain ⟨w, hw, -, hholds⟩ := hworkers hw'
    obtain ⟨v, hv, -, hholds'⟩ := hworkers hv'
    exact h.apart hw hv (hholds fd hd).1 (hholds' fd hd').1

/-- The events move from one list to the other. -/
theorem tidy_moveIoEventToIn (h : Tidy rt w pc) :
    Tidy rt w.moveIoEventToIn pc ∧ ∀ d, w.moveIoEventToIn.Holds pc d → w.Holds pc d := by
  have hhanded : w.moveIoEventToIn.handed pc = w.handed pc := by
    simp [handed, moveIoEventToIn]
  have hfds : w.moveIoEventToIn.handedFds pc = w.handedFds pc := by
    rw [handedFds, handedFds, hhanded]
  have hclosed : w.moveIoEventToIn.closedFd pc = w.closedFd pc := by cases pc <;> rfl
  have hdeleted : w.moveIoEventToIn.deletedFd pc = w.deletedFd pc := by cases pc <;> rfl
  refine ⟨⟨?_, ?_, ?_, ?_, ?_, ?_, ?_⟩, ?_⟩
  · exact h.wellFormed.of_calm (Calm.of_eq rfl rfl rfl rfl rfl) rfl
  · exact hhanded ▸ h.connects
  · exact hfds ▸ h.nodup
  · rw [hfds, hclosed]
    exact h.fresh
  · rw [hfds]
    exact h.gone
  · cases pc <;> exact h.stands
  · rw [hfds, hdeleted]
    exact h.table
  · intro d hd
    rw [Holds, hfds, hclosed] at hd
    exact hd

theorem Parted.notify (h : Parted rt s) : Parted rt (step rt s .notify) := by
  refine h.of_workers ?_ ?_ rfl fun _ => id
  · intro i w' hw'
    have hw' : (s.gate.wokers.map fun w =>
      if w.eventsIo = [] then w else w.moveIoEventToIn)[i]? = some w' := hw'
    rw [List.getElem?_map, Option.map_eq_some_iff] at hw'
    obtain ⟨w, hw, rfl⟩ := hw'
    refine ⟨w, hw, ?_⟩
    split_ifs
    · exact ⟨h.tidy hw, fun d hd => ⟨hd, id⟩⟩
    · obtain ⟨htidy, hholds⟩ := tidy_moveIoEventToIn (h.tidy hw)
      exact ⟨htidy, fun d hd => ⟨hholds d hd, id⟩⟩
  · intro i hi
    refine h.idle (Nat.le_trans (Nat.le_of_eq ?_) hi)
    exact (List.length_map _).symm

theorem Parted.worker (h : Parted rt s) (k : ℕ) (r : WorkerRound) :
    Parted rt (step rt s (.worker k r)) := by
  simp only [step]
  cases hk : s.gate.wokers[k]? with
  | none => exact h
  | some u =>
      simp only
      have hstep := tidyStep_pcStep (h.tidy hk) r
      generalize pcStep rt (u, s.pcs k) r = q at hstep ⊢
      obtain ⟨u', pc'⟩ := q
      obtain ⟨htidy, hholds, hcloses⟩ := hstep
      simp only at htidy hholds hcloses ⊢
      -- what the worker closes was its own
      have hkept : ∀ {d : Int32}, d ∉ u.tcpOp.closedSince u'.tcpOp → d ∈ s.isOpen →
          d ∈ s.isOpen.filter (· ∉ u.tcpOp.closedSince u'.tcpOp) := fun hd hopen =>
        Finset.mem_filter.mpr ⟨hopen, hd⟩
      refine h.of_workers ?_ ?_ rfl ?_
      · intro i w' hw'
        obtain ⟨w, hw, rfl⟩ := getElem?_modify_eq_some hw'
        refine ⟨w, hw, ?_⟩
        split_ifs with hi
        · subst hi
          obtain rfl : u = w := Option.some.inj (hk.symm.trans hw)
          simp only [Function.update_self]
          exact ⟨htidy, fun d hd => ⟨(hholds d hd).1, hkept (hholds d hd).2⟩⟩
        · simp only [Function.update_of_ne (Ne.symm hi)]
          refine ⟨h.tidy hw, fun d hd => ⟨hd, hkept fun hclosed => hi ?_⟩⟩
          exact h.apart hk hw (hcloses d hclosed) hd
      · intro i hi
        have hlen : s.gate.wokers.length ≤ i := by simpa [modifyWorker] using hi
        have hne : i ≠ k := by
          rintro rfl
          rw [List.getElem?_eq_none hlen] at hk
          cases hk
        simp only [Function.update_of_ne hne]
        exact h.idle hlen
      · intro d p hp
        refine hkept fun hclosed => ?_
        rw [(h.held hk (hcloses d hclosed)).2] at hp
        cases hp

/-! ## Every run -/

theorem Parted.step (h : Parted rt s) {a : Act} (ha : s.Admits a) : Parted rt (step rt s a) := by
  cases a with
  | accept res => exact h.accept res
  | verify user workerInit => exact h.verify user workerInit
  | login user rsp => exact h.login ha
  | close user => exact h.close user
  | notify => exact h.notify
  | worker i r => exact h.worker i r

/-- **The load table is not corrupted**, whatever the order of the steps, in every
run in which no user logs in under a descriptor that a worker has closed and not
yet taken out of its set. -/
theorem loadTable_of_along {sockFd : Int32} {acts : List Act}
    (h : Along (GateThreads.step rt) Admits (start sockFd) acts) :
    LoadTable (run (GateThreads.step rt) (start sockFd) acts) :=
  (run_invariant_of_along (I := Parted rt) (fun _ _ hs ha => hs.step ha) (parted_start sockFd)
    h).loadTable

/-! ## Runs on fixed inputs -/

/-- The reply to a login of uid 1. -/
def loginRsp : UserMsg :=
  { msgId := ProtocolDefine.userLoginRsp.toInt
    msg := ((Message.new .loginRsp).setIsOK true).setUserId 1 }

/-- A worker serves one user, who hangs up; `event_op` has just closed its descriptor. -/
def userHangsUp : List Act :=
  [.accept (.conn 4 "" 0 true), .verify 0 fun _ => true,
   .accept (.conn 5 "" 0 true), .login 1 loginRsp, .notify,
   -- the round that connects the user
   .worker 0 {}, .worker 0 {}, .worker 0 {}, .worker 0 {},
   -- the round that finds it gone
   .worker 0 {}, .worker 0 { ready := .one ⟨5, true, false⟩ },
   .worker 0 { io := fun _ => { reads := [.eof] } }]

/-- The next user has the same descriptor. -/
def sameDescriptor : List Act := [.accept (.conn 5 "" 0 true), .login 2 loginRsp]

/-- The worker ends the first connection and connects the second user. -/
def ends : List Act := [.worker 0 {}, .worker 0 {}]

def connects : List Act := [.worker 0 {}, .notify, .worker 0 {}, .worker 0 {}]

/-- The next user logs in behind `del_fd`. -/
theorem loadTable_behind :
    LoadTable (run (GateThreads.step .proto2) (start 3)
      (userHangsUp ++ ends ++ sameDescriptor ++ connects)) :=
  loadTable_of_along (by decide +kernel)

/-- The next user logs in before it, and is served under a descriptor that is in no
set. -/
theorem not_loadTable_before :
    ¬ ∀ (rt : Runtime) (sockFd : Int32) (acts : List Act),
      LoadTable (run (GateThreads.step rt) (start sockFd) acts) := by
  intro h
  have htable := h .proto2 3 (userHangsUp ++ sameDescriptor ++ ends ++ connects)
  have hworker : ((run (GateThreads.step .proto2) (start 3)
      (userHangsUp ++ sameDescriptor ++ ends ++ connects)).gate.wokers[0]?).map
        (fun w => (w.ioevsIn, w.eventsIo, w.fdSet, w.users.getUserBySock 5, (w.node 2).type)) =
      some ([], [], ∅, some 2, .user) := by
    decide +kernel
  have hpc : (run (GateThreads.step .proto2) (start 3)
      (userHangsUp ++ sameDescriptor ++ ends ++ connects)).pcs 0 = .connecting [] := by
    decide +kernel
  obtain ⟨w, hw, hfields⟩ := Option.map_eq_some_iff.mp hworker
  simp only [Prod.mk.injEq] at hfields
  obtain ⟨hin, hio, hset, hfind, htype⟩ := hfields
  have hmem := (htable 0 w hw (by rw [hpc]; exact ⟨rfl, rfl, hin, hio⟩) 5).mpr ⟨2, hfind, htype⟩
  rw [hset] at hmem
  exact absurd hmem (Finset.notMem_empty 5)

end GateThreads

end Rubo.Server
