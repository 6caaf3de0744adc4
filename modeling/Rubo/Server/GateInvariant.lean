import Rubo.Server.GateSteps

/-!
# The States of a GateWorker

`WellFormed` holds between any two stages of a round, in every run: lookups by
descriptor find live connections, and every message for Logic is a presence
message about a connection or the envelope of a frame of one.
-/

namespace Rubo.Server.GateWorker

open Rubo.Foundation Rubo.Msgs Rubo.Util

variable (rt : Runtime) {w w' : GateWorker}

/-! ## The states a worker can be in -/

/-- The pointer belongs to a user connection. -/
def IsConn (w : GateWorker) (p : Ptr) : Prop := p < w.heap.next ∧ p ≠ w.logic

instance (w : GateWorker) (p : Ptr) : Decidable (w.IsConn p) :=
  inferInstanceAs (Decidable (_ ∧ _))

/-- What a message for Logic can be, as far as the connection it came from goes. -/
inductive Accounted (w : GateWorker) (p : Ptr) (msg : UserMsg) : Prop where
  | online (h : msg = onlineOf p (w.heap.obj p).uid)
  | offline (h : msg = offlineOf p (w.heap.obj p).uid)
  | frame (f : Frame) (huid : f.uid = (w.heap.obj p).uid)
      (h : MsgCenter.IsEnvelope rt p (w.node p).sfd msg f)

/-- What holds between any two stages: the heap has the Logic connection and
user connections, lookups find live connections, and every message for Logic
belongs to a connection. -/
structure WellFormed (w : GateWorker) : Prop where
  logic_lt : w.logic < w.heap.next
  logic_type : (w.node w.logic).type = .system
  user_type : ∀ {p}, w.IsConn p → (w.node p).type = .user
  found : ∀ {fd p}, w.users.sockUsers.find fd = some p →
    p < w.heap.next ∧ (w.node p).sfd = fd ∧ p ∉ w.offline
  accounted : ∀ msg ∈ w.queue, ∃ p, w.IsConn p ∧ Accounted rt w p msg
  offline_lt : ∀ p ∈ w.offline, p < w.heap.next
  rdUsers_lt : ∀ p ∈ w.rdUsers, p < w.heap.next

/-- The same connections, with the same uids, types and descriptors. -/
structure SameConns (w w' : GateWorker) : Prop where
  next : w'.heap.next = w.heap.next
  logic : w'.logic = w.logic
  uid : ∀ p, (w'.heap.obj p).uid = (w.heap.obj p).uid
  type : ∀ p, (w'.node p).type = (w.node p).type
  sfd : ∀ p, (w'.node p).sfd = (w.node p).sfd

theorem Calm.sameConns (h : Calm w w') : SameConns w w' :=
  ⟨h.next, h.logic, h.uid, fun p => (h.kept p).type, fun p => (h.kept p).sfd⟩

variable {rt}

theorem SameConns.isConn (h : SameConns w w') (p : Ptr) : w'.IsConn p ↔ w.IsConn p := by
  unfold IsConn
  rw [h.next, h.logic]

theorem SameConns.accounted (h : SameConns w w') {p : Ptr} {msg : UserMsg}
    (ha : Accounted rt w p msg) : Accounted rt w' p msg := by
  cases ha with
  | online hmsg => exact .online (by rw [h.uid, hmsg])
  | offline hmsg => exact .offline (by rw [h.uid, hmsg])
  | frame f huid hmsg => exact .frame f (by rw [h.uid, huid]) (by rw [h.sfd]; exact hmsg)

/-- A stage without new connections keeps the worker well-formed if what it
finds, queues and lists was there before or is accounted for. -/
theorem WellFormed.of_sameConns (h : WellFormed rt w) (hs : SameConns w w')
    (hfound : ∀ {fd p}, w'.users.sockUsers.find fd = some p →
      w.users.sockUsers.find fd = some p ∧ p ∉ w'.offline)
    (hqueue : ∀ msg ∈ w'.queue, msg ∈ w.queue ∨ ∃ p, w.IsConn p ∧ Accounted rt w p msg)
    (hoff : ∀ p ∈ w'.offline, p < w.heap.next) (hrd : ∀ p ∈ w'.rdUsers, p < w.heap.next) :
    WellFormed rt w' := by
  refine ⟨?_, ?_, ?_, ?_, ?_, ?_, ?_⟩
  · rw [hs.logic, hs.next]
    exact h.logic_lt
  · rw [hs.type, hs.logic]
    exact h.logic_type
  · intro p hp
    rw [hs.type]
    exact h.user_type ((hs.isConn p).mp hp)
  · intro fd p hp
    obtain ⟨hp', hlive⟩ := hfound hp
    rw [hs.next, hs.sfd]
    exact ⟨(h.found hp').1, (h.found hp').2.1, hlive⟩
  · intro msg hmsg
    have hbefore : ∃ p, w.IsConn p ∧ Accounted rt w p msg := by
      rcases hqueue msg hmsg with hold | hnew
      · exact h.accounted msg hold
      · exact hnew
    obtain ⟨p, hp, hacc⟩ := hbefore
    exact ⟨p, (hs.isConn p).mpr hp, hs.accounted hacc⟩
  · rw [hs.next]
    exact hoff
  · rw [hs.next]
    exact hrd

theorem WellFormed.of_calm (h : WellFormed rt w) (hc : Calm w w') (hq : w'.queue = w.queue) :
    WellFormed rt w' := by
  apply h.of_sameConns hc.sameConns
  · intro fd p hp
    rw [hc.users] at hp
    rw [hc.offline]
    exact ⟨hp, (h.found hp).2.2⟩
  · intro msg hmsg
    exact .inl (hq ▸ hmsg)
  · rw [hc.offline]
    exact h.offline_lt
  · rw [hc.rdUsers]
    exact h.rdUsers_lt

/-! ## Each stage -/

theorem wellFormed_onNewConnect (h : WellFormed rt w) (ev : EventNode) :
    WellFormed rt (w.onNewConnect ev) := by
  have hnext : (w.onNewConnect ev).heap.next = w.heap.next + 1 := rfl
  -- the objects there before are unchanged
  have hold : ∀ {p}, p < w.heap.next → (w.onNewConnect ev).heap.obj p = w.heap.obj p := by
    intro p hp
    rw [obj_onNewConnect, if_neg (Nat.ne_of_lt hp)]
  have holdNode : ∀ {p}, p < w.heap.next → (w.onNewConnect ev).node p = w.node p := by
    intro p hp
    rw [node, hold hp]
    rfl
  have hnewNode : (w.onNewConnect ev).node w.heap.next = { sfd := ev.sfd, type := .user } := by
    rw [node_onNewConnect, if_pos rfl]
  have hnewUid : ((w.onNewConnect ev).heap.obj w.heap.next).uid = ev.uid := by
    rw [obj_onNewConnect, if_pos rfl]
    rfl
  refine ⟨Nat.lt_succ_of_lt h.logic_lt, ?_, ?_, ?_, ?_, ?_, ?_⟩
  · exact (congrArg SocketNode.type (holdNode h.logic_lt)).trans h.logic_type
  · intro p hp
    rcases Nat.lt_succ_iff_lt_or_eq.mp hp.1 with hlt | rfl
    · rw [holdNode hlt]
      exact h.user_type ⟨hlt, hp.2⟩
    · -- the new connection is one of a user
      rw [hnewNode]
  · intro fd p hp
    rcases find_onNewConnect hp with ⟨rfl, rfl⟩ | hp
    · rw [hnewNode]
      exact ⟨Nat.lt_succ_self _, rfl, fun hoff => Nat.lt_irrefl _ (h.offline_lt _ hoff)⟩
    · obtain ⟨hlt, hsfd, hlive⟩ := h.found hp
      rw [holdNode hlt]
      exact ⟨Nat.lt_succ_of_lt hlt, hsfd, hlive⟩
  · intro msg hmsg
    rw [queue_onNewConnect] at hmsg
    rcases List.mem_append.mp hmsg with hmsg | hmsg
    · obtain ⟨p, hp, hacc⟩ := h.accounted msg hmsg
      refine ⟨p, ⟨Nat.lt_succ_of_lt hp.1, hp.2⟩, ?_⟩
      cases hacc with
      | online heq => exact .online (by rw [hold hp.1, heq])
      | offline heq => exact .offline (by rw [hold hp.1, heq])
      | frame f huid henv =>
          exact .frame f (by rw [hold hp.1, huid]) (by rw [holdNode hp.1]; exact henv)
    · -- the online message is about the new connection
      refine ⟨w.heap.next, ⟨Nat.lt_succ_self _, (Nat.ne_of_lt h.logic_lt).symm⟩, .online ?_⟩
      rw [hnewUid, List.mem_singleton.mp hmsg]
  · intro p hp
    exact Nat.lt_succ_of_lt (h.offline_lt p hp)
  · intro p hp
    exact Nat.lt_succ_of_lt (h.rdUsers_lt p hp)

theorem SameConns.served (io : Int32 → KernelIo) (w : GateWorker) (user : Ptr) :
    SameConns w (w.served io user) := by
  obtain ⟨delta, hgrown, _⟩ := serveUser_cases io w user
  refine ⟨rfl, rfl, uid_served io w user, ?_, ?_⟩
  · intro p
    by_cases hp : p = user
    · rw [hp]
      exact hgrown.type
    · rw [node_served_of_ne io w hp]
  · intro p
    by_cases hp : p = user
    · rw [hp]
      exact hgrown.sfd
    · rw [node_served_of_ne io w hp]

theorem sameConns_onConnOffline (w : GateWorker) (user : Ptr) :
    SameConns w (w.onConnOffline user) := by
  obtain ⟨hheap, hlogic, _⟩ := onConnOffline_fields w user
  refine ⟨by rw [hheap], hlogic, ?_, ?_, ?_⟩ <;> intro p
  · rw [hheap]
  · rw [node_onConnOffline]
  · rw [node_onConnOffline]

theorem SameConns.trans {w₁ w₂ w₃ : GateWorker} (h : SameConns w₁ w₂) (h' : SameConns w₂ w₃) :
    SameConns w₁ w₃ where
  next := h'.next.trans h.next
  logic := h'.logic.trans h.logic
  uid p := (h'.uid p).trans (h.uid p)
  type p := (h'.type p).trans (h.type p)
  sfd p := (h'.sfd p).trans (h.sfd p)

theorem sameConns_serveUser (io : Int32 → KernelIo) (w : GateWorker) (user : Ptr) :
    SameConns w (w.serveUser io user) := by
  have hserved := SameConns.served io w user
  rcases serveUser_cases io w user with ⟨_, _, ⟨_, hw⟩ | ⟨_, hw⟩ | ⟨_, _, hw⟩⟩ <;> rw [hw]
  · exact hserved.trans (sameConns_onConnOffline _ user)
  · exact hserved.trans (SameConns.mk rfl rfl (fun _ => rfl) (fun _ => rfl) fun _ => rfl)
  · exact hserved

theorem wellFormed_onConnOffline (h : WellFormed rt w) {user : Ptr} (hlt : user < w.heap.next) :
    WellFormed rt (w.onConnOffline user) := by
  obtain ⟨_, _, hoff, hrd⟩ := onConnOffline_fields w user
  apply h.of_sameConns (sameConns_onConnOffline w user)
  · intro fd p hp
    obtain ⟨hp, hfd⟩ := find_onConnOffline hp
    obtain ⟨_, hsfd, hlive⟩ := h.found hp
    refine ⟨hp, ?_⟩
    rw [hoff, List.mem_append, List.mem_singleton]
    rintro (hdead | rfl)
    · -- it had ended before
      exact hlive hdead
    · -- it is the one that ends, and its descriptor is erased
      exact hfd hsfd.symm
  · intro msg hmsg
    rw [queue_onConnOffline] at hmsg
    rcases List.mem_append.mp hmsg with hmsg | hmsg
    · exact .inl hmsg
    · split_ifs at hmsg with hsys
      · exact absurd hmsg List.not_mem_nil
      · -- the offline message is about a user, not about Logic
        refine .inr ⟨user, ⟨hlt, ?_⟩, .offline (List.mem_singleton.mp hmsg)⟩
        rintro rfl
        exact hsys h.logic_type
  · intro p hp
    rw [hoff, List.mem_append, List.mem_singleton] at hp
    rcases hp with hp | rfl
    · exact h.offline_lt p hp
    · exact hlt
  · rw [hrd]
    exact h.rdUsers_lt

/-- `event_op` itself touches neither the tables nor the queue. -/
theorem wellFormed_served (h : WellFormed rt w) (io : Int32 → KernelIo) (user : Ptr) :
    WellFormed rt (w.served io user) := by
  apply h.of_sameConns (SameConns.served io w user)
  · intro fd p hp
    exact ⟨hp, (h.found hp).2.2⟩
  · intro msg hmsg
    exact .inl hmsg
  · exact h.offline_lt
  · exact h.rdUsers_lt

theorem wellFormed_serveUser (h : WellFormed rt w) (io : Int32 → KernelIo) {user : Ptr}
    (hlt : user < w.heap.next) : WellFormed rt (w.serveUser io user) := by
  have hserved := wellFormed_served h io user
  rcases serveUser_cases io w user with ⟨delta, _, ⟨_, hw⟩ | ⟨_, hw⟩ | ⟨_, _, hw⟩⟩ <;> rw [hw]
  · -- the connection has failed
    exact wellFormed_onConnOffline hserved hlt
  · -- it has sent something
    refine hserved.of_sameConns (SameConns.mk rfl rfl (fun _ => rfl) (fun _ => rfl) fun _ => rfl)
      ?_ ?_ ?_ ?_
    · intro fd p hp
      exact ⟨hp, (hserved.found hp).2.2⟩
    · intro msg hmsg
      exact .inl hmsg
    · exact hserved.offline_lt
    · intro p hp
      rcases List.mem_append.mp hp with hp | hp
      · exact h.rdUsers_lt p hp
      · rw [List.mem_singleton.mp hp]
        exact hlt
  · exact hserved

theorem ParsedFrom.sameConns {user : Ptr} {taken : List Frame} {msgs : List UserMsg}
    (h : ParsedFrom rt w w' user taken msgs) : SameConns w w' := by
  obtain ⟨buff, hnode, _⟩ := h.node
  refine ⟨h.next, h.logic, h.uid, ?_, ?_⟩
  · intro p
    by_cases hp : p = user
    · rw [hp, hnode]
    · rw [h.kept p hp]
  · intro p
    by_cases hp : p = user
    · rw [hp, hnode]
    · rw [h.kept p hp]

theorem ParsedFrom.queue {user : Ptr} {taken : List Frame} {msgs : List UserMsg}
    (h : ParsedFrom rt w w' user taken msgs) : w'.queue = w.queue ++ msgs := by
  unfold GateWorker.queue
  rw [h.toLogic, h.userMsgsIn, List.append_assoc]

theorem wellFormed_parseUser (h : WellFormed rt w) {user : Ptr} (hlt : user < w.heap.next) :
    WellFormed rt (w.parseUser rt user) := by
  obtain ⟨msgs, hp⟩ := parseUser_spec rt w user
  apply h.of_sameConns hp.sameConns
  · intro fd p hfind
    rw [hp.users] at hfind
    rw [hp.offline]
    exact ⟨hfind, (h.found hfind).2.2⟩
  · intro msg hmsg
    rw [hp.queue] at hmsg
    rcases List.mem_append.mp hmsg with hmsg | hmsg
    · exact .inl hmsg
    · have henv := hp.envelopes
      split_ifs at henv with hsys
      · cases henv
        exact absurd hmsg List.not_mem_nil
      · -- a message queued has the uid of the connection
        obtain ⟨f, hf, henv⟩ := exists_envelope henv hmsg
        have huid : f.uid = (w.heap.obj user).uid := (wanted_iff.mp (List.mem_filter.mp hf).2).2
        refine .inr ⟨user, ⟨hlt, ?_⟩, .frame f huid henv⟩
        rintro rfl
        exact hsys h.logic_type
  · rw [hp.offline]
    exact h.offline_lt
  · rw [hp.rdUsers]
    exact h.rdUsers_lt

/-! ## Whole rounds -/

/-- The object exists and its connection has not ended. -/
def Live (w : GateWorker) (p : Ptr) : Prop := p < w.heap.next ∧ p ∉ w.offline

theorem threadLoop_eq (w : GateWorker) (r : WorkerRound) :
    w.threadLoop rt r = ((w.readIn r).handlerEpdata rt).handlerMsgs rt r.writes := rfl

/-- Distinct users of one round are all live when they are served: serving a user
can only end the connection of that user. -/
theorem along_live (io : Int32 → KernelIo) {l : List Ptr} (hl : l.Nodup) {w : GateWorker}
    (h : ∀ p ∈ l, w.Live p) : Along (serveUser io) Live w l := by
  induction l generalizing w with
  | nil => trivial
  | cons user l ih =>
      refine ⟨h user (List.mem_cons_self ..), ih (List.nodup_cons.mp hl).2 ?_⟩
      intro p hp
      -- the users still to serve differ from the one just served
      have hne : p ≠ user := fun heq => (List.nodup_cons.mp hl).1 (heq ▸ hp)
      obtain ⟨hlt, hlive⟩ := h p (List.mem_cons_of_mem _ hp)
      rcases serveUser_cases io w user with ⟨_, _, ⟨_, hw⟩ | ⟨_, hw⟩ | ⟨_, _, hw⟩⟩ <;> rw [hw]
      · obtain ⟨hheap, _, hoff, _⟩ := onConnOffline_fields (w.served io user) user
        refine ⟨by rw [hheap]; exact hlt, ?_⟩
        rw [hoff, List.mem_append, List.mem_singleton]
        rintro (hdead | heq)
        · exact hlive hdead
        · exact hne heq
      · exact ⟨hlt, hlive⟩
      · exact ⟨hlt, hlive⟩

/-- Marking: the users of the round are distinct and live. -/
theorem foldl_markEvent_spec {evs : List EpollEvent} (hevs : (evs.map EpollEvent.fd).Nodup)
    (h : WellFormed rt w) (hnodup : w.epevUsers.Nodup)
    (hlive : ∀ p ∈ w.epevUsers, w.Live p ∧ (w.node p).sfd ∉ evs.map EpollEvent.fd) :
    Calm w (evs.foldl markEvent w) ∧ (evs.foldl markEvent w).queue = w.queue ∧
      (evs.foldl markEvent w).epevUsers.Nodup ∧
      ∀ p ∈ (evs.foldl markEvent w).epevUsers, w.Live p := by
  induction evs generalizing w with
  | nil =>
      exact ⟨Calm.of_eq rfl rfl rfl rfl rfl, rfl, hnodup, fun p hp => (hlive p hp).1⟩
  | cons ev evs ih =>
      obtain ⟨hcalm, hqueue, hlist⟩ := markEvent_spec w ev
      rw [List.map_cons, List.nodup_cons] at hevs
      -- marking ends no connection
      have hback : ∀ p, (w.markEvent ev).Live p ↔ w.Live p := by
        intro p
        unfold Live
        rw [hcalm.next, hcalm.offline]
      have hrest : ∀ p ∈ w.epevUsers, (w.markEvent ev).Live p ∧
          ((w.markEvent ev).node p).sfd ∉ evs.map EpollEvent.fd := by
        intro p hp
        obtain ⟨hp', hfd⟩ := hlive p hp
        rw [hback, (hcalm.kept p).sfd]
        exact ⟨hp', fun hmem => hfd (List.mem_cons_of_mem _ hmem)⟩
      have hstep : (w.markEvent ev).epevUsers.Nodup ∧
          ∀ p ∈ (w.markEvent ev).epevUsers, (w.markEvent ev).Live p ∧
            ((w.markEvent ev).node p).sfd ∉ evs.map EpollEvent.fd := by
        rcases hlist with hsame | ⟨user, hfind, hmore⟩
        · -- no user behind the descriptor, or no flag set
          rw [hsame]
          exact ⟨hnodup, hrest⟩
        · -- the user behind the descriptor joins the list
          obtain ⟨hlt, hsfd, hon⟩ := h.found hfind
          rw [hmore]
          refine ⟨?_, ?_⟩
          · -- the descriptor of this event is none of those seen before
            rw [List.nodup_append]
            refine ⟨hnodup, List.nodup_singleton _, ?_⟩
            rintro p hp q hq rfl
            rw [List.mem_singleton.mp hq] at hp
            exact (hlive user hp).2 (hsfd ▸ List.mem_cons_self ..)
          · intro p hp
            rcases List.mem_append.mp hp with hp | hp
            · exact hrest p hp
            · rw [List.mem_singleton.mp hp, hback, (hcalm.kept user).sfd, hsfd]
              exact ⟨⟨hlt, hon⟩, hevs.1⟩
      obtain ⟨hc, hq, hn, hl⟩ := ih hevs.2 (h.of_calm hcalm hqueue) hstep.1 hstep.2
      exact ⟨hcalm.trans hc, hq.trans hqueue, hn, fun p hp => (hback p).mp (hl p hp)⟩

/-- What holds between two rounds. -/
structure Idle (rt : Runtime) (w : GateWorker) : Prop where
  wellFormed : WellFormed rt w
  userMsgsIn : w.userMsgsIn = []
  epevUsers : w.epevUsers = []

/-- A property that every stage preserves, where the users served satisfy `P`. -/
structure StageInvariant (rt : Runtime) (P : (Int32 → KernelIo) → GateWorker → Ptr → Prop)
    (I : GateWorker → Prop) : Prop where
  wellFormed : ∀ {w}, I w → WellFormed rt w
  calm : ∀ {w w'}, I w → Calm w w' → w'.queue = w.queue → I w'
  connect : ∀ {w} ev, I w → I (w.onNewConnect ev)
  serve : ∀ {w user} io, I w → w.Live user → P io w user → I (w.serveUser io user)
  parse : ∀ {w user}, I w → user < w.heap.next → I (w.parseUser rt user)

section Round

variable {P : (Int32 → KernelIo) → GateWorker → Ptr → Prop} {I : GateWorker → Prop}

theorem StageInvariant.handlerIoevent (hI : StageInvariant rt P I) (h : I w) :
    I w.handlerIoevent := by
  have hstart : I { w with ioevsIn := [] } := hI.calm h (Calm.of_eq rfl rfl rfl rfl rfl) rfl
  apply run_invariant (I := I) ?_ hstart w.ioevsIn
  intro v ev hv
  unfold ioevent
  split_ifs
  · exact hI.connect ev hv
  · exact hv

/-- Connecting users puts nobody on the list of the round. -/
theorem epevUsers_handlerIoevent (w : GateWorker) :
    w.handlerIoevent.epevUsers = w.epevUsers := by
  refine run_invariant (I := fun v => v.epevUsers = w.epevUsers) ?_
    (s := { w with ioevsIn := [] }) rfl w.ioevsIn
  intro v ev hv
  unfold ioevent
  split_ifs
  · exact hv
  · exact hv

theorem StageInvariant.marked (hI : StageInvariant rt P I) (h : I w) (hev : w.epevUsers = [])
    (r : WorkerRound) :
    I (w.marked r) ∧ (w.marked r).epevUsers.Nodup ∧
      ∀ p ∈ (w.marked r).epevUsers, (w.marked r).Live p := by
  have hin : I { w with ioevsIn := w.ioevsIn ++ r.ioevs } :=
    hI.calm h (Calm.of_eq rfl rfl rfl rfl rfl) rfl
  have hconn := hI.handlerIoevent hin
  have hempty : GateWorker.epevUsers (GateWorker.handlerIoevent
      { w with ioevsIn := w.ioevsIn ++ r.ioevs }) = [] :=
    (epevUsers_handlerIoevent _).trans hev
  unfold GateWorker.marked
  generalize GateWorker.handlerIoevent { w with ioevsIn := w.ioevsIn ++ r.ioevs } = v
    at hconn hempty ⊢
  -- nobody is on the list yet
  have hnone : ∀ p ∈ v.epevUsers, v.Live p ∧ (v.node p).sfd ∉ r.events.map EpollEvent.fd := by
    intro p hp
    rw [hempty] at hp
    exact absurd hp List.not_mem_nil
  obtain ⟨hcalm, hqueue, hnodup, hlive⟩ :=
    foldl_markEvent_spec r.nodup_events (hI.wellFormed hconn) (hempty ▸ List.nodup_nil) hnone
  refine ⟨hI.calm hconn hcalm hqueue, hnodup, ?_⟩
  intro p hp
  unfold Live
  rw [hcalm.next, hcalm.offline]
  exact hlive p hp

theorem StageInvariant.readIn (hI : StageInvariant rt P I) (h : I w) (hev : w.epevUsers = [])
    {r : WorkerRound} (hP : Along (serveUser r.io) (P r.io) (w.marked r) (w.marked r).epevUsers) :
    I (w.readIn r) := by
  obtain ⟨hmarked, hnodup, hlive⟩ := hI.marked h hev r
  -- each user served is live, and `P` holds of it
  have hserved : I ((w.marked r).epevUsers.foldl (serveUser r.io) (w.marked r)) := by
    apply run_invariant_of_along ?_ hmarked ((along_live r.io hnodup hlive).and hP)
    rintro v user hv ⟨hlive, hP⟩
    exact hI.serve r.io hv hlive hP
  exact hI.calm hserved (Calm.of_eq rfl rfl rfl rfl rfl) rfl

/-- Parsing leaves the list of users to parse alone, so every user on it is parsed. -/
theorem StageInvariant.parsed (hI : StageInvariant rt P I) (h : I w) {l : List Ptr}
    (hl : ∀ p ∈ l, p < w.heap.next) : I (l.foldl (parseUser rt) w) := by
  induction l generalizing w with
  | nil => exact h
  | cons user l ih =>
      obtain ⟨msgs, hp⟩ := parseUser_spec rt w user
      apply ih (hI.parse h (hl user (List.mem_cons_self ..)))
      intro p hmem
      rw [hp.next]
      exact hl p (List.mem_cons_of_mem _ hmem)

/-- **Round rule**: what every stage preserves, a round preserves. -/
theorem StageInvariant.threadLoop (hI : StageInvariant rt P I) (h : I w)
    (hev : w.epevUsers = []) {r : WorkerRound}
    (hP : Along (serveUser r.io) (P r.io) (w.marked r) (w.marked r).epevUsers) :
    I (w.threadLoop rt r) := by
  have hread := hI.readIn h hev hP
  have hparsed := hI.parsed hread (hI.wellFormed hread).rdUsers_lt
  obtain ⟨hcalm, hqueue, _⟩ := handlerMsgs_spec rt ((w.readIn r).handlerEpdata rt) r.writes
  exact hI.calm hparsed hcalm hqueue

end Round

/-- Being well-formed needs no condition on the users served. -/
theorem stageInvariant_wellFormed : StageInvariant rt (fun _ _ _ => True) (WellFormed rt) where
  wellFormed h := h
  calm h hc hq := h.of_calm hc hq
  connect ev h := wellFormed_onNewConnect h ev
  serve io h hlive _ := wellFormed_serveUser h io hlive.1
  parse h hlt := wellFormed_parseUser h hlt

/-- Connections stay what they are. -/
theorem stageInvariant_isConn (p : Ptr) :
    StageInvariant rt (fun _ _ _ => True) (fun w => WellFormed rt w ∧ w.IsConn p) where
  wellFormed h := h.1
  calm h hc hq := ⟨h.1.of_calm hc hq, (hc.sameConns.isConn p).mpr h.2⟩
  connect ev h := ⟨wellFormed_onNewConnect h.1 ev, Nat.lt_succ_of_lt h.2.1, h.2.2⟩
  serve {w user} io h hlive _ :=
    ⟨wellFormed_serveUser h.1 io hlive.1, ((sameConns_serveUser io w user).isConn p).mpr h.2⟩
  parse {w user} h hlt := by
    obtain ⟨msgs, hparse⟩ := parseUser_spec rt w user
    exact ⟨wellFormed_parseUser h.1 hlt, (hparse.sameConns.isConn p).mpr h.2⟩

/-- Parsing ends no connection and serves nobody. -/
theorem handlerEpdata_fields (l : List Ptr) (w : GateWorker) :
    (l.foldl (parseUser rt) w).epevUsers = w.epevUsers ∧
      (l.foldl (parseUser rt) w).offline = w.offline := by
  induction l generalizing w with
  | nil => exact ⟨rfl, rfl⟩
  | cons user l ih =>
      obtain ⟨msgs, hp⟩ := parseUser_spec rt w user
      obtain ⟨hev, hoff⟩ := ih (w.parseUser rt user)
      exact ⟨hev.trans hp.epevUsers, hoff.trans hp.offline⟩

/-- Nobody is known by uid at first: the Logic user has uid 0, which `add_user`
does not store. -/
theorem find_uidUsers_init (logicFd u : Int32) : (init logicFd).users.uidUsers.find u = none := by
  have husers : (init logicFd).users = UserManager.new.addUser (init logicFd).heap 0 := rfl
  have hobj : (init logicFd).heap.obj 0 = logicUser logicFd := Heap.obj_alloc ..
  have huid : ((init logicFd).heap.obj 0).uid = 0 := by
    rw [hobj]
    rfl
  rw [husers, UserManager.addUser_eq, UserManager.uidUsers_addSock,
    UserManager.find_uidUsers_addUid, huid]
  split_ifs with hpos
  · exact absurd hpos.2.2 (by decide)
  · rfl

theorem idle_init (logicFd : Int32) : Idle rt (init logicFd) := by
  have hobj : (init logicFd).heap.obj 0 = logicUser logicFd := Heap.obj_alloc ..
  have hnode : (init logicFd).node 0 = { sfd := logicFd, type := .system } := by
    rw [node, hobj]
    rfl
  refine ⟨⟨Nat.one_pos, ?_, ?_, ?_, ?_, ?_, ?_⟩, rfl, rfl⟩
  · exact congrArg SocketNode.type hnode
  · intro p hp
    -- the Logic connection is the only object
    exact absurd (Nat.lt_one_iff.mp hp.1) hp.2
  · intro fd p hp
    have husers : (init logicFd).users = UserManager.new.addUser (init logicFd).heap 0 := rfl
    rw [husers, UserManager.addUser_eq, UserManager.find_sockUsers_addSock] at hp
    split_ifs at hp with hfd
    · -- the Logic connection itself
      rw [← Option.some.inj hp]
      exact ⟨Nat.one_pos, hfd.1.symm, List.not_mem_nil⟩
    · rw [UserManager.sockUsers_addUid] at hp
      cases hp
  · intro msg hmsg
    exact absurd hmsg List.not_mem_nil
  · intro p hp
    exact absurd hp List.not_mem_nil
  · intro p hp
    exact absurd hp List.not_mem_nil

theorem isConn_threadLoop (h : Idle rt w) (r : WorkerRound) {p : Ptr} (hp : w.IsConn p) :
    (w.threadLoop rt r).IsConn p :=
  ((stageInvariant_isConn p).threadLoop ⟨h.wellFormed, hp⟩ h.epevUsers (along_true _ _)).2

theorem idle_threadLoop (h : Idle rt w) (r : WorkerRound) : Idle rt (w.threadLoop rt r) := by
  refine ⟨stageInvariant_wellFormed.threadLoop h.wellFormed h.epevUsers (along_true _ _), ?_, ?_⟩
  · exact (handlerMsgs_spec rt ((w.readIn r).handlerEpdata rt) r.writes).2.2.1
  · refine (handlerMsgs_spec rt ((w.readIn r).handlerEpdata rt) r.writes).2.2.2.trans ?_
    exact (handlerEpdata_fields _ _).1

/-! ## The inbox -/

/-- The descriptor of Logic and the lists shared with the IO thread stay. -/
structure SameInbox (w w' : GateWorker) : Prop where
  logicFd : w'.logicFd = w.logicFd
  ioevsIn : w'.ioevsIn = w.ioevsIn
  eventsIo : w'.eventsIo = w.eventsIo

theorem SameInbox.trans {w₁ w₂ w₃ : GateWorker} (h : SameInbox w₁ w₂) (h' : SameInbox w₂ w₃) :
    SameInbox w₁ w₃ where
  logicFd := h'.logicFd.trans h.logicFd
  ioevsIn := h'.ioevsIn.trans h.ioevsIn
  eventsIo := h'.eventsIo.trans h.eventsIo

theorem sameInbox_ioevent (w : GateWorker) (ev : EventNode) : SameInbox w (w.ioevent ev) := by
  unfold ioevent
  split_ifs <;> exact ⟨rfl, rfl, rfl⟩

theorem sameInbox_markEvent (w : GateWorker) (ev : EpollEvent) : SameInbox w (w.markEvent ev) := by
  unfold markEvent
  cases w.users.getUserBySock ev.fd with
  | none => exact ⟨rfl, rfl, rfl⟩
  | some user =>
      simp only
      split_ifs <;> exact ⟨rfl, rfl, rfl⟩

theorem sameInbox_serveUser (io : Int32 → KernelIo) (w : GateWorker) (user : Ptr) :
    SameInbox w (w.serveUser io user) := by
  rcases serveUser_cases io w user with ⟨_, _, ⟨_, hw⟩ | ⟨_, hw⟩ | ⟨_, _, hw⟩⟩ <;> rw [hw]
  · unfold onConnOffline
    simp only [queuePresence_offline]
    split_ifs <;> exact ⟨rfl, rfl, rfl⟩
  · exact ⟨rfl, rfl, rfl⟩
  · exact ⟨rfl, rfl, rfl⟩

variable (rt)

theorem sameInbox_parseUser (w : GateWorker) (user : Ptr) : SameInbox w (w.parseUser rt user) := by
  unfold parseUser
  simp only [foldl_takeMsg]
  split_ifs <;> exact ⟨rfl, rfl, rfl⟩

theorem sameInbox_sendToUser (s : GateWorker × List WriteRes) (msg : UserMsg) :
    SameInbox s.1 (sendToUser rt s msg).1 := by
  obtain ⟨w, writes⟩ := s
  rcases sendToUser_cases rt w writes msg with h | ⟨user, sock, tcpOp, writes', _, h⟩ <;> rw [h]
  · exact ⟨rfl, rfl, rfl⟩
  · exact ⟨rfl, rfl, rfl⟩

/-- What each step of a loop keeps, the loop keeps. -/
theorem sameInbox_foldl {σ ι : Type*} (step : σ → ι → σ) (worker : σ → GateWorker)
    (hstep : ∀ s i, SameInbox (worker s) (worker (step s i))) (s : σ) (is : List ι) :
    SameInbox (worker s) (worker (is.foldl step s)) :=
  run_invariant (I := fun s' => SameInbox (worker s) (worker s'))
    (fun s' i h => h.trans (hstep s' i)) ⟨rfl, rfl, rfl⟩ is

theorem sameInbox_handlerMsgs (w : GateWorker) (writes : List WriteRes) :
    SameInbox w (w.handlerMsgs rt writes) := by
  have hsent := sameInbox_foldl (sendToLogic rt) Prod.fst (fun _ _ => ⟨rfl, rfl, rfl⟩)
    (w, writes) w.userMsgsIn
  unfold handlerMsgs
  generalize w.userMsgsIn.foldl (sendToLogic rt) (w, writes) = s at hsent ⊢
  obtain ⟨v, writes'⟩ := s
  simp only
  have hdistributed := sameInbox_foldl (sendToUser rt) Prod.fst
    (sameInbox_sendToUser rt) ({ v with userMsgsIn := [] }, writes') v.logicMsgsIn
  have hcleared : SameInbox v { v with userMsgsIn := [] } := ⟨rfl, rfl, rfl⟩
  exact (hsent.trans hcleared).trans (hdistributed.trans ⟨rfl, rfl, rfl⟩)

/-- A round takes every event handed over and leaves the rest of the inbox alone. -/
theorem threadLoop_inbox (w : GateWorker) (r : WorkerRound) :
    (w.threadLoop rt r).logicFd = w.logicFd ∧ (w.threadLoop rt r).ioevsIn = [] ∧
      (w.threadLoop rt r).eventsIo = w.eventsIo := by
  -- the events are taken at the start
  let taken : GateWorker := { w with ioevsIn := [] }
  have hconn : SameInbox taken (handlerIoevent { w with ioevsIn := w.ioevsIn ++ r.ioevs }) :=
    sameInbox_foldl _ id sameInbox_ioevent taken _
  have hread : SameInbox taken (w.readIn r) :=
    ((hconn.trans (sameInbox_foldl _ id sameInbox_markEvent _ r.events)).trans
      (sameInbox_foldl _ id (sameInbox_serveUser r.io) _ (w.marked r).epevUsers)).trans
      ⟨rfl, rfl, rfl⟩
  have hparsed : SameInbox taken ((w.readIn r).handlerEpdata rt) :=
    hread.trans (sameInbox_foldl _ id (sameInbox_parseUser rt) _ _)
  have hall : SameInbox taken (w.threadLoop rt r) := hparsed.trans (sameInbox_handlerMsgs rt _ r.writes)
  exact ⟨hall.logicFd, hall.ioevsIn, hall.eventsIo⟩

end Rubo.Server.GateWorker
