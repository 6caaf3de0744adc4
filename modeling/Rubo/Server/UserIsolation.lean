import Rubo.Server.GateWire

/-!
# User Isolation in a GateWorker

Users are told apart by the uid in a message header, which anybody can forge. A
worker keeps them apart as long as it knows which connection is on a descriptor.

- `users_isolated`: in a run whose CONNECT events are all for fresh descriptors,
  what a connection sends reaches Logic under the uid of its CONNECT event only,
  and what Logic sends is written to connections of the addressed uid only.
- `not_users_isolated_takenOver`: after a CONNECT event for a descriptor that is
  still filed, the new user of the descriptor speaks under the uid of the old one.
-/

namespace Rubo.Server.GateWorker

open Rubo.Foundation Rubo.Msgs Rubo.Util
open SocketNode (Kept Grown)

variable (rt : Runtime) {w w' : GateWorker} {evs : List EventNode} {wire : Wire}

/-! ## What a message stems from -/

/-- The message is a presence message about a connection of this uid, or one of the
frames `fs` the connection has sent. -/
inductive StemsFrom (c : Ptr) (uid sfd : Int32) (fs : List Frame) (msg : UserMsg) : Prop where
  | online (h : msg = onlineOf c uid)
  | offline (h : msg = offlineOf c uid)
  | frame (f : Frame) (hf : f ∈ fs) (huid : f.uid = uid) (h : MsgCenter.IsEnvelope rt c sfd msg f)

variable {rt}

theorem StemsFrom.mono {c : Ptr} {uid sfd : Int32} {fs fs' : List Frame} {msg : UserMsg}
    (h : StemsFrom rt c uid sfd fs msg) (hfs : fs ⊆ fs') : StemsFrom rt c uid sfd fs' msg := by
  cases h with
  | online h => exact .online h
  | offline h => exact .offline h
  | frame f hf huid h => exact .frame f (hfs hf) huid h

theorem StemsFrom.uid_eq {c : Ptr} {uid sfd : Int32} {fs : List Frame} {msg : UserMsg}
    (h : StemsFrom rt c uid sfd fs msg) : msg.uid = uid := by
  cases h with
  | online h => rw [h]; rfl
  | offline h => rw [h]; rfl
  | frame f _ huid h =>
      obtain ⟨mc, t, _, rfl⟩ := h
      exact huid

/-- The complete frames read through an object. -/
def readFrames (w : GateWorker) (p : Ptr) : List Frame :=
  (frameDecoder.drain (w.node p).received).1

variable (rt)

/-- The read buffers hold the rest of what was read, and every message for Logic
stems from a connection. -/
structure Heard (w : GateWorker) : Prop where
  buffered : ∀ p, ∃ taken,
    frameDecoder.Accounts (w.node p).received taken (w.node p).rdBuff.toList
  stems : ∀ msg ∈ w.queue, ∃ p, w.IsConn p ∧
    StemsFrom rt p (w.heap.obj p).uid (w.node p).sfd (w.readFrames p) msg

variable {rt}

/-- Stages that read for connections, but make none and parse nothing. -/
theorem Heard.of_grown (h : Heard rt w) (hs : SameConns w w')
    (hgrown : ∀ p, ∃ delta, (w.node p).Grown (w'.node p) delta)
    (hqueue : ∀ msg ∈ w'.queue, msg ∈ w.queue ∨ ∃ p, w.IsConn p ∧
      StemsFrom rt p (w.heap.obj p).uid (w.node p).sfd (w.readFrames p) msg) : Heard rt w' := by
  constructor
  · intro p
    obtain ⟨taken, hacc⟩ := h.buffered p
    obtain ⟨delta, hdelta⟩ := hgrown p
    refine ⟨taken, ?_⟩
    rw [hdelta.received, hdelta.rdBuff]
    exact hacc.append delta
  · intro msg hmsg
    have hbefore : ∃ p, w.IsConn p ∧
        StemsFrom rt p (w.heap.obj p).uid (w.node p).sfd (w.readFrames p) msg := by
      rcases hqueue msg hmsg with hold | hnew
      · exact h.stems msg hold
      · exact hnew
    obtain ⟨p, hp, hstems⟩ := hbefore
    obtain ⟨delta, hdelta⟩ := hgrown p
    refine ⟨p, (hs.isConn p).mpr hp, ?_⟩
    rw [hs.uid, hs.sfd]
    -- what was a frame before more arrived still is one
    apply hstems.mono
    rw [readFrames, readFrames, hdelta.received]
    exact (Decoder.drain_fst_prefix _ _).subset

theorem heard_onNewConnect (hwf : WellFormed rt w) (h : Heard rt w) (ev : EventNode) :
    Heard rt (w.onNewConnect ev) := by
  constructor
  · intro p
    rw [node_onNewConnect]
    split_ifs
    · -- nothing read, nothing buffered
      exact ⟨[], rfl⟩
    · exact h.buffered p
  · intro msg hmsg
    rw [queue_onNewConnect] at hmsg
    rcases List.mem_append.mp hmsg with hold | hnew
    · obtain ⟨p, hp, hstems⟩ := h.stems msg hold
      have hne : p ≠ w.heap.next := Nat.ne_of_lt hp.1
      refine ⟨p, ⟨Nat.lt_succ_of_lt hp.1, hp.2⟩, ?_⟩
      rw [readFrames, obj_onNewConnect, node_onNewConnect, if_neg hne, if_neg hne]
      exact hstems
    · refine ⟨w.heap.next, ⟨Nat.lt_succ_self _, (Nat.ne_of_lt hwf.logic_lt).symm⟩, .online ?_⟩
      rw [obj_onNewConnect, if_pos rfl]
      exact List.mem_singleton.mp hnew

theorem grown_serveUser (io : Int32 → KernelIo) (w : GateWorker) (user p : Ptr) :
    ∃ delta, (w.node p).Grown ((w.serveUser io user).node p) delta := by
  obtain ⟨delta, hgrown, hcases⟩ := serveUser_cases io w user
  have hserved : ∃ delta, (w.node p).Grown ((w.served io user).node p) delta := by
    by_cases hp : p = user
    · rw [hp]
      exact ⟨delta, hgrown⟩
    · rw [node_served_of_ne io w hp]
      exact ⟨[], Kept.of_eq rfl rfl rfl rfl⟩
  rcases hcases with ⟨_, hw⟩ | ⟨_, hw⟩ | ⟨_, _, hw⟩ <;> rw [hw]
  · rw [node_onConnOffline]
    exact hserved
  · exact hserved
  · exact hserved

theorem heard_serveUser (hwf : WellFormed rt w) (h : Heard rt w) (io : Int32 → KernelIo)
    {user : Ptr} (hlt : user < w.heap.next) : Heard rt (w.serveUser io user) := by
  apply h.of_grown (sameConns_serveUser io w user) (grown_serveUser io w user)
  intro msg hmsg
  have hsame := SameConns.served io w user
  rcases serveUser_cases io w user with ⟨_, _, ⟨_, hw⟩ | ⟨_, hw⟩ | ⟨_, _, hw⟩⟩ <;> rw [hw] at hmsg
  · rw [queue_onConnOffline, hsame.type, hsame.uid] at hmsg
    rcases List.mem_append.mp hmsg with hold | hnew
    · exact .inl hold
    · split_ifs at hnew with hsys
      · exact absurd hnew List.not_mem_nil
      · -- the offline message is about a user, not about Logic
        refine .inr ⟨user, ⟨hlt, ?_⟩, .offline (List.mem_singleton.mp hnew)⟩
        rintro rfl
        exact hsys hwf.logic_type
  · exact .inl hmsg
  · exact .inl hmsg

theorem heard_parseUser (hwf : WellFormed rt w) (h : Heard rt w) {user : Ptr}
    (hlt : user < w.heap.next) : Heard rt (w.parseUser rt user) := by
  obtain ⟨msgs, hp⟩ := parseUser_spec rt w user
  obtain ⟨buff, hnode, htaken⟩ := hp.node
  have hsame := hp.sameConns
  have hreceived : ∀ p, ((w.parseUser rt user).node p).received = (w.node p).received := by
    intro p
    by_cases hpu : p = user
    · rw [hpu, hnode]
    · rw [hp.kept p hpu]
  obtain ⟨taken, hacc⟩ := h.buffered user
  constructor
  · intro p
    by_cases hpu : p = user
    · rw [hpu, hnode]
      have hacc' := hacc.drainUntil fun f => !MsgCenter.registered f.msgId
      rw [← MsgCenter.taken, htaken] at hacc'
      exact ⟨_, hacc'⟩
    · rw [hp.kept p hpu]
      exact h.buffered p
  · intro msg hmsg
    rw [hp.queue] at hmsg
    have hbefore : ∃ p, w.IsConn p ∧
        StemsFrom rt p (w.heap.obj p).uid (w.node p).sfd (w.readFrames p) msg := by
      rcases List.mem_append.mp hmsg with hold | hnew
      · exact h.stems msg hold
      · have henv := hp.envelopes
        split_ifs at henv with hsys
        · cases henv
          exact absurd hnew List.not_mem_nil
        · -- a frame of the connection parsed
          obtain ⟨f, hf, henv⟩ := exists_envelope henv hnew
          obtain ⟨hmem, hwanted⟩ := List.mem_filter.mp hf
          refine ⟨user, ⟨hlt, ?_⟩, .frame f (hacc.mem_drain hmem) (wanted_iff.mp hwanted).2 henv⟩
          rintro rfl
          exact hsys hwf.logic_type
    obtain ⟨p, hconn, hstems⟩ := hbefore
    refine ⟨p, (hsame.isConn p).mpr hconn, ?_⟩
    rw [readFrames, hreceived, hsame.uid, hsame.sfd]
    exact hstems

theorem stageInvariant_heard :
    StageInvariant rt (fun _ _ _ => True) (fun w => WellFormed rt w ∧ Heard rt w) where
  wellFormed h := h.1
  calm h hc hq := by
    refine ⟨h.1.of_calm hc hq, h.2.of_grown hc.sameConns (fun p => ⟨[], hc.kept p⟩) ?_⟩
    intro msg hmsg
    exact .inl (hq ▸ hmsg)
  connect ev h := ⟨wellFormed_onNewConnect h.1 ev, heard_onNewConnect h.1 h.2 ev⟩
  serve io h hlive _ := ⟨wellFormed_serveUser h.1 io hlive.1, heard_serveUser h.1 h.2 io hlive.1⟩
  parse h hlt := ⟨wellFormed_parseUser h.1 hlt, heard_parseUser h.1 h.2 hlt⟩

theorem heard_init (logicFd : Int32) : Heard rt (init logicFd) := by
  constructor
  · intro p
    have hnode : ((init logicFd).node p).received = [] ∧
        ((init logicFd).node p).rdBuff.toList = [] := by
      rw [node]
      show ((((Heap.empty {}).alloc (logicUser logicFd)).2.obj p).node).received = [] ∧
        ((((Heap.empty {}).alloc (logicUser logicFd)).2.obj p).node).rdBuff.toList = []
      rw [Heap.obj_alloc]
      split_ifs <;> exact ⟨rfl, rfl⟩
    rw [hnode.1, hnode.2]
    exact ⟨[], rfl⟩
  · intro msg hmsg
    exact absurd hmsg List.not_mem_nil

theorem heard_run (rt : Runtime) (logicFd : Int32) (rounds : List WorkerRound) :
    Heard rt (run (threadLoop rt) (init logicFd) rounds) := by
  have hstart : Idle rt (init logicFd) ∧ Heard rt (init logicFd) :=
    ⟨idle_init logicFd, heard_init logicFd⟩
  refine (run_invariant (I := fun w => Idle rt w ∧ Heard rt w) ?_ hstart rounds).2
  rintro w r ⟨hidle, hheard⟩
  exact ⟨idle_threadLoop hidle r,
    (stageInvariant_heard.threadLoop ⟨hidle.wellFormed, hheard⟩ hidle.epevUsers (along_true _ _)).2⟩

theorem Heard.gathered (h : Heard rt w) (hidle : Idle rt w) (r : WorkerRound) :
    Heard rt (w.gathered rt r) := by
  have htrue : Along (serveUser r.io) (fun _ _ => True) (w.marked r) (w.marked r).epevUsers :=
    along_true _ _
  have hread := stageInvariant_heard.readIn ⟨hidle.wellFormed, h⟩ hidle.epevUsers htrue
  exact (stageInvariant_heard.parsed hread hread.1.rdUsers_lt).2

/-! ## Isolation -/

variable (rt)

/-- Connection `c` was started by a CONNECT event for this uid, has not ended, and
is the connection on its descriptor. -/
structure Addressed (evs : List EventNode) (wire : Wire) (w : GateWorker) (uid : Int32)
    (c : Ptr) : Prop where
  started : ∃ ev, CreatedBy evs c ev ∧ ev.uid = uid ∧ (w.node c).sfd = ev.sfd
  live : c ∉ wire.ended
  current : wire.current (w.node c).sfd = some c

/-- A message of Logic is dropped, or written to the descriptor of a connection of
its uid. -/
def Isolated (evs : List EventNode) (wire : Wire) (s : GateWorker × List WriteRes)
    (msg : UserMsg) : Prop :=
  sendToUser rt s msg = s ∨
    ∃ c, Addressed evs wire s.1 msg.uid c ∧ sendToUser rt s msg = writeTo rt s c msg

/-- **Isolation in a round**, where `evs` are the CONNECT events up to this round:

- each message for Logic stems from a connection, its header uid is the uid of the
  CONNECT event of that connection, and the object it was parsed for has read what
  came on the descriptor while the connection was on it, and nothing else;
- whoever is served, to be read or to have pending bytes flushed, is the connection
  on the descriptor used;
- each message of Logic is written, if at all, to the descriptor of a connection
  with its header uid, which is not the one to Logic. -/
structure RoundIsolated (evs : List EventNode) (s : GateWorker × Wire) (r : WorkerRound) : Prop where
  own : ∀ msg ∈ (s.1.gathered rt r).userMsgsIn, ∃ c ev, CreatedBy evs c ev ∧ msg.uid = ev.uid ∧
    StemsFrom rt c ev.uid ev.sfd ((wireAfter s r).frames c) msg ∧
    ((s.1.gathered rt r).node c).received = (wireAfter s r).stream c
  served : Along (wireServe r.io) OnItsOwn (wireMarked s r) (s.1.marked r).epevUsers
  addressed : Along (sendToUser rt) (Isolated rt evs (wireAfter s r)) (s.1.forwarded rt r)
    (s.1.forwarded rt r).1.logicMsgsIn

variable {rt}

theorem addressed_of_find (hc : Created evs w) (hu : UidTable w) (hl : Linked w wire) {uid : Int32}
    {c : Ptr} (hfind : w.users.uidUsers.find uid = some c) : Addressed evs wire w uid c := by
  obtain ⟨ev, hev⟩ := hc.exists_event (hu.isConn hfind)
  obtain ⟨huid, hsfd, _⟩ := hc.made hev
  have hlive : c ∉ w.offline := hu.live hfind
  refine ⟨⟨ev, hev, huid.symm.trans (hu.uid hfind), hsfd⟩, ?_, hl.current c ⟨(hu.isConn hfind).1, hlive⟩⟩
  rw [hl.ended]
  exact hlive

theorem isolated_sendToUser {s : GateWorker × List WriteRes} (hc : Created evs s.1)
    (hu : UidTable s.1) (hl : Linked s.1 wire) (msg : UserMsg) : Isolated rt evs wire s msg := by
  obtain ⟨w, writes⟩ := s
  unfold Isolated sendToUser
  simp only
  cases hfind : w.users.getUserByUid msg.uid with
  | none => exact .inl rfl
  | some user =>
      cases hsock : (w.heap.obj user).sock with
      | none => exact .inl (by simp only [hsock])
      | some sock =>
          have hnode : w.node user = sock := by rw [node, User.node, hsock]; rfl
          refine .inr ⟨user, addressed_of_find hc hu hl hfind, ?_⟩
          simp only [hsock, writeTo, hnode]

/-- A round is isolated when objects and connections belong together. -/
theorem roundIsolated_of_linked (ha : Apart rt evs w) (hh : Heard rt w) (hl : Linked w wire)
    {r : WorkerRound} (hfresh : ConnectsFresh w r) :
    RoundIsolated rt (evs ++ connects [r]) (w, wire) r := by
  obtain ⟨hkeeping, hcreated⟩ := ha.gathered r
  obtain ⟨hown, hlinked⟩ := linked_gathered ha.idle hl hfresh
  have hheard := hh.gathered ha.idle r
  refine ⟨?_, hown, ?_⟩
  · intro msg hmsg
    obtain ⟨c, hc, hstems⟩ := hheard.stems msg (List.mem_append_right _ hmsg)
    obtain ⟨ev, hev⟩ := hcreated.exists_event hc
    obtain ⟨huid, hsfd, _⟩ := hcreated.made hev
    have hstream := hlinked.stream c hc.1
    rw [huid, hsfd, readFrames, ← hstream] at hstems
    exact ⟨c, ev, hev, hstems.uid_eq, hstems, hstream.symm⟩
  · have hcalm : Calm (w.gathered rt r) (w.forwarded rt r).1 := calm_forwarded w r
    -- each message finds the connections and the table as they were
    refine along_of_invariant
      (I := fun s => Created (evs ++ connects [r]) s.1 ∧ UidTable s.1 ∧
        Linked s.1 (wireAfter (w, wire) r)) ?_ ?_
      ⟨hcreated.of_sameConns hcalm.sameConns, hkeeping.2.of_calm hcalm, hlinked.of_calm hcalm⟩ _
    · rintro s msg ⟨hc, hu, hl⟩
      have hsent : Calm s.1 (sendToUser rt s msg).1 := (sendToUser_spec rt [msg] s).1
      exact ⟨hc.of_sameConns hsent.sameConns, hu.of_calm hsent, hl.of_calm hsent⟩
    · rintro s msg ⟨hc, hu, hl⟩
      exact isolated_sendToUser hc hu hl msg

variable (rt)

/-- **Users are isolated as long as descriptors are fresh.** In a run whose CONNECT
events are, when they are handled, for valid descriptors that no user is filed
under, every round is isolated, whatever frames, failures and logins there are. -/
theorem users_isolated (logicFd : Int32) (rounds : List WorkerRound) (r : WorkerRound)
    (h : Along (threadLoop rt) ConnectsFresh (init logicFd) (rounds ++ [r])) :
    RoundIsolated rt (connects (rounds ++ [r])) (run (wireLoop rt) (wireInit logicFd) rounds) r := by
  obtain ⟨hrounds, hfresh, _⟩ := along_append.mp h
  have hlinked := linked_run hrounds
  have hapart := apart_run rt logicFd rounds
  have hheard := heard_run rt logicFd rounds
  rw [← fst_run_wireInit] at hfresh hapart hheard
  rw [connects_append]
  exact roundIsolated_of_linked hapart hheard hlinked hfresh

/-- Two users log in. -/
def twoLogins : List WorkerRound :=
  [{ ioevs := [{ sfd := 5, uid := 1, event := FdEvent.connect },
      { sfd := 6, uid := 2, event := FdEvent.connect }] }]

theorem users_isolated_twoLogins :
    RoundIsolated .proto2 (connects (twoLogins ++ [requestOn 5]))
      (run (wireLoop .proto2) (wireInit 3) twoLogins) (requestOn 5) :=
  users_isolated .proto2 3 twoLogins (requestOn 5) (by decide +kernel)

/-- Users are not isolated in general: when a CONNECT event finds the descriptor
still filed, a request with the uid of the user before reaches Logic under it,
although it came from the new user. -/
theorem not_users_isolated_takenOver :
    ¬ ∀ (rt : Runtime) (logicFd : Int32) (rounds : List WorkerRound) (r : WorkerRound),
      RoundIsolated rt (connects (rounds ++ [r])) (run (wireLoop rt) (wireInit logicFd) rounds) r := by
  intro h
  have hround := h .proto2 3 takenOver (requestOn 5)
  let w := ((run (wireLoop .proto2) (wireInit 3) takenOver).1.gathered .proto2 (requestOn 5))
  obtain ⟨msg, hmsg⟩ : ∃ msg, msg ∈ w.userMsgsIn :=
    List.exists_mem_of_ne_nil _ (by decide +kernel)
  have huid : ∀ msg ∈ w.userMsgsIn, msg.uid = 1 := by decide +kernel
  obtain ⟨c, ev, ⟨n, rfl, hn⟩, hown, _, hread⟩ := hround.own msg hmsg
  rw [huid msg hmsg] at hown
  have hevs : connects (takenOver ++ [requestOn 5]) =
      [{ sfd := 5, uid := 1, event := FdEvent.connect },
       { sfd := 5, uid := 2, event := FdEvent.connect }] := by decide +kernel
  rw [hevs] at hn
  rcases n with _ | _ | n
  · -- the first connection: its object has read what the second one sent
    exact absurd hread (by decide +kernel)
  · -- the second connection has another uid
    obtain rfl := Option.some.inj hn
    exact absurd hown (by decide)
  · -- there is no third one
    cases hn

end Rubo.Server.GateWorker
