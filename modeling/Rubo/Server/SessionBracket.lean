import Rubo.Server.GateWire

/-!
# Sessions on the Stream to Logic

What one connection contributes to the stream to Logic: an online message, the
wanted frames it sent, in order, and an offline message once it has ended. What a
connection sent is what was read on its descriptor while it was the connection
there (`Wire`).

- `bracketed_of_along`: this holds in every run in which CONNECT events are for
  fresh descriptors and a connection that fails has no wanted frame in its read
  buffer; frames behind an unregistered id are forwarded in later rounds.
- `not_bracketed_readWithEof`: a frame that is read together with the end of the
  stream breaks it. Its connection ends before the frame is parsed.
- A CONNECT event for a descriptor that is still filed (`takenOver`) breaks it
  too: what the second connection sends counts as the first one's.
-/

namespace Rubo.Server.GateWorker

open Rubo.Foundation Rubo.Msgs Rubo.Util
open SocketNode (Kept Grown)

variable (rt : Runtime) {w w' : GateWorker} {p : Ptr}

/-! ## Contributions -/

/-- The message comes from this connection. -/
def isFrom (p : Ptr) (msg : UserMsg) : Bool :=
  match msg.src with
  | .built => false
  | .received r => r.user == p
  | .gate user => user == p

/-- The messages of a connection. -/
def contributions (p : Ptr) (msgs : List UserMsg) : List UserMsg := msgs.filter (isFrom p)

theorem contributions_append (p : Ptr) (msgs msgs' : List UserMsg) :
    contributions p (msgs ++ msgs') = contributions p msgs ++ contributions p msgs' :=
  List.filter_append ..

/-- Envelopes come from the connection that was parsed. -/
theorem isFrom_envelope {user : Ptr} {sfd : Int32} {msg : UserMsg} {f : Frame}
    (h : MsgCenter.IsEnvelope rt user sfd msg f) (p : Ptr) : isFrom p msg = (user == p) := by
  obtain ⟨mc, t, _, rfl⟩ := h
  rfl

theorem contributions_self {user : Ptr} {sfd : Int32} {msgs : List UserMsg} {fs : List Frame}
    (h : List.Forall₂ (MsgCenter.IsEnvelope rt user sfd) msgs fs) :
    contributions user msgs = msgs := by
  apply List.filter_eq_self.mpr
  intro msg hmsg
  obtain ⟨f, _, henv⟩ := exists_envelope h hmsg
  rw [isFrom_envelope rt henv, beq_self_eq_true]

theorem contributions_other {user : Ptr} {sfd : Int32} {msgs : List UserMsg} {fs : List Frame}
    (h : List.Forall₂ (MsgCenter.IsEnvelope rt user sfd) msgs fs) (hp : p ≠ user) :
    contributions p msgs = [] := by
  apply List.filter_eq_nil_iff.mpr
  intro msg hmsg
  obtain ⟨f, _, henv⟩ := exists_envelope h hmsg
  rw [isFrom_envelope rt henv, beq_iff_eq]
  exact hp.symm

/-- A presence message is a contribution of the connection it is about. -/
theorem contributions_gate {user : Ptr} {msg : UserMsg} (h : msg.src = .gate user) (p : Ptr) :
    contributions p [msg] = if p = user then [msg] else [] := by
  have hfrom : isFrom p msg = (user == p) := by rw [isFrom, h]
  rw [contributions, List.filter_singleton, hfrom]
  by_cases hp : p = user
  · rw [if_pos hp, hp, beq_self_eq_true]
    rfl
  · rw [if_neg hp, beq_eq_false_iff_ne.mpr (Ne.symm hp)]
    rfl

/-! ## Sessions -/

/-- The complete frames in the read buffer of a connection. -/
def pending (w : GateWorker) (p : Ptr) : List Frame :=
  (frameDecoder.drain (w.node p).rdBuff.toList).1

/-- What a connection has contributed when the frames `fs` were forwarded. -/
def Session (p : Ptr) (sfd uid : Int32) (ended : List Ptr) (fs : List Frame)
    (msgs : List UserMsg) : Prop :=
  ∃ sent, List.Forall₂ (MsgCenter.IsEnvelope rt p sfd) sent fs ∧
    contributions p msgs =
      onlineOf p uid :: sent ++ if p ∈ ended then [offlineOf p uid] else []

/-- The state of a session between two stages: the frames taken from the buffer
were forwarded, an ended connection has nothing left to forward, and a live one
with frames left is on the list to parse. -/
structure InSession (w : GateWorker) (p : Ptr) : Prop where
  stream : ∃ taken, frameDecoder.Accounts (w.node p).received taken (w.node p).rdBuff.toList ∧
    Session rt p (w.node p).sfd (w.heap.obj p).uid w.offline
      (taken.filter (Wanted (w.heap.obj p).uid)) w.queue
  quiet : p ∈ w.offline → ∀ f ∈ w.pending p, ¬ Wanted (w.heap.obj p).uid f = true
  listed : p ∉ w.offline → w.pending p ≠ [] → p ∈ w.rdUsers

/-- The complete frames sent by a connection of uid `u` that are to be forwarded. -/
def wantedFrames (wire : Wire) (c : Ptr) (u : Int32) : List Frame :=
  (wire.frames c).filter (Wanted u)

/-- **The bracket** of the connection a CONNECT event started: online, the wanted
frames in order, offline. Only frames that are still in the read buffer of a live
connection are missing. -/
def Bracketed (s : GateWorker × Wire) (c : Ptr) (ev : EventNode) : Prop :=
  ∃ sent held, wantedFrames s.2 c ev.uid = sent ++ held ∧
    Session rt c ev.sfd ev.uid s.2.ended sent s.1.toLogic ∧
    held = (s.1.pending c).filter (Wanted ev.uid) ∧ (c ∈ s.2.ended → held = [])

variable {rt}

/-- A session does not notice stages that leave its connection alone. -/
theorem InSession.congr (h : InSession rt w p) (huid : (w'.heap.obj p).uid = (w.heap.obj p).uid)
    (hnode : (w.node p).Kept (w'.node p))
    (hqueue : contributions p w'.queue = contributions p w.queue)
    (hoff : p ∈ w'.offline ↔ p ∈ w.offline) (hrd : p ∈ w.rdUsers → p ∈ w'.rdUsers) :
    InSession rt w' p := by
  have hbuff : (w'.node p).rdBuff.toList = (w.node p).rdBuff.toList := by
    rw [hnode.rdBuff, List.append_nil]
  have hrec : (w'.node p).received = (w.node p).received := by
    rw [hnode.received, List.append_nil]
  have hpending : w'.pending p = w.pending p := by rw [pending, hbuff, pending]
  refine ⟨?_, ?_, ?_⟩
  · obtain ⟨taken, hacc, sent, hsent, hcontr⟩ := h.stream
    refine ⟨taken, ?_, sent, ?_, ?_⟩
    · rw [hrec, hbuff]
      exact hacc
    · rw [huid, hnode.sfd]
      exact hsent
    · simp only [hqueue, hcontr, huid, hoff]
  · rw [hpending, huid, hoff]
    exact h.quiet
  · rw [hpending, hoff]
    exact fun hlive hne => hrd (h.listed hlive hne)

theorem InSession.of_calm (h : InSession rt w p) (hc : Calm w w') (hq : w'.queue = w.queue) :
    InSession rt w' p := by
  refine h.congr (hc.uid p) (hc.kept p) (by rw [hq]) (by rw [hc.offline]) ?_
  rw [hc.rdUsers]
  exact id

/-! ## The stages -/

theorem isFrom_accounted {q : Ptr} {msg : UserMsg} (h : Accounted rt w q msg) (p : Ptr) :
    isFrom p msg = (q == p) := by
  cases h with
  | online hmsg => rw [hmsg]; rfl
  | offline hmsg => rw [hmsg]; rfl
  | frame f _ henv => exact isFrom_envelope rt henv p

/-- A connection that does not exist yet has contributed nothing. -/
theorem contributions_fresh (h : WellFormed rt w) : contributions w.heap.next w.queue = [] := by
  apply List.filter_eq_nil_iff.mpr
  intro msg hmsg
  obtain ⟨q, hq, hacc⟩ := h.accounted msg hmsg
  rw [isFrom_accounted hacc, beq_iff_eq]
  exact Nat.ne_of_lt hq.1

/-- A new connection starts its session; the others go on. -/
theorem inSession_onNewConnect (hwf : WellFormed rt w) (h : ∀ p, w.IsConn p → InSession rt w p)
    (ev : EventNode) (p : Ptr) (hp : (w.onNewConnect ev).IsConn p) :
    InSession rt (w.onNewConnect ev) p := by
  have hcontr : contributions p (w.onNewConnect ev).queue = contributions p w.queue ++
      if p = w.heap.next then [onlineOf w.heap.next ev.uid] else [] := by
    rw [queue_onNewConnect, contributions_append, contributions_gate rfl]
  rcases Nat.lt_succ_iff_lt_or_eq.mp hp.1 with hlt | rfl
  · -- a connection from before
    have hne := Nat.ne_of_lt hlt
    refine (h p ⟨hlt, hp.2⟩).congr ?_ ?_ ?_ .rfl id
    · rw [obj_onNewConnect, if_neg hne]
    · rw [node_onNewConnect, if_neg hne]
      exact Kept.of_eq rfl rfl rfl rfl
    · rw [hcontr, if_neg hne, List.append_nil]
  · -- the new connection: nothing received, nothing forwarded
    have hnode : (w.onNewConnect ev).node w.heap.next = { sfd := ev.sfd, type := .user } := by
      rw [node_onNewConnect, if_pos rfl]
    have huid : ((w.onNewConnect ev).heap.obj w.heap.next).uid = ev.uid := by
      rw [obj_onNewConnect, if_pos rfl]
      rfl
    have hlive : w.heap.next ∉ (w.onNewConnect ev).offline :=
      fun hoff => Nat.lt_irrefl _ (hwf.offline_lt _ hoff)
    have hpending : (w.onNewConnect ev).pending w.heap.next = [] := by
      rw [pending, hnode]
      rfl
    refine ⟨⟨[], ?_, [], .nil, ?_⟩, fun hoff => absurd hoff hlive, ?_⟩
    · rw [hnode]
      rfl
    · rw [hcontr, if_pos rfl, contributions_fresh hwf, huid, if_neg hlive]
      rfl
    · intro _ hne
      exact absurd hpending hne

/-- The condition on the users served: when a user's connection fails, its read
buffer holds no complete frame that is still to be forwarded. -/
def EndsClean (io : Int32 → KernelIo) (w : GateWorker) (user : Ptr) : Prop :=
  w.Fails io user → (w.node user).type ≠ .system →
    ∀ f ∈ (w.served io user).pending user, ¬ Wanted (w.heap.obj user).uid f = true

instance (io : Int32 → KernelIo) (w : GateWorker) (user : Ptr) : Decidable (EndsClean io w user) :=
  inferInstanceAs (Decidable (_ → _ → ∀ _ ∈ _, _))

/-- Reading appends to the stream and to the buffer, and changes nothing else. -/
theorem inSession_served (h : InSession rt w p) (io : Int32 → KernelIo) (user : Ptr) :
    ∃ taken, frameDecoder.Accounts ((w.served io user).node p).received taken
        ((w.served io user).node p).rdBuff.toList ∧
      Session rt p ((w.served io user).node p).sfd ((w.served io user).heap.obj p).uid
        (w.served io user).offline
        (taken.filter (Wanted ((w.served io user).heap.obj p).uid)) (w.served io user).queue := by
  obtain ⟨taken, hacc, sent, hsent, hcontr⟩ := h.stream
  have hsame := SameConns.served io w user
  refine ⟨taken, ?_, sent, ?_, ?_⟩
  · obtain ⟨delta, hgrown, _⟩ := serveUser_cases io w user
    by_cases hp : p = user
    · rw [hp] at hacc ⊢
      rw [hgrown.received, hgrown.rdBuff]
      exact hacc.append delta
    · rw [node_served_of_ne io w hp]
      exact hacc
  · rw [hsame.uid, hsame.sfd]
    exact hsent
  · rw [hsame.uid]
    exact hcontr

theorem inSession_serveUser_of_ne (h : InSession rt w p) (io : Int32 → KernelIo) {user : Ptr}
    (hp : p ≠ user) : InSession rt (w.serveUser io user) p := by
  have hserved : InSession rt (w.served io user) p := by
    refine h.congr (uid_served io w user p) ?_ rfl .rfl id
    rw [node_served_of_ne io w hp]
    exact Kept.of_eq rfl rfl rfl rfl
  rcases serveUser_cases io w user with ⟨_, _, ⟨_, hw⟩ | ⟨_, hw⟩ | ⟨_, _, hw⟩⟩ <;> rw [hw]
  · -- another connection has ended
    obtain ⟨hheap, _, hoff, hrd⟩ := onConnOffline_fields (w.served io user) user
    refine hserved.congr (by rw [hheap]) ?_ ?_ ?_ (by rw [hrd]; exact id)
    · rw [node_onConnOffline]
      exact Kept.of_eq rfl rfl rfl rfl
    · rw [queue_onConnOffline, contributions_append]
      split_ifs
      · exact List.append_nil _
      · rw [contributions_gate rfl, if_neg hp, List.append_nil]
    · rw [hoff, List.mem_append, List.mem_singleton]
      exact or_iff_left hp
  · refine hserved.congr rfl (Kept.of_eq rfl rfl rfl rfl) rfl .rfl ?_
    exact fun hmem => List.mem_append_left _ hmem
  · exact hserved

theorem inSession_serveUser_self (hwf : WellFormed rt w) (h : InSession rt w p)
    (hp : w.IsConn p) (hlive : p ∉ w.offline) (io : Int32 → KernelIo) (hclean : EndsClean io w p) :
    InSession rt (w.serveUser io p) p := by
  obtain ⟨taken, hacc, sent, hsent, hcontr⟩ := inSession_served h io p
  have htype : (w.node p).type ≠ .system := by
    rw [hwf.user_type hp]
    exact nofun
  rcases serveUser_cases io w p with ⟨delta, hgrown, ⟨hfails, hw⟩ | ⟨_, hw⟩ | ⟨_, hnil, hw⟩⟩
  · -- the connection has failed: its session is closed
    rw [hw]
    obtain ⟨hheap, _, hoff, _⟩ := onConnOffline_fields (w.served io p) p
    have hnode := node_onConnOffline (w.served io p) p p
    have hmem : p ∈ ((w.served io p).onConnOffline p).offline := by
      rw [hoff]
      exact List.mem_append_right _ (List.mem_singleton.mpr rfl)
    refine ⟨⟨taken, ?_, sent, ?_, ?_⟩, ?_, fun hnot => absurd hmem hnot⟩
    · rw [hnode]
      exact hacc
    · rw [hheap, hnode]
      exact hsent
    · have hsys : ¬ ((w.served io p).node p).type = .system := hgrown.type ▸ htype
      have hlive' : p ∉ (w.served io p).offline := hlive
      rw [queue_onConnOffline, if_neg hsys, contributions_append, contributions_gate rfl,
        if_pos rfl, hcontr, if_neg hlive', List.append_nil, if_pos hmem, hheap]
    · intro _
      rw [pending, hnode, hheap, uid_served]
      exact hclean hfails htype
  · -- it has sent something and is on the list to parse
    rw [hw]
    refine ⟨⟨taken, hacc, sent, hsent, hcontr⟩, fun hoff => absurd hoff hlive, ?_⟩
    exact fun _ _ => List.mem_append_right _ (List.mem_singleton.mpr rfl)
  · -- nothing was read
    rw [hw]
    rw [hnil] at hgrown
    exact h.congr (uid_served io w p p) hgrown rfl .rfl id

theorem inSession_parseUser (hwf : WellFormed rt w) (h : InSession rt w p) (hp : w.IsConn p)
    (user : Ptr) : InSession rt (w.parseUser rt user) p := by
  obtain ⟨msgs, hparse⟩ := parseUser_spec rt w user
  have hqueue : contributions p (w.parseUser rt user).queue =
      contributions p w.queue ++ contributions p msgs := by
    rw [hparse.queue, contributions_append]
  have hrd : p ∈ w.rdUsers → p ∈ (w.parseUser rt user).rdUsers := by
    rw [hparse.rdUsers]
    exact id
  by_cases hpu : p = user
  · rw [← hpu] at hparse hqueue hrd ⊢
    have htype : ¬ (w.node p).type = .system := by
      rw [hwf.user_type hp]
      exact nofun
    have henv := hparse.envelopes
    rw [if_neg htype] at henv
    obtain ⟨buff, hnode, htaken⟩ := hparse.node
    obtain ⟨taken, hacc, sent, hsent, hcontr⟩ := h.stream
    -- what is taken now was pending before
    have hsplit := Decoder.drain_eq_drainUntil (d := frameDecoder)
      (fun f => !MsgCenter.registered f.msgId) (w.node p).rdBuff.toList
    have hacc' := hacc.drainUntil fun f => !MsgCenter.registered f.msgId
    rw [← MsgCenter.taken, htaken] at hsplit hacc'
    have hpending : w.pending p = (MsgCenter.taken (w.node p).rdBuff.toList).1 ++
        (w.parseUser rt p).pending p := by
      rw [pending, hsplit, pending, hnode]
    refine ⟨⟨taken ++ (MsgCenter.taken (w.node p).rdBuff.toList).1, ?_, sent ++ msgs, ?_, ?_⟩,
      ?_, ?_⟩
    · rw [hnode]
      exact hacc'
    · rw [hparse.uid, List.filter_append, hnode]
      exact List.rel_append hsent henv
    · rw [hqueue, contributions_self rt henv, hcontr, hparse.uid, hparse.offline]
      by_cases hoff : p ∈ w.offline
      · -- an ended connection had nothing left to forward
        have hnone : (MsgCenter.taken (w.node p).rdBuff.toList).1.filter
            (Wanted (w.heap.obj p).uid) = [] := by
          apply List.filter_eq_nil_iff.mpr
          intro f hf
          exact h.quiet hoff f (hpending ▸ List.mem_append_left _ hf)
        rw [hnone] at henv
        cases henv
        rw [List.append_nil, List.append_nil]
      · rw [if_neg hoff, List.append_nil, List.append_nil]
        rfl
    · rw [hparse.offline, hparse.uid]
      intro hoff f hf
      exact h.quiet hoff f (hpending ▸ List.mem_append_right _ hf)
    · rw [hparse.offline]
      intro hlive hne
      refine hrd (h.listed hlive ?_)
      rw [hpending]
      exact fun hnil => hne (List.append_eq_nil_iff.mp hnil).2
  · -- another user is parsed: its messages are not contributions of `p`
    have henv := hparse.envelopes
    refine h.congr (hparse.uid p) ?_ ?_ (by rw [hparse.offline]) hrd
    · rw [hparse.kept p hpu]
      exact Kept.of_eq rfl rfl rfl rfl
    · rw [hqueue, contributions_other rt henv hpu, List.append_nil]

/-! ## Runs -/

/-- Well-formed, and every connection in session. -/
def Sound (rt : Runtime) (w : GateWorker) : Prop :=
  WellFormed rt w ∧ ∀ p, w.IsConn p → InSession rt w p

theorem stageInvariant_sound : StageInvariant rt EndsClean (Sound rt) where
  wellFormed h := h.1
  calm h hc hq :=
    ⟨h.1.of_calm hc hq, fun p hp => (h.2 p ((hc.sameConns.isConn p).mp hp)).of_calm hc hq⟩
  connect ev h := ⟨wellFormed_onNewConnect h.1 ev, inSession_onNewConnect h.1 h.2 ev⟩
  serve {w user} io h hlive hclean := by
    refine ⟨wellFormed_serveUser h.1 io hlive.1, ?_⟩
    intro p hp
    have hp' := ((sameConns_serveUser io w user).isConn p).mp hp
    by_cases hpu : p = user
    · rw [← hpu] at hlive hclean ⊢
      exact inSession_serveUser_self h.1 (h.2 p hp') hp' hlive.2 io hclean
    · exact inSession_serveUser_of_ne (h.2 p hp') io hpu
  parse {w user} h hlt := by
    obtain ⟨msgs, hparse⟩ := parseUser_spec rt w user
    refine ⟨wellFormed_parseUser h.1 hlt, ?_⟩
    intro p hp
    have hp' := (hparse.sameConns.isConn p).mp hp
    exact inSession_parseUser h.1 (h.2 p hp') hp' user

/-- Every user served in a round meets `EndsClean`. -/
def ServesClean (w : GateWorker) (r : WorkerRound) : Prop :=
  Along (serveUser r.io) (EndsClean r.io) (w.marked r) (w.marked r).epevUsers

instance (w : GateWorker) (r : WorkerRound) : Decidable (ServesClean w r) :=
  inferInstanceAs (Decidable (Along ..))

/-- The condition on a round: connections start on fresh descriptors and end with
nothing left to forward. -/
def RoundClean (w : GateWorker) (r : WorkerRound) : Prop := ConnectsFresh w r ∧ ServesClean w r

instance (w : GateWorker) (r : WorkerRound) : Decidable (RoundClean w r) :=
  inferInstanceAs (Decidable (_ ∧ _))

/-- Between rounds of a run that meets the condition, every connection is in session. -/
theorem sound_run {logicFd : Int32} {rounds : List WorkerRound}
    (h : Along (threadLoop rt) ServesClean (init logicFd) rounds) :
    Idle rt (run (threadLoop rt) (init logicFd) rounds) ∧
      Sound rt (run (threadLoop rt) (init logicFd) rounds) := by
  have hinit : Idle rt (init logicFd) := idle_init logicFd
  have hnone : ∀ p, ¬ (init logicFd).IsConn p := fun p hp => hp.2 (Nat.lt_one_iff.mp hp.1)
  refine run_invariant_of_along (I := fun w => Idle rt w ∧ Sound rt w) ?_
    ⟨hinit, hinit.wellFormed, fun p hp => absurd hp (hnone p)⟩ h
  rintro w r ⟨hidle, hsound⟩ hclean
  exact ⟨idle_threadLoop hidle r, stageInvariant_sound.threadLoop hsound hidle.epevUsers hclean⟩

/-- Between rounds, an object in session that belongs to its connection makes the
connection bracketed. -/
theorem InSession.bracketed (h : InSession rt w p) (hidle : Idle rt w) {wire : Wire}
    (hl : Linked w wire) (hp : p < w.heap.next) {ev : EventNode}
    (huid : (w.heap.obj p).uid = ev.uid) (hsfd : (w.node p).sfd = ev.sfd) :
    Bracketed rt (w, wire) p ev := by
  have hqueue : w.queue = w.toLogic := by rw [queue, hidle.userMsgsIn, List.append_nil]
  obtain ⟨taken, hacc, hsession⟩ := h.stream
  rw [hqueue, huid, hsfd, ← hl.ended] at hsession
  refine ⟨_, (w.pending p).filter (Wanted ev.uid), ?_, hsession, rfl, ?_⟩
  · rw [wantedFrames, Wire.frames, hl.stream p hp, hacc, List.filter_append]
    rfl
  · intro hended
    rw [hl.ended] at hended
    rw [← huid]
    exact List.filter_eq_nil_iff.mpr (h.quiet hended)

/-! ### Nothing is held for ever -/

/-- Parsing a user takes at least one of its complete frames, and none of others. -/
theorem length_pending_parseUser (w : GateWorker) (user p : Ptr) :
    ((w.parseUser rt user).pending p).length ≤
      if p = user then (w.pending p).length - 1 else (w.pending p).length := by
  obtain ⟨msgs, hparse⟩ := parseUser_spec rt w user
  split_ifs with hp
  · obtain ⟨buff, hnode, htaken⟩ := hparse.node
    have hbuff : buff.toList = (MsgCenter.taken (w.node user).rdBuff.toList).2 := by rw [htaken]
    rw [hp, pending, hnode, hbuff, pending]
    exact Decoder.length_drain_drainUntil _ _
  · rw [pending, hparse.kept p hp]
    rfl

theorem length_pending_handlerEpdata (l : List Ptr) (w : GateWorker) (p : Ptr) :
    ((l.foldl (parseUser rt) w).pending p).length ≤
      if p ∈ l then (w.pending p).length - 1 else (w.pending p).length := by
  induction l generalizing w with
  | nil => exact Nat.le_refl _
  | cons user l ih =>
      have hone : ((w.parseUser rt user).pending p).length ≤ _ :=
        length_pending_parseUser w user p
      have hrest := ih (w.parseUser rt user)
      rw [List.foldl_cons]
      by_cases hpu : p = user
      · -- parsed here, and perhaps again later on the list
        rw [if_pos hpu] at hone
        rw [if_pos (List.mem_cons.mpr (.inl hpu))]
        split_ifs at hrest <;> omega
      · rw [if_neg hpu] at hone
        have hmem : p ∈ user :: l ↔ p ∈ l := List.mem_cons.trans (or_iff_right hpu)
        simp only [hmem]
        split_ifs at hrest ⊢ <;> omega

/-- New connections leave the others alone. -/
theorem handlerIoevent_keeps (w : GateWorker) (hp : p < w.heap.next) :
    w.handlerIoevent.node p = w.node p ∧ w.handlerIoevent.rdUsers = w.rdUsers ∧
      w.handlerIoevent.offline = w.offline := by
  have hkeeps : p < w.handlerIoevent.heap.next ∧ w.handlerIoevent.node p = w.node p ∧
      w.handlerIoevent.rdUsers = w.rdUsers ∧ w.handlerIoevent.offline = w.offline := by
    refine run_invariant (I := fun v => p < v.heap.next ∧ v.node p = w.node p ∧
      v.rdUsers = w.rdUsers ∧ v.offline = w.offline) ?_ (s := { w with ioevsIn := [] })
      ⟨hp, rfl, rfl, rfl⟩ w.ioevsIn
    rintro v ev ⟨hlt, hnode, hrd, hoff⟩
    unfold ioevent
    split_ifs
    · refine ⟨Nat.lt_succ_of_lt hlt, ?_, hrd, hoff⟩
      rw [node_onNewConnect, if_neg (Nat.ne_of_lt hlt), hnode]
    · exact ⟨hlt, hnode, hrd, hoff⟩
  exact hkeeps.2

/-- A round in which `epoll_wait` reports nothing ends no connection, and of a
connection with frames in its buffer it takes at least one. -/
theorem threadLoop_quiet (hidle : Idle rt w) (hsound : Sound rt w) (hp : w.IsConn p)
    {r : WorkerRound} (hr : r.events = []) :
    (p ∈ (w.threadLoop rt r).offline ↔ p ∈ w.offline) ∧
      (p ∉ w.offline → ((w.threadLoop rt r).pending p).length ≤ (w.pending p).length - 1) := by
  obtain ⟨hnode, hrd, hoff⟩ := handlerIoevent_keeps { w with ioevsIn := w.ioevsIn ++ r.ioevs } hp.1
  have hev : (w.marked r).epevUsers = [] := by
    rw [marked, hr]
    exact (epevUsers_handlerIoevent _).trans hidle.epevUsers
  -- nobody is served
  have hread : w.readIn r = { w.marked r with epevUsers := [] } := by
    rw [readIn, hev]
    rfl
  have hmarked : w.marked r = handlerIoevent { w with ioevsIn := w.ioevsIn ++ r.ioevs } := by
    rw [marked, hr]
    rfl
  rw [← hmarked] at hnode hrd hoff
  obtain ⟨hcalm, _⟩ := handlerMsgs_spec rt ((w.readIn r).handlerEpdata rt) r.writes
  have hoffline : ((w.readIn r).handlerEpdata rt).offline = w.offline := by
    refine (handlerEpdata_fields _ _).2.trans ?_
    rw [hread]
    exact hoff
  rw [threadLoop_eq]
  refine ⟨by rw [hcalm.offline, hoffline], ?_⟩
  intro hlive
  have hbefore : (w.readIn r).pending p = w.pending p := by
    rw [hread, pending]
    show (frameDecoder.drain ((w.marked r).node p).rdBuff.toList).1 = _
    rw [hnode]
    rfl
  -- forwarding reads nothing
  have hafter : ((((w.readIn r).handlerEpdata rt).handlerMsgs rt r.writes).pending p) =
      ((w.readIn r).handlerEpdata rt).pending p := by
    rw [pending, (hcalm.kept p).rdBuff, List.append_nil]
    rfl
  have hparse : (((w.readIn r).handlerEpdata rt).pending p).length ≤ _ :=
    length_pending_handlerEpdata (w.readIn r).rdUsers (w.readIn r) p
  rw [hafter]
  refine hparse.trans ?_
  rw [hbefore]
  split_ifs with hmem
  · exact Nat.le_refl _
  · -- whoever is not parsed had nothing in its buffer
    by_cases hnil : w.pending p = []
    · rw [hnil]
      exact Nat.le_refl _
    · have hlisted := (hsound.2 p hp).listed hlive hnil
      rw [hread] at hmem
      exact absurd (hrd.symm ▸ hlisted) hmem

/-- Rounds in which `epoll_wait` reports nothing empty the buffer of a live
connection frame by frame. -/
theorem run_quiet (hidle : Idle rt w) (hsound : Sound rt w) (hp : w.IsConn p)
    {rounds : List WorkerRound} (hrounds : ∀ r ∈ rounds, r.events = []) :
    Idle rt (run (threadLoop rt) w rounds) ∧ Sound rt (run (threadLoop rt) w rounds) ∧
      (run (threadLoop rt) w rounds).IsConn p ∧
      (p ∈ (run (threadLoop rt) w rounds).offline ↔ p ∈ w.offline) ∧
      (p ∉ w.offline → ((run (threadLoop rt) w rounds).pending p).length ≤
        (w.pending p).length - rounds.length) := by
  induction rounds generalizing w with
  | nil => exact ⟨hidle, hsound, hp, .rfl, fun _ => Nat.le_refl _⟩
  | cons r rounds ih =>
      have hr := hrounds r (List.mem_cons_self ..)
      -- a round that serves nobody is clean
      have hclean : ServesClean w r := by
        have hnobody : (w.marked r).epevUsers = [] := by
          rw [marked, hr]
          exact (epevUsers_handlerIoevent _).trans hidle.epevUsers
        rw [ServesClean, hnobody]
        trivial
      obtain ⟨hoff, hone⟩ := threadLoop_quiet hidle hsound hp hr
      rcases ih (idle_threadLoop hidle r)
        (stageInvariant_sound.threadLoop hsound hidle.epevUsers hclean) (isConn_threadLoop hidle r hp)
        fun r' hr' => hrounds r' (List.mem_cons_of_mem _ hr') with ⟨hi, hs, hc, hoff', hrest⟩
      refine ⟨hi, hs, hc, hoff'.trans hoff, ?_⟩
      intro hlive
      have hone := hone hlive
      have hrest := hrest (hoff.not.mpr hlive)
      rw [run_cons, List.length_cons]
      omega

/-- A bracket with nothing left in the buffer has every wanted frame in it. -/
theorem Bracketed.complete {s : GateWorker × Wire} {c : Ptr} {ev : EventNode}
    (h : Bracketed rt s c ev) (hheld : c ∉ s.2.ended → s.1.pending c = []) :
    Session rt c ev.sfd ev.uid s.2.ended (wantedFrames s.2 c ev.uid) s.1.toLogic := by
  obtain ⟨sent, held, hframes, hsession, hheld', hquiet⟩ := h
  have hnil : held = [] := by
    by_cases hended : c ∈ s.2.ended
    · exact hquiet hended
    · rw [hheld', hheld hended]
      rfl
  rw [hframes, hnil, List.append_nil]
  exact hsession

/-- In a run that meets the condition, the connections are bracketed. -/
theorem bracketed_run {logicFd : Int32} {rounds : List WorkerRound}
    (hfresh : Along (threadLoop rt) ConnectsFresh (init logicFd) rounds)
    (hidle : Idle rt (run (threadLoop rt) (init logicFd) rounds))
    (hsound : Sound rt (run (threadLoop rt) (init logicFd) rounds)) {c : Ptr} {ev : EventNode}
    (hc : CreatedBy (connects rounds) c ev) :
    Bracketed rt (run (wireLoop rt) (wireInit logicFd) rounds) c ev := by
  have hlinked := linked_run hfresh
  have hcreated := (apart_run rt logicFd rounds).created
  rw [← fst_run_wireInit] at hcreated hidle hsound
  obtain ⟨huid, hsfd, _⟩ := hcreated.made hc
  have hconn := hcreated.isConn hc
  exact (hsound.2 c hconn).bracketed hidle hlinked hconn.1 huid hsfd

/-- **Sessions are bracketed as long as descriptors are fresh and no connection
fails with a wanted frame in its buffer.** Between the rounds of such a run, each
connection has contributed its online message, then its wanted frames in order,
then, if it has ended, its offline message. Only frames still in the buffer of a
live connection are missing; rounds in which nothing more is read forward them
all. -/
theorem bracketed_of_along {logicFd : Int32} {rounds : List WorkerRound}
    (h : Along (threadLoop rt) RoundClean (init logicFd) rounds) {c : Ptr} {ev : EventNode}
    (hc : CreatedBy (connects rounds) c ev) :
    Bracketed rt (run (wireLoop rt) (wireInit logicFd) rounds) c ev ∧
      ∀ rs : List WorkerRound, (∀ r ∈ rs, r.events = []) →
        Along (threadLoop rt) ConnectsFresh (run (threadLoop rt) (init logicFd) rounds) rs →
        ((run (threadLoop rt) (init logicFd) rounds).pending c).length ≤ rs.length →
        Session rt c ev.sfd ev.uid (run (wireLoop rt) (wireInit logicFd) (rounds ++ rs)).2.ended
          (wantedFrames (run (wireLoop rt) (wireInit logicFd) (rounds ++ rs)).2 c ev.uid)
          (run (wireLoop rt) (wireInit logicFd) (rounds ++ rs)).1.toLogic := by
  have hfresh := h.mono fun _ _ hr => hr.1
  obtain ⟨hidle, hsound⟩ := sound_run (h.mono fun _ _ hr => hr.2)
  refine ⟨bracketed_run hfresh hidle hsound hc, ?_⟩
  intro rs hrs hfresh' hlen
  have hconn := (apart_run rt logicFd rounds).created.isConn hc
  obtain ⟨hidle', hsound', _, hoff, hpending⟩ := run_quiet hidle hsound hconn hrs
  rw [← run_append] at hidle' hsound' hoff hpending
  have hc' : CreatedBy (connects (rounds ++ rs)) c ev := by
    obtain ⟨n, rfl, hn⟩ := hc
    refine ⟨n, rfl, ?_⟩
    rw [connects_append, List.getElem?_append_left (List.getElem?_eq_some_iff.mp hn).1]
    exact hn
  have hall := along_append.mpr ⟨hfresh, hfresh'⟩
  refine (bracketed_run hall hidle' hsound' hc').complete ?_
  -- the buffer of a live connection is empty by then
  rw [(linked_run hall).ended, fst_run_wireInit]
  intro hlive
  have hnone := hpending (hoff.not.mp hlive)
  rw [Nat.sub_eq_zero_of_le hlen] at hnone
  exact List.length_eq_zero_iff.mp (Nat.le_zero.mp hnone)

/-- The connection whose descriptor was taken over has sent nothing, and contributes
a request. -/
example :
    let s := run (wireLoop .proto2) (wireInit 3) (takenOver ++ [requestOn 5])
    s.2.stream 1 = [] ∧ (contributions 1 s.1.toLogic).map UserMsg.msgId =
      [ProtocolDefine.userOnlineReq.toInt, ProtocolDefine.userDosthReq.toInt] := by
  decide +kernel

/-! ## Runs on fixed inputs -/

/-- A user connects, sends two frames, one with an unknown id, and leaves. -/
def politeRounds : List WorkerRound :=
  [{ ioevs := [{ sfd := 5, uid := 1, event := FdEvent.connect }] },
   { ready := .one ⟨5, true, false⟩
     io := fun _ => { reads := [.data (Frame.encode ⟨77, 1, [8, 1]⟩ ++ dosthFrame.encode)] } },
   {},
   { ready := .one ⟨5, true, false⟩, io := fun _ => { reads := [.eof] } }]

/-- The rounds of `politeRounds` meet the condition. -/
theorem bracketed_politeRounds :
    Bracketed .proto2 (run (wireLoop .proto2) (wireInit 3) politeRounds) 1
      { sfd := 5, uid := 1, event := FdEvent.connect } :=
  (bracketed_of_along (by decide +kernel) ⟨0, rfl, rfl⟩).1

/-- A user connects, and its request arrives together with the end of the stream. -/
def readWithEof : List WorkerRound :=
  [{ ioevs := [{ sfd := 5, uid := 1, event := FdEvent.connect }] },
   { ready := .one ⟨5, true, false⟩
     io := fun _ => { reads := [.data dosthFrame.encode, .eof] } }]

/-- Sessions are not bracketed in general: of a frame read with the end of the
stream nothing is forwarded, although the connection has ended. -/
theorem not_bracketed_readWithEof :
    ¬ ∀ (rt : Runtime) (logicFd : Int32) (rounds : List WorkerRound) (c : Ptr) (ev : EventNode),
      CreatedBy (connects rounds) c ev →
        Bracketed rt (run (wireLoop rt) (wireInit logicFd) rounds) c ev := by
  intro h
  let ev : EventNode := { sfd := 5, uid := 1, event := FdEvent.connect }
  obtain ⟨_, held, _, _, hheld, hquiet⟩ := h .proto2 3 readWithEof 1 ev ⟨0, rfl, rfl⟩
  have hended : 1 ∈ (run (wireLoop .proto2) (wireInit 3) readWithEof).2.ended := by
    decide +kernel
  have hframe : ((run (wireLoop .proto2) (wireInit 3) readWithEof).1.pending 1).filter
      (Wanted ev.uid) = [dosthFrame] := by decide +kernel
  rw [hquiet hended, hframe] at hheld
  cases hheld

end Rubo.Server.GateWorker
