import Rubo.Server.GateIOSteps

/-!
# The First Message of a Connection

A connection that has not logged in may only start with a verification, a login
or a registration. A connection is the user object that `on_accept()` makes for it and
`_unlogin_users` holds. GateIO decides by what `parse_package` returns, and that is
nothing at all in three cases: the frame is incomplete, its length is out of
range, or its id is not registered.

`firstMessageRule_of_along` is the rule for every run in which the last two do
not occur in front of a stream. The other way round nothing is promised: after a
frame with an unregistered id the connection is still there, and the frame
behind it is handled like a first one (`not_firstMessageRule_unknown`).
-/

namespace Rubo.Server

open Rubo.Foundation Rubo.Msgs Rubo.Util
open SocketNode (Kept Grown)

namespace GateIO

variable (rt : Runtime)

/-! ## The rule -/

/-- The first four bytes are a length out of range. -/
def BadLength (stream : List UInt8) : Prop :=
  4 ≤ stream.length ∧
    (LittleEndian.ofBytes (stream.take 4) ≤ 1 ∨ LittleEndian.ofBytes (stream.take 4) > 2048)

/-- The closed descriptor of a connection: by GateIO, or by `event_op` before it
came to that. -/
def Closed (s : Logged) (p : Ptr) : Prop := .kicked p ∈ s.2 ∨ .ended p ∈ s.2

/-- The rule for one connection, which has sent the bytes `received`. -/
structure FirstMessageRule (s : Logged) (p : Ptr) : Prop where
  /-- The first complete frame is no request. -/
  refused : ∀ f r, frameNext (s.1.node p).received = some (f, r) → ¬ IsRequest f.msgId →
    Closed s p ∧ .handled p ∉ s.2
  badLength : BadLength (s.1.node p).received → Closed s p

/-! ## The condition -/

/-- The frames end with a request, directly behind one with an unregistered id;
one more such frame may follow. -/
def EndsLate : List Frame → Prop
  | u :: v :: tail =>
    (MsgCenter.registered u.msgId = false ∧ IsRequest v.msgId ∧ tail.length ≤ 1 ∧
      ∀ g ∈ tail, MsgCenter.registered g.msgId = false) ∨ EndsLate (v :: tail)
  | _ => False

/-- The stream consists of complete frames, and they end with such a request. -/
def LateRequest (stream : List UInt8) : Prop :=
  (frameDecoder.drain stream).2 = [] ∧ EndsLate (frameDecoder.drain stream).1

/-- Streams GateIO decides about as it should: the length is in range, and if the
first frame is no request then its id is registered and no request comes late. -/
def Admissible (stream : List UInt8) : Prop :=
  ¬ BadLength stream ∧ ∀ p ∈ frameNext stream, ¬ IsRequest p.1.msgId →
    MsgCenter.registered p.1.msgId = true ∧ ¬ LateRequest stream

/-- The condition on a step: it holds of the streams of all users parsed. -/
def StreamsAdmissible (g : GateIO) : Act → Prop
  | .io r => ∀ p ∈ (g.beforeParsing r).unloginReads, Admissible ((g.beforeParsing r).node p).received
  | .worker _ _ => True

instance decidableEndsLate : (fs : List Frame) → Decidable (EndsLate fs)
  | [] => .isFalse id
  | [_] => .isFalse id
  | _ :: v :: tail =>
    have := decidableEndsLate (v :: tail)
    inferInstanceAs (Decidable (_ ∨ EndsLate (v :: tail)))

instance (stream : List UInt8) : Decidable (BadLength stream) :=
  inferInstanceAs (Decidable (_ ∧ _))

instance (stream : List UInt8) : Decidable (LateRequest stream) :=
  inferInstanceAs (Decidable (_ ∧ _))

instance (stream : List UInt8) : Decidable (Admissible stream) :=
  inferInstanceAs (Decidable (_ ∧ _))

instance (g : GateIO) : (a : Act) → Decidable (StreamsAdmissible g a)
  | .io _ => inferInstanceAs (Decidable (∀ _ ∈ _, Admissible _))
  | .worker _ _ => inferInstanceAs (Decidable True)

/-! ## Streams that are partly taken -/

/-- `buff` is what is left of the stream after at least one frame; the parser has
stopped in front of it or behind a frame with an unregistered id. -/
def Behind (stream buff : List UInt8) : Prop :=
  ∃ fs : List Frame, fs ≠ [] ∧ stream = fs.flatMap Frame.encode ++ buff ∧
    (∀ f ∈ fs, f.WellFormed) ∧
    (frameNext buff = none ∨ ∃ u, fs.getLast? = some u ∧ MsgCenter.registered u.msgId = false)

/-- Where a call of the parser stops. -/
theorem taken_stop (xs : List UInt8) :
    frameNext (MsgCenter.taken xs).2 = none ∨
      ∃ u, (MsgCenter.taken xs).1.getLast? = some u ∧ MsgCenter.registered u.msgId = false := by
  induction xs using Decoder.item_induction (d := frameDecoder) with
  | wait xs hnext =>
      rw [MsgCenter.taken_of_none hnext]
      exact .inl hnext
  | item xs f r hnext ih =>
      cases htype : MsgCenter.typeOf f.msgId with
      | none =>
          rw [MsgCenter.taken_of_unregistered hnext htype]
          exact .inr ⟨f, rfl, by simp [MsgCenter.registered, htype]⟩
      | some t =>
          rw [MsgCenter.taken_of_registered hnext htype]
          rcases ih with hnone | ⟨u, hu, hreg⟩
          · exact .inl hnone
          · refine .inr ⟨u, ?_, hreg⟩
            simp [List.getLast?_cons, hu]

theorem behind_taken {stream r : List UInt8} {f : Frame} (h : frameNext stream = some (f, r)) :
    Behind stream (MsgCenter.taken stream).2 := by
  obtain ⟨hcat, hwell, _⟩ := MsgCenter.taken_spec stream
  refine ⟨(MsgCenter.taken stream).1, ?_, hcat, hwell, taken_stop stream⟩
  -- at least the first frame was taken
  cases htype : MsgCenter.typeOf f.msgId with
  | none => simp [MsgCenter.taken_of_unregistered h htype]
  | some t => simp [MsgCenter.taken_of_registered h htype]

theorem Behind.taken {stream buff : List UInt8} (h : Behind stream buff) :
    Behind stream (MsgCenter.taken buff).2 := by
  cases hnext : frameNext buff with
  | none =>
      rw [MsgCenter.taken_of_none hnext]
      exact h
  | some p =>
      obtain ⟨fs, hne, hcat, hwell, _⟩ := h
      obtain ⟨gs, hgs, hcat', hwell', hstop⟩ := behind_taken hnext
      refine ⟨fs ++ gs, by simp [hne], ?_, ?_, ?_⟩
      · rw [hcat, List.flatMap_append, List.append_assoc, ← hcat']
      · intro f hf
        rcases List.mem_append.mp hf with hf | hf
        · exact hwell f hf
        · exact hwell' f hf
      · rcases hstop with hnone | ⟨u, hu, hreg⟩
        · exact .inl hnone
        · exact .inr ⟨u, by simp [List.getLast?_append, hu], hreg⟩

/-- The stream starts with the first frame taken. -/
theorem Behind.frameNext_stream {stream buff : List UInt8} (h : Behind stream buff) :
    ∃ f r, frameNext stream = some (f, r) := by
  obtain ⟨fs, hne, hcat, hwell, _⟩ := h
  cases fs with
  | nil => exact absurd rfl hne
  | cons f fs =>
      refine ⟨f, fs.flatMap Frame.encode ++ buff, ?_⟩
      rw [hcat]
      exact frameNext_flatMap (hwell f (List.mem_cons_self ..)) fs buff

theorem endsLate_append (fs : List Frame) {u v : Frame} {tail : List Frame}
    (hu : MsgCenter.registered u.msgId = false) (hv : IsRequest v.msgId)
    (htail : tail.length ≤ 1 ∧ ∀ g ∈ tail, MsgCenter.registered g.msgId = false) :
    EndsLate (fs ++ u :: v :: tail) := by
  induction fs with
  | nil => exact .inl ⟨hu, hv, htail⟩
  | cons f fs ih =>
      cases fs with
      | nil => exact .inr ih
      | cons g gs => exact .inr ih

/-- A request alone in what is left is a late one. -/
theorem Behind.lateRequest {stream buff : List UInt8} (h : Behind stream buff)
    (hone : OneRequest buff) : LateRequest stream := by
  obtain ⟨fs, _, hcat, hwell, hstop⟩ := h
  obtain ⟨v, tail, htaken, hreq, htail⟩ := hone
  obtain ⟨hcat', hwell', _⟩ := MsgCenter.taken_spec buff
  rw [htaken] at hcat' hwell'
  have hsome : ¬ frameNext buff = none := by
    intro hnone
    rw [MsgCenter.taken_of_none hnone] at htaken
    cases htaken
  obtain ⟨u, hu, hreg⟩ := hstop.resolve_left hsome
  obtain ⟨fs', rfl⟩ := List.getLast?_eq_some_iff.mp hu
  have hstream : stream = (fs' ++ u :: v :: tail).flatMap Frame.encode := by
    rw [hcat, hcat']
    simp
  have hframes : ∀ f ∈ fs' ++ u :: v :: tail, f.WellFormed := by
    intro f hf
    rcases List.mem_append.mp hf with hf | hf
    · exact hwell f (List.mem_append_left _ hf)
    · rcases List.mem_cons.mp hf with rfl | hf
      · exact hwell f (by simp)
      · exact hwell' f hf
  rw [LateRequest, hstream, drain_encode hframes]
  refine ⟨rfl, endsLate_append fs' hreg hreq ?_⟩
  rcases htail with rfl | ⟨g, rfl, hg⟩
  · simp
  · simpa using hg

/-! ## The invariant -/

/-- The stream does not start with a request. -/
def Unasked (stream : List UInt8) : Prop :=
  ∀ f r, frameNext stream = some (f, r) → ¬ IsRequest f.msgId

theorem Unasked.of_append {stream delta : List UInt8} (h : Unasked (stream ++ delta)) :
    Unasked stream :=
  fun f r hnext => h f (r ++ delta) (frameDecoder.next_append delta hnext)

theorem unasked_of_next {stream r : List UInt8} {f : Frame} (hnext : frameNext stream = some (f, r))
    (hreq : ¬ IsRequest f.msgId) : Unasked stream := by
  intro f' r' hnext'
  rw [hnext] at hnext'
  cases hnext'
  exact hreq

/-- What holds of a connection whose stream does not start with a request: none
of it has been handled, and none of it taken before it was kicked out. -/
def Refused (s : Logged) (p : Ptr) : Prop :=
  Unasked (s.1.node p).received → .handled p ∉ s.2 ∧
    ((s.1.node p).rdBuff.toList = (s.1.node p).received ∨
      .kicked p ∈ s.2 ∧ Behind (s.1.node p).received (s.1.node p).rdBuff.toList)

/-- What holds between any two stages. -/
structure Guarded (s : Logged) : Prop where
  keyed : ∀ fd p, s.1.unloginUsers.find fd = some p → (s.1.node p).sfd = fd ∧ p < s.1.heap.next
  /-- Nothing is read any more from a connection that was kicked out. -/
  gone : ∀ fd p, s.1.unloginUsers.find fd = some p → .kicked p ∉ s.2
  events : ∀ p ∈ s.1.unloginEvents, p < s.1.heap.next ∧ .kicked p ∉ s.2
  reads : ∀ p ∈ s.1.unloginReads, p < s.1.heap.next
  fresh : ∀ p, .kicked p ∈ s.2 ∨ .handled p ∈ s.2 → p < s.1.heap.next
  read : ∀ p, (s.1.node p).received ≠ [] → .ended p ∈ s.2 ∨ p ∈ s.1.unloginReads
  refused : ∀ p, Refused s p

variable {g g' : GateIO} {log : List Incident}

/-- Stages that read nothing, parse nothing and add no connection. -/
theorem Guarded.of_kept (h : Guarded (g, log)) (hnext : g'.heap.next = g.heap.next)
    (hnode : ∀ p, (g.node p).Kept (g'.node p))
    (hfind : ∀ fd p, g'.unloginUsers.find fd = some p → g.unloginUsers.find fd = some p)
    (hevents : ∀ p ∈ g'.unloginEvents,
      p ∈ g.unloginEvents ∨ ∃ fd, g.unloginUsers.find fd = some p)
    (hreads : g'.unloginReads = g.unloginReads) : Guarded (g', log) where
  keyed fd p hp := by
    rw [hnext, (hnode p).sfd]
    exact h.keyed fd p (hfind fd p hp)
  gone fd p hp := h.gone fd p (hfind fd p hp)
  events p hp := by
    rw [hnext]
    rcases hevents p hp with hp | ⟨fd, hp⟩
    · exact h.events p hp
    · exact ⟨(h.keyed fd p hp).2, h.gone fd p hp⟩
  reads p hp := by
    rw [hnext]
    exact h.reads p (hreads ▸ hp)
  fresh p hp := by
    rw [hnext]
    exact h.fresh p hp
  read p hp := by
    have hreceived : (g'.node p).received = (g.node p).received := by simp [(hnode p).received]
    rw [hreads]
    exact h.read p (hreceived ▸ hp)
  refused p := by
    have hreceived : (g'.node p).received = (g.node p).received := by simp [(hnode p).received]
    have hbuff : (g'.node p).rdBuff.toList = (g.node p).rdBuff.toList := by simp [(hnode p).rdBuff]
    unfold Refused
    rw [hreceived, hbuff]
    exact h.refused p

/-! ## Accepting and collecting events -/

theorem guarded_onAccept (h : Guarded (g, log)) (res : AcceptRes) :
    Guarded (g.onAccept res, log) := by
  unfold onAccept
  split
  · exact h.of_kept rfl (fun _ => Kept.of_eq rfl rfl rfl rfl) (fun _ _ => id) (fun _ => .inl) rfl
  · next sock t haccept =>
    obtain ⟨hrec, hbuff⟩ := accept_some haccept
    have hnode : ∀ p, ((g.heap.alloc { sock := some sock }).2.obj p).node =
        if p = g.heap.next then sock else g.node p := by
      intro p
      rw [Heap.obj_alloc]
      split_ifs <;> rfl
    have hold : ∀ p < g.heap.next, ((g.heap.alloc { sock := some sock }).2.obj p).node = g.node p :=
      fun p hp => (hnode p).trans (if_neg (Nat.ne_of_lt hp))
    have hnew : .kicked g.heap.next ∉ log ∧ .handled g.heap.next ∉ log :=
      ⟨fun hk => absurd (h.fresh _ (.inl hk)) (Nat.lt_irrefl _),
        fun hh => absurd (h.fresh _ (.inr hh)) (Nat.lt_irrefl _)⟩
    -- an entry of the table is the new user, or one that was there
    have hinsert : ∀ fd p, (g.unloginUsers.insert sock.sfd g.heap.next).find fd = some p →
        (fd = sock.sfd ∧ p = g.heap.next) ∨ g.unloginUsers.find fd = some p :=
      fun _ _ hp => Table.find_insert_eq_some hp
    refine ⟨?_, ?_, ?_, ?_, ?_, ?_, ?_⟩
    · intro fd p hp
      show ((g.heap.alloc { sock := some sock }).2.obj p).node.sfd = fd ∧ p < g.heap.next + 1
      rcases hinsert fd p hp with ⟨rfl, rfl⟩ | hp
      · rw [hnode, if_pos rfl]
        exact ⟨rfl, Nat.lt_succ_self _⟩
      · rw [hold p (h.keyed fd p hp).2]
        exact ⟨(h.keyed fd p hp).1, Nat.lt_succ_of_lt (h.keyed fd p hp).2⟩
    · intro fd p hp
      rcases hinsert fd p hp with ⟨_, rfl⟩ | hp
      · exact hnew.1
      · exact h.gone fd p hp
    · intro p hp
      exact ⟨Nat.lt_succ_of_lt (h.events p hp).1, (h.events p hp).2⟩
    · intro p hp
      exact Nat.lt_succ_of_lt (h.reads p hp)
    · intro p hp
      exact Nat.lt_succ_of_lt (h.fresh p hp)
    · intro p hp
      have hp' : ((g.heap.alloc { sock := some sock }).2.obj p).node.received ≠ [] := hp
      rw [hnode] at hp'
      split_ifs at hp' with heq
      · exact absurd hrec hp'
      · exact h.read p hp'
    · intro p
      show Unasked ((g.heap.alloc { sock := some sock }).2.obj p).node.received →
        .handled p ∉ log ∧
          (((g.heap.alloc { sock := some sock }).2.obj p).node.rdBuff.toList =
              ((g.heap.alloc { sock := some sock }).2.obj p).node.received ∨
            .kicked p ∈ log ∧ Behind ((g.heap.alloc { sock := some sock }).2.obj p).node.received
              ((g.heap.alloc { sock := some sock }).2.obj p).node.rdBuff.toList)
      rw [hnode]
      split_ifs with heq
      · -- the new connection has sent nothing
        intro _
        rw [heq, hrec, hbuff]
        exact ⟨hnew.2, .inl rfl⟩
      · exact h.refused p

theorem guarded_epollEvent {s : GateIO × List AcceptRes} (h : Guarded (s.1, log)) (ev : EpollEvent) :
    Guarded ((epollEvent s ev).1, log) := by
  obtain ⟨g, accepts⟩ := s
  unfold epollEvent
  simp only
  split_ifs
  · exact guarded_onAccept h _
  · split
    · next user huser =>
      -- the user was found under its descriptor
      refine h.of_kept rfl ?_ (fun _ _ => id) ?_ rfl
      · intro p
        show (g.node p).Kept ((g.setNode user _).node p)
        rw [node_setNode]
        split_ifs with hp
        · rw [hp]
          exact Kept.of_eq rfl rfl rfl rfl
        · exact Kept.of_eq rfl rfl rfl rfl
      · intro p hp
        rcases List.mem_append.mp hp with hp | hp
        · exact .inl hp
        · rw [List.mem_singleton.mp hp]
          exact .inr ⟨ev.fd, huser⟩
    · unfold loginedSockop
      split
      · exact h
      · exact h.of_kept rfl (fun _ => Kept.of_eq rfl rfl rfl rfl) (fun _ _ => id) (fun _ => .inl) rfl

theorem guarded_epollOne (h : Guarded (g, log)) (events : List EpollEvent)
    (accepts : List AcceptRes) : Guarded (g.epollOne events accepts, log) := by
  have hloop : Guarded ((Rubo.Foundation.run epollEvent (g, accepts) events).1, log) :=
    run_invariant (I := fun s : GateIO × List AcceptRes => Guarded (s.1, log))
      (fun _ ev h => guarded_epollEvent h ev) h events
  exact hloop

/-! ## Reading -/

theorem Served.sfd {user : Ptr} {delta : List UInt8} {new : List Incident}
    (hs : Served g g' user delta new) (p : Ptr) : (g'.node p).sfd = (g.node p).sfd := by
  by_cases hp : p = user
  · rw [hp, hs.node.sfd]
  · rw [hs.kept p hp]

/-- All that is noted is the end of a connection. -/
theorem Served.mem_append {user : Ptr} {delta : List UInt8} {new : List Incident}
    (hs : Served g g' user delta new) {i : Incident} (hi : i ≠ .ended user) :
    i ∈ log ++ new ↔ i ∈ log := by
  rw [List.mem_append, or_iff_left]
  exact fun hmem => hi (hs.log i hmem)

/-- Whoever has sent anything is noticed. -/
theorem Guarded.read_of_served {user p : Ptr} {delta : List UInt8} {new : List Incident}
    (h : Guarded (g, log)) (hs : Served g g' user delta new) (hp : (g'.node p).received ≠ []) :
    .ended p ∈ log ++ new ∨ p ∈ g'.unloginReads := by
  have hold : .ended p ∈ log ∨ p ∈ g.unloginReads →
      .ended p ∈ log ++ new ∨ p ∈ g'.unloginReads := by
    rintro (hp | hp)
    · exact .inl (List.mem_append_left _ hp)
    · rcases hs.reads with hreads | hreads
      · exact .inr (hreads ▸ hp)
      · exact .inr (hreads ▸ List.mem_append_left _ hp)
  by_cases hpu : p = user
  · -- what was there before, or what has just arrived
    subst hpu
    rcases hs.noticed with rfl | hended | hread
    · apply hold
      apply h.read
      have hsame : (g'.node p).received = (g.node p).received := by simp [hs.node.received]
      exact hsame ▸ hp
    · exact .inl (List.mem_append_right _ hended)
    · exact .inr hread
  · apply hold
    apply h.read
    exact hs.kept p hpu ▸ hp

/-- Nothing is taken while bytes arrive. -/
theorem Guarded.refused_of_served {user : Ptr} {delta : List UInt8} {new : List Incident}
    (h : Guarded (g, log)) (hs : Served g g' user delta new) (halive : .kicked user ∉ log)
    (p : Ptr) : Refused (g', log ++ new) p := by
  show Unasked (g'.node p).received → .handled p ∉ log ++ new ∧
    ((g'.node p).rdBuff.toList = (g'.node p).received ∨
      .kicked p ∈ log ++ new ∧ Behind (g'.node p).received (g'.node p).rdBuff.toList)
  rw [hs.mem_append Incident.noConfusion, hs.mem_append Incident.noConfusion]
  by_cases hpu : p = user
  · subst hpu
    intro hun
    rw [hs.node.received] at hun ⊢
    rw [hs.node.rdBuff]
    -- nothing was taken so far, and what arrives is appended to both
    obtain ⟨hnot, hbuff | ⟨hk, _⟩⟩ := h.refused p hun.of_append
    · exact ⟨hnot, .inl (by rw [show (g.node p).rdBuff.toList = (g.node p).received from hbuff])⟩
    · exact absurd hk halive
  · rw [hs.kept p hpu]
    exact h.refused p

theorem Guarded.of_served {user : Ptr} {delta : List UInt8} {new : List Incident}
    (h : Guarded (g, log)) (hs : Served g g' user delta new) (hlt : user < g.heap.next)
    (halive : .kicked user ∉ log) : Guarded (g', log ++ new) where
  keyed fd p hp := by
    show (g'.node p).sfd = fd ∧ p < g'.heap.next
    rw [hs.sfd, hs.next]
    exact h.keyed fd p (hs.find fd p hp)
  gone fd p hp := by
    rw [hs.mem_append Incident.noConfusion]
    exact h.gone fd p (hs.find fd p hp)
  events p hp := by
    show p < g'.heap.next ∧ .kicked p ∉ log ++ new
    rw [hs.next, hs.mem_append Incident.noConfusion]
    exact h.events p (hs.events ▸ hp)
  reads p hp := by
    show p < g'.heap.next
    rw [hs.next]
    rcases hs.reads with hreads | hreads
    · exact h.reads p (hreads ▸ hp)
    · rcases List.mem_append.mp (hreads ▸ hp) with hp | hp
      · exact h.reads p hp
      · rwa [List.mem_singleton.mp hp]
  fresh p hp := by
    show p < g'.heap.next
    rw [hs.next]
    rw [hs.mem_append Incident.noConfusion, hs.mem_append Incident.noConfusion] at hp
    exact h.fresh p hp
  read _ hp := h.read_of_served hs hp
  refused := h.refused_of_served hs halive

/-- The loop of `handler_data`. -/
theorem guarded_beforeParsing (h : Guarded (g, log)) (r : IoRound) :
    Guarded (g.beforeParsing r, log ++ logOf (serveUnlogin r.io) (serveIncidents r.io)
      (g.epollOne r.events r.accepts) (g.epollOne r.events r.accepts).unloginEvents) := by
  have h₁ := guarded_epollOne h r.events r.accepts
  unfold beforeParsing
  generalize g.epollOne r.events r.accepts = g₁ at h₁ ⊢
  have hloop : ∀ (users : List Ptr) (g₂ : GateIO) (log₂ : List Incident), Guarded (g₂, log₂) →
      (∀ p ∈ users, p < g₂.heap.next ∧ .kicked p ∉ log₂) →
      Guarded (users.foldl (serveUnlogin r.io) g₂,
        log₂ ++ logOf (serveUnlogin r.io) (serveIncidents r.io) g₂ users) := by
    intro users
    induction users with
    | nil =>
        intro g₂ log₂ h₂ _
        rw [logOf, List.append_nil]
        exact h₂
    | cons user users ih =>
        intro g₂ log₂ h₂ husers
        obtain ⟨delta, hs⟩ := served_serveUnlogin r.io g₂ user
        obtain ⟨hlt, halive⟩ := husers user (List.mem_cons_self ..)
        rw [List.foldl_cons, logOf, ← List.append_assoc]
        apply ih _ _ (h₂.of_served hs hlt halive)
        intro p hp
        obtain ⟨hlt', halive'⟩ := husers p (List.mem_cons_of_mem _ hp)
        refine ⟨hs.next ▸ hlt', ?_⟩
        intro hk
        rcases List.mem_append.mp hk with hk | hk
        · exact halive' hk
        · cases hs.log _ hk
  have h₂ := hloop g₁.unloginEvents g₁ log h₁ h₁.events
  exact h₂.of_kept rfl (fun _ => Kept.of_eq rfl rfl rfl rfl) (fun _ _ => id)
    (fun _ hp => absurd hp List.not_mem_nil) rfl

/-! ## Parsing -/

/-- One call for a connection whose stream is admissible and starts with no
request: no handler is called; the connection waits for the rest of its first
frame, or it is kicked out. -/
theorem refused_cases {s : GateIO × List MysqlDb} {user : Ptr}
    (hadm : Admissible (s.1.node user).received) (hun : Unasked (s.1.node user).received)
    (hold : (s.1.node user).rdBuff.toList = (s.1.node user).received ∨
      .kicked user ∈ log ∧ Behind (s.1.node user).received (s.1.node user).rdBuff.toList) :
    .handled user ∉ parseIncidents rt s user ∧
      (frameNext (s.1.node user).received = none ∧
          (MsgCenter.taken (s.1.node user).rdBuff.toList).2 = (s.1.node user).received ∨
        .kicked user ∈ log ++ parseIncidents rt s user ∧
          Behind (s.1.node user).received (MsgCenter.taken (s.1.node user).rdBuff.toList).2) := by
  rcases verdictOn_cases rt s.1 user with ⟨hwait, hstart⟩ | ⟨hkick, hstart, _⟩ | ⟨_, _, _, hone⟩
  · simp only [parseIncidents, hwait, List.append_nil, List.not_mem_nil, not_false_iff, true_and]
    rcases hold with hbuff | ⟨hkicked, hbehind⟩
    · -- the first frame is incomplete: a complete one would be accepted
      cases hnext : frameNext (s.1.node user).received with
      | none => exact .inl ⟨rfl, by rw [hbuff, MsgCenter.taken_of_none hnext]⟩
      | some p =>
          obtain ⟨f, r⟩ := p
          obtain ⟨hreg, _⟩ := hadm.2 (f, r) hnext (hun f r hnext)
          rw [hbuff] at hstart
          exact absurd ((startsAccepted_iff hnext).mpr hreg) hstart
    · exact .inr ⟨hkicked, hbehind.taken⟩
  · simp only [parseIncidents, hkick]
    refine ⟨by simp, .inr ⟨by simp, ?_⟩⟩
    rcases hold with hbuff | ⟨_, hbehind⟩
    · obtain ⟨f, r, ⟨hf, _⟩, hcat⟩ := hstart
      rw [hbuff] at hcat ⊢
      have hnext : frameNext (s.1.node user).received = some (f, r) := by
        rw [hcat]
        exact frameNext_encode hf r
      exact behind_taken hnext
    · exact hbehind.taken
  · -- a request: either the stream starts with it, or it comes late
    rcases hold with hbuff | ⟨_, hbehind⟩
    · obtain ⟨v, r, hnext, hreq⟩ := hone.frameNext
      rw [hbuff] at hnext
      exact absurd hreq (hun v r hnext)
    · obtain ⟨f, r, hnext⟩ := hbehind.frameNext_stream
      exact absurd (hbehind.lateRequest hone) (hadm.2 (f, r) hnext (hun f r hnext)).2

/-- The connection has been dealt with: a first frame that is no request has cost
it its descriptor. -/
def Dealt (s : Logged) (p : Ptr) : Prop :=
  ∀ f r, frameNext (s.1.node p).received = some (f, r) → ¬ IsRequest f.msgId → .kicked p ∈ s.2

/-- Parsing a user is noted about that user only. -/
theorem mem_append_parseIncidents {s : GateIO × List MysqlDb} {user p : Ptr} {i : Incident}
    (hp : p ≠ user) (hi : i = .kicked p ∨ i = .handled p) :
    i ∈ log ++ parseIncidents rt s user ↔ i ∈ log := by
  rw [List.mem_append, or_iff_left]
  intro hmem
  rcases mem_parseIncidents rt hmem with ⟨rfl, _⟩ | rfl
  · simp [Ne.symm hp] at hi
  · simp [Ne.symm hp] at hi

/-- **One user is parsed.** -/
theorem guarded_parseUnlogin {s : GateIO × List MysqlDb} {user : Ptr} (h : Guarded (s.1, log))
    (hev : s.1.unloginEvents = []) (hlt : user < s.1.heap.next)
    (hadm : Admissible (s.1.node user).received) :
    Guarded ((parseUnlogin rt s user).1, log ++ parseIncidents rt s user) := by
  have hj := judged_parseUnlogin rt s user
  generalize hg' : (parseUnlogin rt s user).1 = g' at hj ⊢
  refine ⟨?_, ?_, ?_, ?_, ?_, ?_, ?_⟩
  · intro fd p hp
    show (g'.node p).sfd = fd ∧ p < g'.heap.next
    rw [(hj.received p).2, hj.next]
    have hp' : g'.unloginUsers.find fd = some p := hp
    rw [hj.unloginUsers] at hp'
    split_ifs at hp'
    · exact h.keyed fd p (Table.find_erase_eq_some.mp hp').2
    · exact h.keyed fd p hp'
  · intro fd p hp hk
    have hp' : g'.unloginUsers.find fd = some p := hp
    rw [hj.unloginUsers] at hp'
    rcases List.mem_append.mp hk with hk | hk
    · -- kicked out earlier
      split_ifs at hp'
      · exact h.gone fd p (Table.find_erase_eq_some.mp hp').2 hk
      · exact h.gone fd p hp' hk
    · rcases mem_parseIncidents rt hk with ⟨heq, hkick⟩ | heq
      · -- kicked out now: no entry under its descriptor is left
        cases heq
        rw [if_pos hkick] at hp'
        obtain ⟨hne, hfind⟩ := Table.find_erase_eq_some.mp hp'
        exact hne (h.keyed fd _ hfind).1.symm
      · cases heq
  · intro p hp
    rw [show g'.unloginEvents = [] from hj.events.trans hev] at hp
    exact absurd hp List.not_mem_nil
  · intro p hp
    show p < g'.heap.next
    rw [hj.next]
    exact h.reads p (hj.reads ▸ hp)
  · intro p hp
    show p < g'.heap.next
    rw [hj.next]
    by_cases hpu : p = user
    · rwa [hpu]
    · apply h.fresh p
      exact hp.imp (mem_append_parseIncidents rt hpu (.inl rfl)).mp
        (mem_append_parseIncidents rt hpu (.inr rfl)).mp
  · intro p hp
    have hp' : (g'.node p).received ≠ [] := hp
    rw [(hj.received p).1] at hp'
    show .ended p ∈ log ++ parseIncidents rt s user ∨ p ∈ g'.unloginReads
    rw [hj.reads]
    exact (h.read p hp').imp_left (List.mem_append_left _)
  · intro p
    show Unasked (g'.node p).received → .handled p ∉ log ++ parseIncidents rt s user ∧
      ((g'.node p).rdBuff.toList = (g'.node p).received ∨
        .kicked p ∈ log ++ parseIncidents rt s user ∧
          Behind (g'.node p).received (g'.node p).rdBuff.toList)
    by_cases hpu : p = user
    · subst hpu
      intro hun
      obtain ⟨buff, hnode, hbuff⟩ := hj.node
      rw [(hj.received p).1] at hun ⊢
      rw [hnode, hbuff]
      obtain ⟨hnot, hold⟩ := h.refused p hun
      obtain ⟨hnew, hleft⟩ := refused_cases rt hadm hun hold
      refine ⟨?_, hleft.imp_left fun hleft => hleft.2⟩
      rw [List.mem_append, not_or]
      exact ⟨hnot, hnew⟩
    · rw [hj.kept p hpu, mem_append_parseIncidents rt hpu (.inr rfl),
        mem_append_parseIncidents rt hpu (.inl rfl)]
      exact h.refused p

/-- A user just parsed has been dealt with. -/
theorem dealt_parseUnlogin {s : GateIO × List MysqlDb} {user : Ptr} (h : Guarded (s.1, log))
    (hadm : Admissible (s.1.node user).received) :
    Dealt ((parseUnlogin rt s user).1, log ++ parseIncidents rt s user) user := by
  intro f r hnext hreq
  have hnext' : frameNext ((parseUnlogin rt s user).1.node user).received = some (f, r) := hnext
  rw [((judged_parseUnlogin rt s user).received user).1] at hnext'
  have hun : Unasked (s.1.node user).received := unasked_of_next hnext' hreq
  -- the first frame is complete, so the call did not wait for it
  rcases (refused_cases rt hadm hun (h.refused user hun).2).2 with ⟨hnone, _⟩ | ⟨hk, _⟩
  · rw [hnext'] at hnone
    cases hnone
  · exact hk

/-- The loop of `handler_unlogin_msgs`. -/
theorem guarded_parseUnlogins (users : List Ptr) {s : GateIO × List MysqlDb}
    (h : Guarded (s.1, log)) (hev : s.1.unloginEvents = [])
    (husers : ∀ p ∈ users, p < s.1.heap.next ∧ Admissible (s.1.node p).received) :
    Guarded ((users.foldl (parseUnlogin rt) s).1,
        log ++ logOf (parseUnlogin rt) (parseIncidents rt) s users) ∧
      (∀ p ∈ users, Dealt ((users.foldl (parseUnlogin rt) s).1,
        log ++ logOf (parseUnlogin rt) (parseIncidents rt) s users) p) ∧
      (users.foldl (parseUnlogin rt) s).1.unloginReads = s.1.unloginReads ∧
      ∀ p, ((users.foldl (parseUnlogin rt) s).1.node p).received = (s.1.node p).received := by
  induction users generalizing s log with
  | nil =>
      rw [logOf, List.append_nil]
      exact ⟨h, fun _ hp => absurd hp List.not_mem_nil, rfl, fun _ => rfl⟩
  | cons user users ih =>
      obtain ⟨hlt, hadm⟩ := husers user (List.mem_cons_self ..)
      have hj := judged_parseUnlogin rt s user
      have h₁ := guarded_parseUnlogin rt h hev hlt hadm
      have hdealt := dealt_parseUnlogin rt h hadm
      have husers₁ : ∀ p ∈ users, p < (parseUnlogin rt s user).1.heap.next ∧
          Admissible ((parseUnlogin rt s user).1.node p).received := by
        intro p hp
        rw [hj.next, (hj.received p).1]
        exact husers p (List.mem_cons_of_mem _ hp)
      obtain ⟨h₂, hdealts, hreads, hreceived⟩ := ih h₁ (hj.events.trans hev) husers₁
      rw [List.foldl_cons, logOf, ← List.append_assoc]
      refine ⟨h₂, ?_, hreads.trans hj.reads, ?_⟩
      · intro p hp
        rcases List.mem_cons.mp hp with rfl | hp
        · -- dealt with at once, and the log only grows
          intro f r hnext hreq
          apply List.mem_append_left
          apply hdealt f r _ hreq
          have hsame := hreceived p
          rwa [← hsame]
        · exact hdealts p hp
      · intro p
        rw [hreceived, (hj.received p).1]

/-! ## Replying -/

theorem Guarded.of_still (h : Guarded (g, log)) (hs : Still g g') : Guarded (g', log) :=
  h.of_kept hs.next hs.node hs.find (fun _ hp => .inl (hs.events ▸ hp)) hs.reads

theorem FirstMessageRule.of_still {p : Ptr} (h : FirstMessageRule (g, log) p) (hs : Still g g') :
    FirstMessageRule (g', log) p := by
  have hreceived : (g'.node p).received = (g.node p).received := by simp [(hs.node p).received]
  refine ⟨?_, ?_⟩
  · show ∀ f r, frameNext (g'.node p).received = some (f, r) → _
    rw [hreceived]
    exact h.refused
  · show BadLength (g'.node p).received → _
    rw [hreceived]
    exact h.badLength

/-! ## Runs -/

/-- At the end of a round every connection that has sent anything has been parsed
or has ended. -/
theorem Guarded.rule (h : Guarded (g, log))
    (hdealt : ∀ p ∈ g.unloginReads, Dealt (g, log) p ∧ ¬ BadLength (g.node p).received) (p : Ptr) :
    FirstMessageRule (g, log) p where
  refused f r hnext hreq := by
    have hun : Unasked (g.node p).received := unasked_of_next hnext hreq
    have hsent : (g.node p).received ≠ [] := by
      intro hnil
      have hnext' : frameNext (g.node p).received = some (f, r) := hnext
      rw [hnil] at hnext'
      cases hnext'
    refine ⟨?_, (h.refused p hun).1⟩
    rcases h.read p hsent with hended | hread
    · exact .inr hended
    · exact .inl ((hdealt p hread).1 f r hnext hreq)
  badLength hbad := by
    have hsent : (g.node p).received ≠ [] := by
      intro hnil
      have hlen : 4 ≤ (g.node p).received.length := hbad.1
      rw [hnil] at hlen
      exact absurd hlen (by decide)
    rcases h.read p hsent with hended | hread
    · exact .inr hended
    · exact absurd hbad (hdealt p hread).2

/-- What holds after every step. -/
structure RuleKept (s : Logged) : Prop where
  guarded : Guarded s
  rule : ∀ p, FirstMessageRule s p

theorem ruleKept_init (sockFd : Int32) : RuleKept (init sockFd, []) := by
  have hnode : ∀ p, (init sockFd).node p = {} := fun _ => rfl
  refine ⟨⟨?_, ?_, ?_, ?_, ?_, ?_, ?_⟩, fun p => ⟨?_, ?_⟩⟩
  · intro fd p hp
    cases hp
  · intro fd p hp
    cases hp
  · exact fun p hp => absurd hp List.not_mem_nil
  · exact fun p hp => absurd hp List.not_mem_nil
  · intro p hp
    simp at hp
  · exact fun p hp => absurd rfl hp
  · exact fun p _ => ⟨List.not_mem_nil, .inl rfl⟩
  · intro f r hnext
    cases hnext
  · intro hbad
    exact absurd hbad.1 (by simp [hnode])

/-- **One step keeps the rule**, if the streams parsed are admissible. -/
theorem ruleKept_step {s : Logged} {a : Act} (h : RuleKept s) (hadm : StreamsAdmissible s.1 a) :
    RuleKept (logged (step rt) (incidents rt) s a) := by
  obtain ⟨g, log⟩ := s
  cases a with
  | worker i r =>
      -- the workers do not touch what belongs to the IO thread
      have hstill : Still g (step rt g (.worker i r)) := by
        simp only [step]
        split <;> exact Still.of_heap_eq rfl (fun _ _ => id) rfl rfl
      simp only [logged, incidents, List.append_nil]
      exact ⟨h.guarded.of_still hstill, fun p => (h.rule p).of_still hstill⟩
  | io r =>
      have h₁ := guarded_beforeParsing h.guarded r
      obtain ⟨h₂, hdealt, hreads, hreceived⟩ := guarded_parseUnlogins rt
        (g.beforeParsing r).unloginReads (s := (g.beforeParsing r, r.dbs)) h₁ rfl
        fun p hp => ⟨h₁.reads p hp, hadm p hp⟩
      have hrule := h₂.rule (by
        intro p hp
        have hp' : p ∈ (g.beforeParsing r).unloginReads := hreads ▸ hp
        rw [hreceived p]
        exact ⟨hdealt p hp', (hadm p hp').1⟩)
      rw [List.append_assoc] at h₂ hrule
      -- replying and notifying change nothing the rule is about
      exact ⟨h₂.of_still (still_afterParsing rt _ r),
        fun p => (hrule p).of_still (still_afterParsing rt _ r)⟩

/-- **First-message rule**, in every run in which each stream parsed is admissible:
whoever has sent another frame than a request first is kicked out, and none of
its frames has been handled. -/
theorem firstMessageRule_of_along {sockFd : Int32} {acts : List Act}
    (h : Along (step rt) StreamsAdmissible (init sockFd) acts) (p : Ptr) :
    FirstMessageRule (Rubo.Foundation.run (logged (step rt) (incidents rt)) (init sockFd, []) acts) p :=
  (run_invariant_of_along (fun _ _ => ruleKept_step rt) (ruleKept_init sockFd) (along_logged h)).rule p

/-! ## Runs on fixed inputs -/

/-- A request of a client that has logged in. -/
def earlyFrame : Frame := ⟨ProtocolDefine.userDosthReq.toInt, 1, [8, 1, 18, 1, 97]⟩

/-- A client connects under descriptor 5 and sends the bytes in two pieces. -/
def clientSends (first second : List UInt8) : List Act :=
  [.io { ready := .one ⟨3, true, false⟩, accepts := [.conn 5 "" 0 true] },
   .io { ready := .one ⟨5, true, false⟩, io := fun _ => { reads := [.data first] } },
   .io { ready := .one ⟨5, true, false⟩, io := fun _ => { reads := [.data second] }
         dbs := [oneUserDb] }]

/-- A client that asks for something before it logs in is kicked out. -/
theorem firstMessageRule_early :
    FirstMessageRule (Rubo.Foundation.run (logged (step .proto2) (incidents .proto2)) (init 3, [])
      (clientSends (earlyFrame.encode.take 6) (earlyFrame.encode.drop 6 ++ loginFrame.encode))) 0 :=
  firstMessageRule_of_along .proto2 (by decide +kernel) 0

/-- A frame with an unregistered id does not get its sender kicked out, and the
login behind it is handled. -/
theorem not_firstMessageRule_unknown :
    ¬ ∀ (rt : Runtime) (sockFd : Int32) (acts : List Act) (p : Ptr),
      FirstMessageRule
        (Rubo.Foundation.run (logged (step rt) (incidents rt)) (init sockFd, []) acts) p := by
  intro h
  have hrule := h .proto2 3 (clientSends unknownFrame.encode loginFrame.encode) 0
  have hhandled : .handled 0 ∈ (Rubo.Foundation.run (logged (step .proto2) (incidents .proto2))
      (init 3, []) (clientSends unknownFrame.encode loginFrame.encode)).2 := by decide +kernel
  have hfirst : frameNext ((Rubo.Foundation.run (logged (step .proto2) (incidents .proto2))
      (init 3, []) (clientSends unknownFrame.encode loginFrame.encode)).1.node 0).received =
        some (unknownFrame, loginFrame.encode) := by decide +kernel
  exact (hrule.refused _ _ hfirst (by decide)).2 hhandled

end GateIO

end Rubo.Server
