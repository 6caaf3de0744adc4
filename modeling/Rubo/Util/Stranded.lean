import Rubo.Foundation.Heap
import Rubo.Util.Outgoing

/-!
# Stranded Output

Bytes the kernel does not take stay in `_wt_buff`, and `event_op` sends them once
epoll reports the descriptor as writable. Epoll does so only for a descriptor that
is registered with `EPOLLOUT`, and no call ever registers one: the test in front of
`epoll_out` compares the flag `2` with `true`.

So a loop strands no output exactly as long as no message leaves bytes behind
(`notStranded_iff_along`); the first bytes that stay behind are stranded
(`not_notStranded_refused`).
-/

namespace Rubo.Util

open Rubo.Foundation Rubo.Msgs

/-! ## What a message leaves behind -/

namespace SocketOp

/-- Nothing of what is left is queued: the kernel takes every chunk, or a call
fails and the rest is lost. -/
def drains : ℕ → List WriteRes → Bool
  | left, [] => left == 0
  | left, .took n :: writes => left == 0 || n == 0 || drains (left - writeDataMax) writes
  | left, .eintr :: writes => left == 0 || drains left writes
  | left, .eagain :: _ => left == 0
  | _, .error :: _ => true

theorem canWt_sendLoop (data : List UInt8) (sock : SocketNode) (wtLen : ℕ)
    (writes : List WriteRes) : (sendLoop data sock wtLen writes).2.1.canWt = sock.canWt := by
  obtain ⟨wtBuff, accepted, heq⟩ := sendLoop_eq data sock wtLen writes
  rw [heq]

/-- `send` leaves nothing behind exactly when nothing was pending and it drains. -/
theorem wtBuff_sendLoop_eq_nil (data : List UInt8) (sock : SocketNode) (wtLen : ℕ)
    (writes : List WriteRes) :
    (sendLoop data sock wtLen writes).2.1.wtBuff.toList = [] ↔
      sock.wtBuff.toList = [] ∧ drains (data.length - wtLen) writes = true := by
  induction writes generalizing sock wtLen with
  | nil =>
      rw [sendLoop]
      split_ifs with hlt
      · -- no answer left means `EAGAIN`: the rest is queued
        simp [RingBuffPtr.toList_addData, drains, hlt, Nat.sub_ne_zero_of_lt hlt]
      · simp [drains, Nat.sub_eq_zero_of_le (Nat.le_of_not_lt hlt)]
  | cons res writes ih =>
      rw [sendLoop]
      by_cases hlt : wtLen < data.length
      · have hleft : data.length - wtLen ≠ 0 := Nat.sub_ne_zero_of_lt hlt
        rw [if_pos hlt]
        cases res with
        | took n =>
            have hpos : 0 < (if data.length - wtLen > writeDataMax then writeDataMax
                else data.length - wtLen) := by
              unfold writeDataMax
              split_ifs <;> omega
            have hrest : data.length - (wtLen + if data.length - wtLen > writeDataMax then
                writeDataMax else data.length - wtLen) = data.length - wtLen - writeDataMax := by
              split_ifs <;> omega
            generalize (if data.length - wtLen > writeDataMax then writeDataMax
              else data.length - wtLen) = oneLen at hpos hrest ⊢
            simp only
            split_ifs with hn
            · have hn' : n ≠ 0 := by
                rintro rfl
                simp at hn
              simp [ih, hrest, drains, hleft, hn']
            · -- taking nothing counts as an error
              have hn' : n = 0 := by omega
              simp [drains, hn']
        | eintr => simp [ih, drains, hleft]
        | eagain => simp [RingBuffPtr.toList_addData, drains, hlt, hleft]
        | error => simp [drains]
      · have hleft : data.length - wtLen = 0 := Nat.sub_eq_zero_of_le (Nat.le_of_not_lt hlt)
        rw [if_neg hlt]
        cases res <;> simp [drains, hleft]

variable (pb : Protobuf) (op : SocketOp) {sock : SocketNode}

/-- A flush of nothing does nothing. -/
theorem wtBuff_flush_of_nil (h : sock.wtBuff.toList = []) (writes : List WriteRes) :
    (flush op sock writes).2.2.1.wtBuff.toList = [] := by
  have hsize : sock.wtBuff.dataSize ≤ 0 := by simp [RingBuffPtr.dataSize_eq, h]
  unfold flush
  rw [if_pos hsize]
  exact h

theorem wtBuff_writeMsg_eq_nil (hcan : sock.canWt = true) (msg : UserMsg)
    (writes : List WriteRes) :
    (writeMsg pb op sock msg writes).2.2.1.wtBuff.toList = [] ↔
      sock.wtBuff.toList = [] ∧ drains (Frame.ofMsg pb msg).encode.length writes = true := by
  simp only [writeMsg, take_fillFrame, send_of_canWt hcan]
  exact wtBuff_sendLoop_eq_nil ..

theorem canWt_writeMsg (hcan : sock.canWt = true) (msg : UserMsg) (writes : List WriteRes) :
    (writeMsg pb op sock msg writes).2.2.1.canWt = true := by
  simp only [writeMsg, send_of_canWt hcan, canWt_sendLoop, hcan]

end SocketOp

/-! ## Nothing is armed -/

/-- `FD_EVENT_WRITE` is `2`, so `(ret & FD_EVENT_WRITE) == true` never holds. -/
theorem FdEvent.and_write_ne_one (ev : FdEvent) : ev &&& FdEvent.write ≠ 1 := by
  intro h
  have hbit := congrArg (fun n => Nat.testBit n 0) h
  simp [FdEvent.write] at hbit

/-- No descriptor is registered with `EPOLLOUT`. -/
def EpollOp.Unarmed (e : EpollOp) : Prop := ∀ fd, e.registered.find fd ≠ some true

namespace EpollOp

variable {e : EpollOp}

theorem unarmed_new : new.Unarmed := by
  intro fd h
  cases h

theorem unarmed_epollAdd (h : e.Unarmed) (sfd : Int32) : (e.epollAdd sfd).2.Unarmed := by
  unfold epollAdd
  split
  · exact h
  · intro fd
    simp only [Table.find_set]
    split_ifs
    · simp
    · exact h fd

theorem unarmed_erase (h : e.Unarmed) (sfd : Int32) :
    Unarmed ⟨e.registered.erase sfd⟩ :=
  fun fd hfd => h fd (Table.find_erase_eq_some.mp hfd).2

theorem unarmed_epollIn (h : e.Unarmed) (sfd : Int32) : (e.epollIn sfd).2.Unarmed := by
  unfold epollIn epollMod
  split
  · exact h
  · intro fd
    simp only [Table.find_set]
    split_ifs
    · simp
    · exact h fd

end EpollOp

namespace TcpOp

variable {t : TcpOp} {node : SocketNode}

theorem unarmed_eventRead (h : t.epoll.Unarmed) (node : SocketNode) (reads : List ReadRes) :
    (t.eventRead node reads).2.1.epoll.Unarmed := by
  unfold eventRead read
  split_ifs <;> exact h

/-- The only call of `epoll_out` is not reached. -/
theorem unarmed_eventWrite (h : t.epoll.Unarmed) (node : SocketNode) (writes : List WriteRes) :
    (t.eventWrite node writes).2.1.epoll.Unarmed := by
  unfold eventWrite flush
  simp only [FdEvent.and_write_ne_one, if_false]
  split_ifs
  · exact EpollOp.unarmed_epollIn h _
  · exact h
  · exact h
  · exact h

theorem unarmed_eventOp (h : t.epoll.Unarmed) (io : KernelIo) :
    (t.eventOp node io).2.1.epoll.Unarmed := by
  have hwrite := unarmed_eventWrite (unarmed_eventRead h node io.reads)
    (t.eventRead node io.reads).2.2 io.writes
  unfold eventOp
  simp only
  split_ifs
  · exact EpollOp.unarmed_erase hwrite _
  · exact hwrite

theorem unarmed_accept (h : t.epoll.Unarmed) (res : AcceptRes) :
    (t.accept res).2.epoll.Unarmed := by
  cases res with
  | fail => exact h
  | conn fd ip port options =>
      have hadd := EpollOp.unarmed_epollAdd h fd
      unfold accept addEpev
      simp only
      split_ifs
      · exact EpollOp.unarmed_erase h fd
      · exact EpollOp.unarmed_erase hadd fd
      · exact hadd

theorem wtBuff_eventWrite_of_nil (h : node.wtBuff.toList = []) (writes : List WriteRes) :
    (t.eventWrite node writes).2.2.wtBuff.toList = [] := by
  have hflush := SocketOp.wtBuff_flush_of_nil t.sock h writes
  unfold eventWrite flush
  generalize t.sock.flush node writes = r at hflush ⊢
  obtain ⟨wtRet, sock, node', rest⟩ := r
  simp only
  split_ifs
  · exact hflush
  · exact hflush
  · exact hflush
  · exact hflush
  · exact h

/-- Serving a connection without pending bytes leaves none behind. -/
theorem wtBuff_eventOp_of_nil (h : node.wtBuff.toList = []) (io : KernelIo) :
    (t.eventOp node io).2.2.wtBuff.toList = [] := by
  have hread : (t.eventRead node io.reads).2.2.wtBuff.toList = [] := by rw [wtBuff_eventRead, h]
  unfold eventOp
  generalize t.eventRead node io.reads = rd at hread ⊢
  have hwrite := wtBuff_eventWrite_of_nil (t := rd.2.1) hread io.writes
  simp only
  generalize rd.2.1.eventWrite rd.2.2 io.writes = wt at hwrite ⊢
  split_ifs <;> exact hwrite

theorem canWt_eventOp (h : node.wtBuff.toList = []) (hcan : node.canWt = true) (io : KernelIo) :
    (t.eventOp node io).2.2.canWt = true :=
  (sameOutgoing_eventOp t (.inl h)).canWt hcan

end TcpOp

/-! ## Sequences of calls -/

/-- A `TcpOp`, the connection objects of its loop, and those of them whose
descriptors have not been closed. -/
structure TcpLoop where
  tcpOp : TcpOp
  nodes : Heap SocketNode
  opened : List Ptr

namespace TcpLoop

/-- A call of one of the loops. The events of `epoll_wait` are marked on a node
before it is served. -/
inductive Call where
  | listen (sockFd : Int32)
  | accept (res : AcceptRes)
  | addEpev (fd : Int32) (type : ClientType)
  | mark (p : Ptr) (ev : EpollEvent)
  | eventOp (p : Ptr) (io : KernelIo)
  | write (p : Ptr) (msg : UserMsg) (writes : List WriteRes)
  | flush (p : Ptr) (writes : List WriteRes)
  | delEpev (p : Ptr)
  | closeOp (p : Ptr)
  /-- Another thread closes the descriptor. -/
  | closedElsewhere (fd : Int32)

/-- A loop before its first call. -/
def new : TcpLoop := ⟨.new, .empty {}, []⟩

variable (pb : Protobuf) (s : TcpLoop)

/-- The node of a connection. -/
def node (p : Ptr) : SocketNode := s.nodes.obj p

/-- Change a node. -/
def setNode (p : Ptr) (sock : SocketNode) : TcpLoop := { s with nodes := s.nodes.set p sock }

/-- A new connection. -/
def adopt (sock : SocketNode) : TcpLoop :=
  { s with nodes := (s.nodes.alloc sock).2, opened := s.opened ++ [s.nodes.next] }

/-- Go on with `t`: connections whose descriptors it has closed are gone. -/
def settle (t : TcpOp) : TcpLoop :=
  { s with
    tcpOp := t
    opened := s.opened.filter fun p => (s.node p).sfd ∉ t.closed.drop s.tcpOp.closed.length }

/-- One call. -/
def step : Call → TcpLoop
  | .listen sockFd => { s with tcpOp := ({ s.tcpOp with sockFd }.addEpev sockFd).2 }
  | .accept res =>
    match s.tcpOp.accept res with
    | (none, t) => s.settle t
    | (some sock, t) => (s.settle t).adopt sock
  | .addEpev fd type => { s with tcpOp := (s.tcpOp.addEpev fd).2 }.adopt { sfd := fd, type }
  | .mark p ev => s.setNode p { s.node p with event := ev.mark (s.node p).event }
  | .eventOp p io =>
    let (_, t, sock) := s.tcpOp.eventOp (s.node p) io
    (s.setNode p sock).settle t
  | .write p msg writes =>
    let (_, t, sock, _) := s.tcpOp.writeMsg pb (s.node p) msg writes
    { s.setNode p sock with tcpOp := t }
  | .flush p writes =>
    let (_, t, sock) := s.tcpOp.flush (s.node p) writes
    { s.setNode p sock with tcpOp := t }
  | .delEpev p => { s with tcpOp := s.tcpOp.delEpev (s.node p).sfd }
  | .closeOp p => s.settle (s.tcpOp.closeOp (s.node p).sfd)
  | .closedElsewhere fd => s.settle (s.tcpOp.closeOp fd)

/-- Bytes are waiting to be sent. -/
def HasPending (p : Ptr) : Prop := (s.node p).wtBuff.toList ≠ []

/-- The descriptor is registered for `EPOLLOUT`. -/
def Armed (p : Ptr) : Prop := s.tcpOp.epoll.registered.find (s.node p).sfd = some true

instance (p : Ptr) : Decidable (s.HasPending p) := inferInstanceAs (Decidable (_ ≠ _))

instance (p : Ptr) : Decidable (s.Armed p) := inferInstanceAs (Decidable (_ = _))

/-- After the call, open connections with pending bytes are armed, and the one just
served is not if it has none. -/
def NotStranded (c : Call) : Prop :=
  (∀ p ∈ (s.step pb c).opened, (s.step pb c).HasPending p → (s.step pb c).Armed p) ∧
    ∀ p io, c = .eventOp p io → p ∈ (s.step pb c).opened → ¬ (s.step pb c).HasPending p →
      ¬ (s.step pb c).Armed p

/-- A message written to an open connection leaves nothing behind. -/
def Drains : Call → Prop
  | .write p msg writes =>
    p ∈ s.opened → SocketOp.drains (Frame.ofMsg pb msg).encode.length writes = true
  | _ => True

instance : DecidablePred (s.Drains pb) := fun c => by
  cases c <;> unfold Drains <;> infer_instance

/-- Nothing is pending on any open connection, and nothing is armed. -/
structure Quiet : Prop where
  unarmed : s.tcpOp.epoll.Unarmed
  opened_lt : ∀ p ∈ s.opened, p < s.nodes.next
  empty : ∀ p ∈ s.opened, (s.node p).wtBuff.toList = []
  canWt : ∀ p ∈ s.opened, (s.node p).canWt = true

variable {pb s}

theorem node_setNode (p : Ptr) (sock : SocketNode) (q : Ptr) :
    (s.setNode p sock).node q = if q = p then sock else s.node q :=
  Heap.obj_set ..

theorem quiet_new : Quiet new := by
  refine ⟨EpollOp.unarmed_new, ?_, ?_, ?_⟩ <;> simp [new]

/-- Changing a node: an open one has to stay empty. -/
theorem Quiet.setNode (h : s.Quiet) {p : Ptr} {sock : SocketNode}
    (hsock : p ∈ s.opened → sock.wtBuff.toList = [] ∧ sock.canWt = true) :
    (s.setNode p sock).Quiet := by
  refine ⟨h.unarmed, h.opened_lt, ?_, ?_⟩
  · intro q hq
    rw [node_setNode]
    split_ifs with heq
    · exact (hsock (heq ▸ hq)).1
    · exact h.empty q hq
  · intro q hq
    rw [node_setNode]
    split_ifs with heq
    · exact (hsock (heq ▸ hq)).2
    · exact h.canWt q hq

theorem Quiet.withTcpOp (h : s.Quiet) {t : TcpOp} (ht : t.epoll.Unarmed) :
    Quiet { s with tcpOp := t } :=
  ⟨ht, h.opened_lt, h.empty, h.canWt⟩

theorem Quiet.settle (h : s.Quiet) {t : TcpOp} (ht : t.epoll.Unarmed) : (s.settle t).Quiet where
  unarmed := ht
  opened_lt p hp := h.opened_lt p (List.mem_of_mem_filter hp)
  empty p hp := h.empty p (List.mem_of_mem_filter hp)
  canWt p hp := h.canWt p (List.mem_of_mem_filter hp)

theorem Quiet.adopt (h : s.Quiet) {sock : SocketNode} (hempty : sock.wtBuff.toList = [])
    (hcan : sock.canWt = true) : (s.adopt sock).Quiet := by
  have hnode : ∀ q, (s.adopt sock).node q = if q = s.nodes.next then sock else s.node q :=
    fun q => Heap.obj_alloc ..
  have hopened : ∀ q, q ∈ (s.adopt sock).opened ↔ q ∈ s.opened ∨ q = s.nodes.next := by
    simp [TcpLoop.adopt]
  refine ⟨h.unarmed, ?_, ?_, ?_⟩
  · intro q hq
    rcases (hopened q).mp hq with hold | rfl
    · exact Nat.lt_succ_of_lt (h.opened_lt q hold)
    · exact Nat.lt_succ_self _
  · intro q hq
    rw [hnode]
    split_ifs with hnew
    · exact hempty
    · exact h.empty q (((hopened q).mp hq).resolve_right hnew)
  · intro q hq
    rw [hnode]
    split_ifs with hnew
    · exact hcan
    · exact h.canWt q (((hopened q).mp hq).resolve_right hnew)

/-- An accepted connection has nothing pending. -/
theorem accept_fresh {t t' : TcpOp} {res : AcceptRes} {sock : SocketNode}
    (h : t.accept res = (some sock, t')) : sock.wtBuff.toList = [] ∧ sock.canWt = true := by
  cases res with
  | fail => simp [TcpOp.accept] at h
  | conn fd ip port options =>
      unfold TcpOp.accept at h
      simp only at h
      split_ifs at h
      all_goals cases h
      exact ⟨rfl, rfl⟩

/-- A call that leaves nothing behind keeps a quiet loop quiet. -/
theorem quiet_step (h : s.Quiet) {c : Call} (hc : s.Drains pb c) : (s.step pb c).Quiet := by
  cases c with
  | listen sockFd => exact h.withTcpOp (EpollOp.unarmed_epollAdd h.unarmed sockFd)
  | accept res =>
      have hun := TcpOp.unarmed_accept h.unarmed res
      rcases haccept : s.tcpOp.accept res with ⟨_ | sock, t⟩ <;> rw [haccept] at hun
      · simp only [step, haccept]
        exact h.settle hun
      · simp only [step, haccept]
        exact (h.settle hun).adopt (accept_fresh haccept).1 (accept_fresh haccept).2
  | addEpev fd type =>
      exact (h.withTcpOp (EpollOp.unarmed_epollAdd h.unarmed fd)).adopt rfl rfl
  | mark p ev => exact h.setNode fun hp => ⟨h.empty p hp, h.canWt p hp⟩
  | eventOp p io =>
      refine (h.setNode fun hp => ?_).settle (TcpOp.unarmed_eventOp h.unarmed io)
      exact ⟨TcpOp.wtBuff_eventOp_of_nil (h.empty p hp) io,
        TcpOp.canWt_eventOp (h.empty p hp) (h.canWt p hp) io⟩
  | write p msg writes =>
      refine (h.setNode fun hp => ?_).withTcpOp h.unarmed
      refine ⟨?_, SocketOp.canWt_writeMsg pb _ (h.canWt p hp) msg writes⟩
      exact (SocketOp.wtBuff_writeMsg_eq_nil pb _ (h.canWt p hp) msg writes).mpr
        ⟨h.empty p hp, hc hp⟩
  | flush p writes =>
      refine (h.setNode fun hp => ?_).withTcpOp h.unarmed
      exact ⟨SocketOp.wtBuff_flush_of_nil _ (h.empty p hp) writes,
        (SocketOp.sameOutgoing_flush _ (.inl (h.empty p hp))).canWt (h.canWt p hp)⟩
  | delEpev p => exact h.withTcpOp (EpollOp.unarmed_erase h.unarmed _)
  | closeOp p => exact h.settle (EpollOp.unarmed_erase h.unarmed _)
  | closedElsewhere fd => exact h.settle (EpollOp.unarmed_erase h.unarmed fd)

/-- A message that leaves bytes behind on an open connection strands them: a write
arms nothing. -/
theorem drains_of_notStranded (h : s.Quiet) {c : Call} (hc : s.NotStranded pb c) :
    s.Drains pb c := by
  cases c with
  | write p msg writes =>
      intro hp
      by_contra hleft
      refine h.unarmed _ (hc.1 p hp ?_)
      -- the node written to is the one looked at
      have hnode : (s.step pb (.write p msg writes)).node p =
          (s.tcpOp.writeMsg pb (s.node p) msg writes).2.2.1 :=
        (node_setNode p _ p).trans (if_pos rfl)
      unfold HasPending
      rw [hnode]
      intro hempty
      exact hleft ((SocketOp.wtBuff_writeMsg_eq_nil pb _ (h.canWt p hp) msg writes).mp hempty).2
  | _ => trivial

/-- **Output is stranded as soon as any is left behind.** In every sequence of
calls, whatever the kernel answers, each open connection with pending bytes is
armed after every call, and none without pending bytes after its `event_op`, if
and only if no message written to an open connection leaves bytes behind. -/
theorem notStranded_iff_along (pb : Protobuf) (calls : List Call) :
    Along (step pb) (NotStranded pb) new calls ↔ Along (step pb) (Drains pb) new calls := by
  refine along_congr (I := Quiet) ?_ (fun s c h hc => quiet_step h hc) quiet_new calls
  intro s c h
  refine ⟨drains_of_notStranded h, ?_⟩
  intro hc
  have hquiet := quiet_step h hc
  exact ⟨fun p hp hpending => absurd (hquiet.empty p hp) hpending,
    fun p _ _ _ _ harmed => hquiet.unarmed _ harmed⟩

/-- The kernel refuses a message, and then the rest of it when the connection is
served. -/
def refused : List Call :=
  [.addEpev 5 .user, .write 0 (Output.onlineMsg 1) [], .mark 0 ⟨5, true, false⟩]

/-- Output is stranded in general: `event_op` sends what it can, and leaves a
connection with pending bytes unarmed. -/
theorem not_notStranded_refused :
    ¬ ∀ (pb : Protobuf) (calls : List Call) (c : Call),
      NotStranded pb (run (step pb) new calls) c := by
  intro h
  have harmed := (h .oneSmallInt refused (.eventOp 0 {})).1 0 (by decide) (by decide)
  revert harmed
  decide

end TcpLoop

end Rubo.Util
