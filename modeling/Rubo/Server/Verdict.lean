import Rubo.Msgs.Leftover
import Rubo.Server.GateIO

/-!
# What GateIO Decides About a Connection That Has Not Logged In

`handler_unlogin_msgs` parses a connection and decides by what came out: it
waits when there is no message, kicks the connection out when there is more than
one request, and otherwise calls a handler. `verdict` is this decision;
`verdict_cases` tells it from the bytes in the read buffer.
-/

namespace Rubo.Server

open Rubo.Foundation Rubo.Msgs Rubo.Util

/-- No handler changes a socket node. -/
theorem Gate.getMsgHandler_keeps {msgId : Int32} {f : MsgFunc} (h : getMsgHandler msgId = some f)
    (db : MysqlDb) (pmsg : UserMsg) (user : Ptr) (heap : Heap User) (rspMsgs : List UserMsg) :
    (∀ p, ((f db pmsg user (heap, rspMsgs)).1.obj p).node = (heap.obj p).node) ∧
      (f db pmsg user (heap, rspMsgs)).1.next = heap.next := by
  rcases getMsgHandler_cases h with ⟨_, rfl⟩ | hother
  · -- a login sets the uid of the user
    refine ⟨fun p => ?_, rfl⟩
    simp only [onUserLogin, Heap.obj_set]
    split_ifs with hp
    · rw [hp]
      rfl
    · rfl
  · obtain ⟨hheap, _⟩ := hother db pmsg user heap rspMsgs
    simp [hheap]

namespace GateIO

/-- The decision about one connection. -/
inductive Verdict where
  | wait
  | kick
  | handle (msg : UserMsg) (msgFunc : MsgFunc)

def Verdict.isKick : Verdict → Bool
  | .kick => true
  | _ => false

/-- The requests a connection may start with. -/
def IsRequest (msgId : Int32) : Prop :=
  msgId = ProtocolDefine.systemVerifyReq.toInt ∨ msgId = ProtocolDefine.userLoginReq.toInt ∨
    msgId = ProtocolDefine.userRegisterReq.toInt

instance (msgId : Int32) : Decidable (IsRequest msgId) := inferInstanceAs (Decidable (_ ∨ _))

/-- The decision, by the messages parsed and the bytes left. -/
def verdict (msgs : List UserMsg) (left : ℕ) : Verdict :=
  match msgs with
  | [] => .wait
  | _ :: _ :: _ => .kick
  | [msg] =>
    if left ≠ 0 then .kick
    else if ¬ IsRequest msg.msgId then .kick
    else
      match Gate.getMsgHandler msg.msgId with
      | none => .kick
      | some msgFunc => .handle msg msgFunc

/-- What a decision does. -/
def apply (s : GateIO × List MysqlDb) (user : Ptr) : Verdict → GateIO × List MysqlDb
  | .wait => s
  | .kick => (s.1.kickOut user, s.2)
  | .handle msg msgFunc =>
    let (heap, rspMsgs) := msgFunc (s.2.headD {}) msg user (s.1.heap, s.1.rspMsgs)
    ({ s.1 with heap := heap, rspMsgs := rspMsgs }, s.2.tail)

/-- `handler_unlogin_msgs` does what the verdict says. -/
theorem takeUnlogin_eq (s : GateIO × List MysqlDb) (user : Ptr) (msgs : List UserMsg) :
    takeUnlogin s user msgs = apply s user (verdict msgs (s.1.node user).rdBuff.dataSize) := by
  obtain ⟨g, dbs⟩ := s
  unfold takeUnlogin verdict
  cases msgs with
  | nil => rfl
  | cons msg msgs =>
      cases msgs with
      | cons _ _ => rfl
      | nil =>
          simp only [IsRequest, not_or]
          split_ifs
          · rfl
          · rfl
          · cases Gate.getMsgHandler msg.msgId <;> rfl

/-- Every request has a handler. -/
theorem IsRequest.getMsgHandler {msgId : Int32} (h : IsRequest msgId) :
    ∃ f, Gate.getMsgHandler msgId = some f := by
  rcases h with rfl | rfl | rfl
  · exact ⟨Gate.onSystemVerify, rfl⟩
  · exact ⟨Gate.onUserLogin, rfl⟩
  · exact ⟨Gate.onUserRegister, rfl⟩

/-- A verdict to call a handler names the handler of the message. -/
theorem verdict_handle {msgs : List UserMsg} {left : ℕ} {msg : UserMsg} {msgFunc : MsgFunc}
    (h : verdict msgs left = .handle msg msgFunc) :
    Gate.getMsgHandler msg.msgId = some msgFunc := by
  unfold verdict at h
  split at h
  · cases h
  · cases h
  · split_ifs at h
    split at h
    · cases h
    · next hfunc =>
      cases h
      exact hfunc

/-! ## The decision, told from the bytes -/

/-- The buffer starts with a complete frame that is accepted. -/
def StartsAccepted (xs : List UInt8) : Prop :=
  ∃ (f : Frame) (r : List UInt8), f.Accepted ∧ xs = f.encode ++ r

/-- One request and nothing that would be kept behind it; only a frame with an
unregistered id may follow. -/
def OneRequest (xs : List UInt8) : Prop :=
  ∃ (f : Frame) (tail : List Frame), MsgCenter.taken xs = (f :: tail, []) ∧ IsRequest f.msgId ∧
    (tail = [] ∨ ∃ g, tail = [g] ∧ MsgCenter.registered g.msgId = false)

theorem startsAccepted_iff {xs r : List UInt8} {f : Frame} (h : frameNext xs = some (f, r)) :
    StartsAccepted xs ↔ MsgCenter.registered f.msgId = true := by
  obtain ⟨hf, hxs⟩ := frameNext_eq_some.mp h
  constructor
  · rintro ⟨f', r', ⟨hf', hreg⟩, rfl⟩
    rw [frameNext_encode hf'] at h
    cases h
    exact hreg
  · intro hreg
    exact ⟨f, r, ⟨hf, hreg⟩, hxs⟩

/-- A buffer that is one request starts with it. -/
theorem OneRequest.frameNext {xs : List UInt8} (h : OneRequest xs) :
    ∃ v r, frameNext xs = some (v, r) ∧ IsRequest v.msgId := by
  obtain ⟨v, tail, htaken, hreq, _⟩ := h
  obtain ⟨hcat, hwell, _⟩ := MsgCenter.taken_spec xs
  rw [htaken] at hcat hwell
  refine ⟨v, tail.flatMap Frame.encode ++ [], ?_, hreq⟩
  rw [hcat]
  exact frameNext_flatMap (hwell v (List.mem_cons_self ..)) tail []

theorem OneRequest.startsAccepted {xs : List UInt8} (h : OneRequest xs) : StartsAccepted xs := by
  obtain ⟨v, r, hnext, hreq⟩ := h.frameNext
  refine (startsAccepted_iff hnext).mpr ?_
  rcases hreq with hid | hid | hid
  · rw [hid]
    rfl
  · rw [hid]
    rfl
  · rw [hid]
    rfl

/-- Nothing registered in front: the call takes at most one more frame. -/
theorem taken_of_takeWhile_nil {xs : List UInt8}
    (h : (MsgCenter.taken xs).1.takeWhile (fun f => MsgCenter.registered f.msgId) = []) :
    (MsgCenter.taken xs).1 = [] ∨
      ∃ g, (MsgCenter.taken xs).1 = [g] ∧ MsgCenter.registered g.msgId = false := by
  obtain ⟨_, _, hreg⟩ := MsgCenter.taken_spec xs
  cases hfs : (MsgCenter.taken xs).1 with
  | nil => exact .inl rfl
  | cons g gs =>
      rw [hfs] at h hreg
      have hg : MsgCenter.registered g.msgId = false := by
        by_contra hg
        simp [hg] at h
      cases gs with
      | nil => exact .inr ⟨g, rfl, hg⟩
      | cons g' gs =>
          -- only the last frame taken can be unregistered
          have hfirst := hreg g (by simp)
          rw [hg] at hfirst
          cases hfirst

variable {rt : Runtime}

/-- **What decides**: without an accepted frame in front the connection waits; a
single request is handled; everything else is kicked out. -/
theorem verdict_cases {user : Ptr} {sfd : Int32} {msgs : List UserMsg} {xs : List UInt8}
    (h : List.Forall₂ (MsgCenter.IsEnvelope rt user sfd) msgs
      ((MsgCenter.taken xs).1.takeWhile fun f => MsgCenter.registered f.msgId)) :
    (verdict msgs (MsgCenter.taken xs).2.length = .wait ∧ ¬ StartsAccepted xs) ∨
      (verdict msgs (MsgCenter.taken xs).2.length = .kick ∧ StartsAccepted xs ∧
        ¬ OneRequest xs) ∨
      ∃ msg msgFunc, verdict msgs (MsgCenter.taken xs).2.length = .handle msg msgFunc ∧
        OneRequest xs := by
  cases hnext : frameNext xs with
  | none =>
      rw [MsgCenter.taken_of_none hnext] at h ⊢
      cases h
      refine .inl ⟨rfl, ?_⟩
      rintro ⟨f, r, ⟨hf, _⟩, rfl⟩
      rw [frameNext_encode hf] at hnext
      cases hnext
  | some p =>
      obtain ⟨f, r⟩ := p
      cases htype : MsgCenter.typeOf f.msgId with
      | none =>
          -- the frame is dropped, and nothing behind it is looked at
          have hreg : MsgCenter.registered f.msgId = false := by simp [MsgCenter.registered, htype]
          rw [MsgCenter.taken_of_unregistered hnext htype] at h ⊢
          simp only [List.takeWhile_cons, hreg] at h
          cases h
          exact .inl ⟨rfl, by simp [startsAccepted_iff hnext, hreg]⟩
      | some t =>
          have hreg : MsgCenter.registered f.msgId = true := MsgCenter.registered_iff.mpr ⟨t, htype⟩
          have htaken := MsgCenter.taken_of_registered hnext htype
          have hstart : StartsAccepted xs := (startsAccepted_iff hnext).mpr hreg
          simp only [htaken, List.takeWhile_cons, hreg, if_true] at h ⊢
          cases h with
          | @cons msg _ msgs _ henv hrest =>
              cases hrest' : (MsgCenter.taken r).1.takeWhile fun f => MsgCenter.registered f.msgId with
              | cons g gs =>
                  -- a second message
                  rw [hrest'] at hrest
                  cases hrest
                  refine .inr (.inl ⟨rfl, hstart, ?_⟩)
                  rintro ⟨f', tail, htail, _, hone⟩
                  rw [htaken] at htail
                  simp only [Prod.mk.injEq, List.cons.injEq] at htail
                  rw [htail.1.2] at hrest'
                  rcases hone with rfl | ⟨g', rfl, hg'⟩
                  · cases hrest'
                  · simp [hg'] at hrest'
              | nil =>
                  -- the only message
                  rw [hrest'] at hrest
                  cases hrest
                  have hid : msg.msgId = f.msgId := by
                    obtain ⟨_, _, _, rfl⟩ := henv
                    rfl
                  have htail := taken_of_takeWhile_nil hrest'
                  by_cases hone : IsRequest f.msgId ∧ (MsgCenter.taken r).2 = []
                  · obtain ⟨hreq, hnil⟩ := hone
                    obtain ⟨msgFunc, hfunc⟩ := hreq.getMsgHandler
                    refine .inr (.inr ⟨msg, msgFunc, ?_, ?_⟩)
                    · simp [verdict, hnil, hid, hreq, hfunc]
                    · exact ⟨f, (MsgCenter.taken r).1, by rw [htaken, hnil], hreq, htail⟩
                  · refine .inr (.inl ⟨?_, hstart, ?_⟩)
                    · by_cases hnil : (MsgCenter.taken r).2 = []
                      · have hreq : ¬ IsRequest f.msgId := fun hreq => hone ⟨hreq, hnil⟩
                        simp [verdict, hnil, hid, hreq]
                      · simp [verdict, hnil]
                    · rintro ⟨f', tail, htail', hreq, _⟩
                      rw [htaken] at htail'
                      simp only [Prod.mk.injEq, List.cons.injEq] at htail'
                      rw [← htail'.1.1] at hreq
                      exact hone ⟨hreq, htail'.2⟩

/-! ## Carrying out a decision -/

variable (rt)

/-- The decision `handler_unlogin_msgs` takes about a user. -/
def verdictOn (g : GateIO) (user : Ptr) : Verdict :=
  let (msgs, _, sock) := g.msgCenter.parsePackage rt user (g.node user)
  verdict msgs sock.rdBuff.dataSize

/-- What `parse_package` does to a state: frames leave one read buffer. -/
structure Parsed (g g' : GateIO) (user : Ptr) : Prop where
  node : ∃ buff, g'.node user = { g.node user with rdBuff := buff } ∧
    buff.toList = (MsgCenter.taken (g.node user).rdBuff.toList).2
  kept : ∀ p, p ≠ user → g'.node p = g.node p
  next : g'.heap.next = g.heap.next
  fields : g' = { g with heap := g'.heap, msgCenter := g'.msgCenter }

/-- One user of `handler_unlogin_msgs`: the state after parsing, then what the
verdict does to it. -/
theorem parseUnlogin_eq (s : GateIO × List MysqlDb) (user : Ptr) :
    ∃ g', Parsed s.1 g' user ∧
      parseUnlogin rt s user = apply (g', s.2) user (verdictOn rt s.1 user) := by
  obtain ⟨g, dbs⟩ := s
  obtain ⟨buff, hbuff, hparse⟩ := MsgCenter.parsePackage_eq rt user g.msgCenter (g.node user)
  have hnode : ∀ p, (g.setNode user { g.node user with rdBuff := buff }).node p =
      if p = user then { g.node user with rdBuff := buff } else g.node p :=
    fun p => node_set_sock g.heap user _ p
  refine ⟨{ g.setNode user { g.node user with rdBuff := buff } with
      msgCenter := (MsgCenter.taken (g.node user).rdBuff.toList).1.foldl
        (MsgCenter.afterFrame rt) g.msgCenter }, ⟨⟨buff, ?_, hbuff⟩, ?_, rfl, rfl⟩, ?_⟩
  · exact (hnode user).trans (if_pos rfl)
  · intro p hp
    exact (hnode p).trans (if_neg hp)
  · have hleft : ((g.setNode user { g.node user with rdBuff := buff }).node user).rdBuff = buff :=
      congrArg SocketNode.rdBuff ((hnode user).trans (if_pos rfl))
    simp only [parseUnlogin, verdictOn, hparse, takeUnlogin_eq]
    congr 2
    exact congrArg RingBuffPtr.dataSize hleft

variable {rt} in
theorem verdictOn_handle {g : GateIO} {user : Ptr} {msg : UserMsg} {msgFunc : MsgFunc}
    (h : verdictOn rt g user = .handle msg msgFunc) : Gate.getMsgHandler msg.msgId = some msgFunc :=
  verdict_handle h

/-- **What decides**, for a user. -/
theorem verdictOn_cases (g : GateIO) (user : Ptr) :
    (verdictOn rt g user = .wait ∧ ¬ StartsAccepted (g.node user).rdBuff.toList) ∨
      (verdictOn rt g user = .kick ∧ StartsAccepted (g.node user).rdBuff.toList ∧
        ¬ OneRequest (g.node user).rdBuff.toList) ∨
      ∃ msg msgFunc, verdictOn rt g user = .handle msg msgFunc ∧
        OneRequest (g.node user).rdBuff.toList := by
  obtain ⟨buff, hbuff, hparse⟩ := MsgCenter.parsePackage_eq rt user g.msgCenter (g.node user)
  have hcases := verdict_cases (MsgCenter.envelopes_forall₂ rt user (g.node user).sfd g.msgCenter
    (MsgCenter.taken (g.node user).rdBuff.toList).1)
  have hon : verdictOn rt g user = verdict (MsgCenter.envelopes rt user (g.node user).sfd
      g.msgCenter (MsgCenter.taken (g.node user).rdBuff.toList).1)
      (MsgCenter.taken (g.node user).rdBuff.toList).2.length := by
    simp only [verdictOn, hparse, RingBuffPtr.dataSize_eq, hbuff]
  rwa [← hon] at hcases

/-- A decision touches no socket node: it may close a descriptor, erase the table
entry stored under it, change a uid and queue a reply. -/
theorem apply_spec {g : GateIO} (dbs : List MysqlDb) (user : Ptr) {v : Verdict}
    (hv : ∀ msg msgFunc, v = .handle msg msgFunc → Gate.getMsgHandler msg.msgId = some msgFunc) :
    (∀ p, (apply (g, dbs) user v).1.node p = g.node p) ∧
      (apply (g, dbs) user v).1.heap.next = g.heap.next ∧
      (apply (g, dbs) user v).1 = { g with
        tcpOp := if v.isKick then g.tcpOp.closeOp (g.node user).sfd else g.tcpOp
        unloginUsers := if v.isKick then g.unloginUsers.erase (g.node user).sfd else g.unloginUsers
        heap := (apply (g, dbs) user v).1.heap
        rspMsgs := (apply (g, dbs) user v).1.rspMsgs } := by
  cases v with
  | wait => exact ⟨fun _ => rfl, rfl, rfl⟩
  | kick => exact ⟨fun _ => rfl, rfl, rfl⟩
  | handle msg msgFunc =>
      obtain ⟨hnode, hnext⟩ := Gate.getMsgHandler_keeps (hv msg msgFunc rfl) (dbs.headD {}) msg user
        g.heap g.rspMsgs
      exact ⟨hnode, hnext, by simp [apply, Verdict.isKick]⟩

end GateIO

end Rubo.Server
