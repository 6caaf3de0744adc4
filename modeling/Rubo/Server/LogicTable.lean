import Rubo.Foundation.Machine
import Rubo.Server.LogicWorker

/-!
# The User Table of a LogicWorker

- `addressed_iff_along`: every user carries the uid it is stored under, and so
  every answer goes to the uid that asked, exactly as long as no admitted
  `UserOfflineReq` has a body uid other than its header uid.
- `tracked_iff`: the table holds exactly the uids whose last presence message
  was an online one, exactly as long as nobody goes offline who was online:
  there is no path that removes an entry.
-/

namespace Rubo.Server.LogicWorker

open Rubo.Foundation Rubo.Msgs Rubo.Util

variable {w : LogicWorker} {msg : UserMsg}

/-! ## The table after one message -/

/-- Entries point to objects that exist. -/
def Allocated (w : LogicWorker) : Prop :=
  ∀ {k p}, w.users.uidUsers.find k = some p → p < w.heap.next

/-- Each entry carries the uid it is stored under. -/
def KeysAgree (w : LogicWorker) : Prop :=
  ∀ {k p}, w.users.uidUsers.find k = some p → (w.heap.obj p).uid = k

/-- What `on_user_online` does to the table: the body uid gets an entry if it is
positive and has none. -/
theorem find_onUserOnline (w : LogicWorker) (msg : UserMsg) (user : Option Ptr) (k : Int32) :
    (w.onUserOnline msg user).users.uidUsers.find k =
      if k = msg.msg.uid ∧ w.users.uidUsers.find msg.msg.uid = none ∧ 0 < msg.msg.uid
      then some w.heap.next else w.users.uidUsers.find k := by
  generalize hheap : (w.heap.alloc { uid := msg.msg.uid, connStatus := .logined }).2 = heap
  have hobj : heap.obj w.heap.next = { uid := msg.msg.uid, connStatus := .logined } := by
    rw [← hheap, Heap.obj_alloc, if_pos rfl]
  have hfind : (w.users.addUid heap w.heap.next).uidUsers.find k = _ :=
    UserManager.find_uidUsers_addUid w.heap.next k
  rw [hobj] at hfind
  rw [← hfind]
  show (w.users.addUser (w.heap.alloc _).2 w.heap.next).uidUsers.find k = _
  rw [hheap, UserManager.addUser_eq, UserManager.uidUsers_addSock]

/-- Only online messages change which uids have an entry, and entries stay. -/
theorem find_handlerOneMsg (w : LogicWorker) (msg : UserMsg) (k : Int32) :
    (w.handlerOneMsg msg).users.uidUsers.find k =
      if IsOnline msg ∧ k = msg.msg.uid ∧ w.users.uidUsers.find msg.msg.uid = none ∧
        0 < msg.msg.uid
      then some w.heap.next else w.users.uidUsers.find k := by
  rcases handlerOneMsg_cases w msg with
    ⟨hon, h⟩ | ⟨hoff, p, _, h⟩ | ⟨hdo, p, _, h⟩ | ⟨hon, _, h⟩
  · rw [h, find_onUserOnline]
    simp only [hon, true_and]
  · rw [h, if_neg fun hon => hon.1.not_offline hoff]
    rfl
  · rw [h, if_neg fun hon => hdo.not_online hon.1]
    rfl
  · rw [h, if_neg fun hon' => hon hon'.1]

/-! ## Who is answered -/

/-- A `DoSthReq` of a uid without an entry is not answered. -/
theorem replies_of_find_none (h : IsDosth msg) (hfind : w.users.uidUsers.find msg.uid = none) :
    w.replies msg = [] := by
  rw [replies, handlerOneMsg_of_find_none h.not_online hfind, List.drop_length]

/-- A `DoSthReq` of a uid with an entry gets one answer, addressed to the uid in
the user object. -/
theorem replies_of_find_some {p : Ptr} (h : IsDosth msg)
    (hfind : w.users.uidUsers.find msg.uid = some p) :
    ∃ rsp, w.replies msg = [rsp] ∧ rsp.uid = (w.heap.obj p).uid ∧
      rsp.msgId = ProtocolDefine.userDosthRsp.toInt := by
  have hout : ∃ rsp, (w.onUserDosth msg (some p)).outMsgs = w.outMsgs ++ [rsp] ∧
      rsp.uid = (w.heap.obj p).uid ∧ rsp.msgId = ProtocolDefine.userDosthRsp.toInt :=
    ⟨_, rfl, rfl, rfl⟩
  obtain ⟨rsp, hout, hrsp⟩ := hout
  refine ⟨rsp, ?_, hrsp⟩
  rw [replies, handlerOneMsg_dosth h hfind, hout, List.drop_left]

/-! ## Addressing -/

/-- Every answer to a `DoSthReq` would go to the uid in its header. -/
def RepliesAddressed (w : LogicWorker) : Prop :=
  ∀ msg, IsDosth msg → ∀ rsp ∈ w.replies msg, rsp.uid = msg.uid

theorem repliesAddressed_of_keysAgree (h : KeysAgree w) : RepliesAddressed w := by
  intro msg hdo rsp hrsp
  cases hfind : w.users.uidUsers.find msg.uid with
  | none =>
      rw [replies_of_find_none hdo hfind] at hrsp
      exact absurd hrsp List.not_mem_nil
  | some p =>
      obtain ⟨rsp', hreplies, huid, _⟩ := replies_of_find_some hdo hfind
      rw [hreplies] at hrsp
      rcases List.mem_singleton.mp hrsp with rfl
      rw [huid, h hfind]

/-- An admitted `UserOfflineReq` has the body uid of its header. -/
def OfflineAgrees (w : LogicWorker) (msg : UserMsg) : Prop :=
  IsOffline msg → w.users.uidUsers.find msg.uid ≠ none → msg.msg.uid = msg.uid

theorem allocated_handlerOneMsg (h : Allocated w) (msg : UserMsg) :
    Allocated (w.handlerOneMsg msg) := by
  intro k p hp
  rcases handlerOneMsg_cases w msg with
    ⟨_, hw⟩ | ⟨_, q, _, hw⟩ | ⟨_, q, _, hw⟩ | ⟨_, _, hw⟩ <;> rw [hw] at hp ⊢
  · rw [find_onUserOnline] at hp
    show p < w.heap.next + 1
    split_ifs at hp
    · cases hp
      exact Nat.lt_succ_self _
    · exact Nat.lt_succ_of_lt (h hp)
  · exact h hp
  · exact h hp
  · exact h hp

/-- One message keeps the keys in agreement exactly when it is no admitted
`UserOfflineReq` with another body uid. -/
theorem keysAgree_handlerOneMsg_iff (ha : Allocated w) (hk : KeysAgree w) (msg : UserMsg) :
    KeysAgree (w.handlerOneMsg msg) ↔ OfflineAgrees w msg := by
  rcases handlerOneMsg_cases w msg with
    ⟨hon, hw⟩ | ⟨hoff, q, hq, hw⟩ | ⟨hdo, q, _, hw⟩ | ⟨_, hnone, hw⟩ <;> rw [hw]
  · refine iff_of_true ?_ fun hoff => absurd hoff hon.not_offline
    intro k p hp
    rw [find_onUserOnline] at hp
    show ((w.heap.alloc _).2.obj p).uid = k
    rw [Heap.obj_alloc]
    split_ifs at hp with hnew
    · -- the new entry
      cases hp
      rw [if_pos rfl, hnew.1]
    · rw [if_neg (Nat.ne_of_lt (ha hp)), hk hp]
  · -- one object gets the body uid
    have hobj : ∀ p, ((w.onUserOffline msg (some q)).heap.obj p).uid =
        if p = q then msg.msg.uid else (w.heap.obj p).uid := by
      intro p
      show ((w.heap.set q _).obj p).uid = _
      rw [Heap.obj_set]
      split_ifs <;> rfl
    constructor
    · intro hk' _ _
      rw [← hk' hq, hobj, if_pos rfl]
    · intro hagree k p hp
      rw [hobj]
      split_ifs with hpq
      · -- the object rewritten is the one stored under the header uid
        have hne : w.users.uidUsers.find msg.uid ≠ none := by
          rw [hq]
          exact Option.some_ne_none q
        rw [hagree hoff hne, ← hk hq, ← hpq]
        exact hk hp
      · exact hk hp
  · exact iff_of_true hk fun hoff => absurd hoff hdo.not_offline
  · exact iff_of_true hk fun hoff hne => absurd (hnone (.inl hoff)) hne

/-- **Answers go to the uid that asked, exactly while offline messages agree with
themselves**: in every run the table's keys agree with its users and every answer
is addressed to the header uid of its request, if and only if every admitted
`UserOfflineReq` of the run carries its header uid in its body. -/
theorem addressed_iff_along (name : List UInt8) (msgs : List UserMsg) :
    (∀ js, js <+: msgs → KeysAgree (run handlerOneMsg (new name) js) ∧
      RepliesAddressed (run handlerOneMsg (new name) js)) ↔
    Along handlerOneMsg OfflineAgrees (new name) msgs := by
  have hstep : ∀ w msg, Allocated w ∧ KeysAgree w →
      ((Allocated (handlerOneMsg w msg) ∧ KeysAgree (handlerOneMsg w msg)) ↔
        OfflineAgrees w msg) := by
    rintro w msg ⟨ha, hk⟩
    rw [keysAgree_handlerOneMsg_iff ha hk]
    exact and_iff_right (allocated_handlerOneMsg ha msg)
  have hnew : Allocated (new name) ∧ KeysAgree (new name) := ⟨nofun, nofun⟩
  rw [← always_iff_along hstep hnew msgs]
  -- objects exist in every run, agreement or not
  have halloc : ∀ js, Allocated (run handlerOneMsg (new name) js) :=
    run_invariant (I := Allocated) (fun _ msg ha => allocated_handlerOneMsg ha msg) hnew.1
  constructor
  · intro h js hjs
    exact ⟨halloc js, (h js hjs).1⟩
  · intro h js hjs
    exact ⟨(h js hjs).2, repliesAddressed_of_keysAgree (h js hjs).2⟩

/-- A presence message with these header and body uids. -/
def presence (id : ProtocolDefine) (t : MsgType) (header body : Int32) : UserMsg :=
  { uid := header, msgId := id.toInt, msg := (Message.new t).setUid body }

/-- Not every answer goes to the uid that asked: after an offline message in the
name of uid 1 about uid 2, the answer to a request of uid 1 is addressed to 2. -/
theorem not_addressed_foreignOffline :
    ¬ ∀ (name : List UInt8) (msgs : List UserMsg),
      KeysAgree (run handlerOneMsg (new name) msgs) ∧
        RepliesAddressed (run handlerOneMsg (new name) msgs) := by
  intro h
  rcases h [] [presence .userOnlineReq .userOnlineReq 1 1,
    presence .userOfflineReq .userOfflineReq 1 2] with ⟨hkeys, hreplies⟩
  have hreq := hreplies { uid := 1, msgId := 9, msg := Message.new .doSthReq } rfl
  revert hreq
  decide

/-! ## Presence -/

/-- The two presence messages. -/
inductive Presence where
  | online
  | offline
  deriving DecidableEq, Repr

/-- What a message says about the uid `u`, if anything. -/
def presenceOf (u : Int32) (msg : UserMsg) : Option Presence :=
  if msg.uid ≠ u then none
  else if IsOnline msg then some .online
  else if IsOffline msg then some .offline
  else none

/-- The most recent presence message about `u`. -/
def lastPresence (u : Int32) (msgs : List UserMsg) : Option Presence :=
  msgs.foldl (fun last msg => (presenceOf u msg).or last) none

theorem lastPresence_concat (u : Int32) (msgs : List UserMsg) (msg : UserMsg) :
    lastPresence u (msgs ++ [msg]) = (presenceOf u msg).or (lastPresence u msgs) := by
  rw [lastPresence, List.foldl_concat]
  rfl

/-- `u` is in the table, so that its requests are answered. -/
def InTable (w : LogicWorker) (u : Int32) : Prop := w.users.getUserByUid u ≠ none

instance (w : LogicWorker) (u : Int32) : Decidable (InTable w u) :=
  inferInstanceAs (Decidable (_ ≠ _))

/-- Header and body of presence messages agree on a positive uid. -/
def Consistent (msgs : List UserMsg) : Prop :=
  ∀ msg ∈ msgs, IsOnline msg ∨ IsOffline msg → msg.msg.uid = msg.uid ∧ 0 < msg.uid

instance : DecidablePred Consistent := fun _ => inferInstanceAs (Decidable (∀ _ ∈ _, _))

/-- No offline message about a uid comes after an online message about it. -/
def NoOfflineAfterOnline (msgs : List UserMsg) : Prop :=
  ∀ js msg, js ++ [msg] <+: msgs → IsOffline msg → ∀ n ∈ js, IsOnline n → n.uid ≠ msg.uid

/-- Being in the table is being answered. -/
theorem inTable_iff_replies (w : LogicWorker) (msg : UserMsg) (h : IsDosth msg) :
    InTable w msg.uid ↔ w.replies msg ≠ [] := by
  unfold InTable UserManager.getUserByUid
  cases hfind : w.users.uidUsers.find msg.uid with
  | none =>
      rw [replies_of_find_none h hfind]
      exact iff_of_false (fun hne => hne rfl) fun hne => hne rfl
  | some p =>
      obtain ⟨rsp, hrsp, _⟩ := replies_of_find_some h hfind
      rw [hrsp]
      exact iff_of_true (Option.some_ne_none p) (List.cons_ne_nil _ _)

/-- An online message puts its uid into the table; no message takes one out. -/
theorem inTable_handlerOneMsg_iff (hmsg : IsOnline msg → msg.msg.uid = msg.uid ∧ 0 < msg.uid)
    (u : Int32) :
    InTable (w.handlerOneMsg msg) u ↔ InTable w u ∨ IsOnline msg ∧ msg.uid = u := by
  unfold InTable UserManager.getUserByUid
  rw [find_handlerOneMsg]
  constructor
  · intro h
    split_ifs at h with hnew
    · exact .inr ⟨hnew.1, by rw [hnew.2.1, (hmsg hnew.1).1]⟩
    · exact .inl h
  · rintro (h | ⟨hon, hu⟩)
    · split_ifs
      · exact Option.some_ne_none _
      · exact h
    · -- already there, or put there now
      obtain ⟨hbody, hpos⟩ := hmsg hon
      rw [hbody, hu] at *
      cases hfind : w.users.uidUsers.find u with
      | none =>
          rw [if_pos ⟨hon, rfl, rfl, hpos⟩]
          exact Option.some_ne_none _
      | some p =>
          split_ifs <;> exact Option.some_ne_none _

/-- The table holds the uids that were ever online. -/
theorem inTable_run_iff (name : List UInt8) {msgs : List UserMsg} (h : Consistent msgs)
    (u : Int32) :
    InTable (run handlerOneMsg (new name) msgs) u ↔ ∃ n ∈ msgs, IsOnline n ∧ n.uid = u := by
  induction msgs using List.reverseRecOn with
  | nil => exact iff_of_false (fun hne => hne rfl) fun ⟨n, hn, _⟩ => absurd hn List.not_mem_nil
  | append_singleton msgs msg ih =>
      -- the last message of the run
      have hmsg := h msg (List.mem_append_right _ (List.mem_singleton.mpr rfl))
      rw [run_concat, inTable_handlerOneMsg_iff (fun hon => hmsg (.inl hon)),
        ih fun n hn => h n (List.mem_append_left _ hn)]
      constructor
      · rintro (⟨n, hn, hon⟩ | hon)
        · exact ⟨n, List.mem_append_left _ hn, hon⟩
        · exact ⟨msg, List.mem_append_right _ (List.mem_singleton.mpr rfl), hon⟩
      · rintro ⟨n, hn, hon⟩
        rcases List.mem_append.mp hn with hn | hn
        · exact .inl ⟨n, hn, hon⟩
        · rcases List.mem_singleton.mp hn with rfl
          exact .inr hon

/-- Without an offline message after an online one, the last presence message is
an online one as soon as there is one. -/
theorem lastPresence_eq_online_iff {msgs : List UserMsg} (h : NoOfflineAfterOnline msgs)
    (u : Int32) : lastPresence u msgs = some .online ↔ ∃ n ∈ msgs, IsOnline n ∧ n.uid = u := by
  induction msgs using List.reverseRecOn with
  | nil => exact iff_of_false nofun fun ⟨n, hn, _⟩ => absurd hn List.not_mem_nil
  | append_singleton msgs msg ih =>
      have ih := ih fun js m hjs => h js m (hjs.trans (List.prefix_append _ _))
      -- the last message of the list
      have hlast := h msgs msg (List.prefix_refl _)
      have hmem : msg ∈ msgs ++ [msg] := List.mem_append_right _ (List.mem_singleton.mpr rfl)
      have hcons : (∃ n ∈ msgs ++ [msg], IsOnline n ∧ n.uid = u) ↔
          (∃ n ∈ msgs, IsOnline n ∧ n.uid = u) ∨ IsOnline msg ∧ msg.uid = u := by
        simp only [List.mem_append, List.mem_singleton, or_and_right, exists_or, exists_eq_left]
      rw [lastPresence_concat, hcons, ← ih]
      unfold presenceOf
      split_ifs with hne hon hoff
      · -- about somebody else
        simp only [Option.none_or, hne, and_false, or_false]
      · -- an online message
        exact iff_of_true rfl (.inr ⟨hon, not_not.mp hne⟩)
      · -- an offline message: there was no online one before
        refine iff_of_false nofun ?_
        rintro (hbefore | hon')
        · obtain ⟨n, hn, hon', hu⟩ := ih.mp hbefore
          exact hlast hoff n hn hon' (hu.trans (not_not.mp hne).symm)
        · exact hon hon'.1
      · simp only [Option.none_or, hon, false_and, or_false]

/-- **The table tracks presence exactly as long as nobody leaves**: for messages
whose header and body agree on a positive uid, after every prefix a uid is in the
table, and so is answered, iff its last presence message was an online one, if and
only if no offline message comes after an online message about the same uid. -/
theorem tracked_iff (name : List UInt8) (msgs : List UserMsg) (hmsgs : Consistent msgs) :
    (∀ js, js <+: msgs → ∀ u,
      (InTable (run handlerOneMsg (new name) js) u ↔ lastPresence u js = some .online) ∧
      (∀ req, IsDosth req → req.uid = u →
        ((run handlerOneMsg (new name) js).replies req ≠ [] ↔
          lastPresence u js = some .online))) ↔
    NoOfflineAfterOnline msgs := by
  have hsub : ∀ {js}, js <+: msgs → Consistent js := fun hjs m hm => hmsgs m (hjs.subset hm)
  constructor
  · intro h js msg hjs hoff n hn hon hu
    -- after `msg` the uid is still in the table, but was last seen leaving
    have htable := (inTable_run_iff name (hsub hjs) msg.uid).mpr
      ⟨n, List.mem_append_left _ hn, hon, hu⟩
    have hlast := (h _ hjs msg.uid).1.mp htable
    have hnot : ¬ IsOnline msg := fun hon' => hon'.not_offline hoff
    have hself : ¬ msg.uid ≠ msg.uid := not_not.mpr rfl
    rw [lastPresence_concat, presenceOf, if_neg hself, if_neg hnot, if_pos hoff] at hlast
    cases hlast
  · intro h js hjs u
    have horder : NoOfflineAfterOnline js := fun ks m hks => h ks m (hks.trans hjs)
    have htable : InTable (run handlerOneMsg (new name) js) u ↔
        lastPresence u js = some .online := by
      rw [inTable_run_iff name (hsub hjs), lastPresence_eq_online_iff horder]
    refine ⟨htable, ?_⟩
    rintro req hreq rfl
    rw [← inTable_iff_replies _ req hreq, htable]

/-- Two users who come online and stay. -/
def twoOnline : List UserMsg :=
  [presence .userOnlineReq .userOnlineReq 1 1, presence .userOnlineReq .userOnlineReq 2 2]

/-- After `twoOnline`, uid 2 is tracked. -/
theorem tracked_twoOnline :
    InTable (run handlerOneMsg (new []) twoOnline) 2 ↔ lastPresence 2 twoOnline = some .online := by
  have hnone : ∀ m ∈ twoOnline, ¬ IsOffline m := by decide
  have horder : NoOfflineAfterOnline twoOnline := by
    intro js msg hjs hoff
    have hmem : msg ∈ twoOnline :=
      hjs.subset (List.mem_append_right _ (List.mem_singleton.mpr rfl))
    exact absurd hoff (hnone msg hmem)
  exact ((tracked_iff [] twoOnline (by decide)).mpr horder twoOnline (List.prefix_refl _) 2).1

/-- The table does not track presence in general: nobody who was online leaves. -/
theorem not_tracked_offline :
    ¬ ∀ (name : List UInt8) (msgs : List UserMsg), Consistent msgs → ∀ u,
      (InTable (run handlerOneMsg (new name) msgs) u ↔ lastPresence u msgs = some .online) := by
  intro h
  have hiff := h [] [presence .userOnlineReq .userOnlineReq 1 1,
    presence .userOfflineReq .userOfflineReq 1 1] (by decide) 1
  revert hiff
  decide

end Rubo.Server.LogicWorker
