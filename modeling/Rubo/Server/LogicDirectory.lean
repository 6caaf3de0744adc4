import Mathlib.Data.List.Forall2
import Rubo.Server.DosthReply
import Rubo.Server.LogicTable

/-!
# A LogicWorker as a Directory

Seen from outside, a worker of Logic is a directory: it knows for some uids where
the answers to their requests go, and it numbers its answers. User objects,
pointers and the two tables of `UserManager` are how it keeps the directory.

- `directory_refined`: a worker answers what the directory answers, and knows
  what the directory knows, whatever messages it is given.
- `replies_run`: whether a request is answered, to whom and under which number,
  read off the messages handled before it.
-/

namespace Rubo.Server

open Rubo.Foundation Rubo.Msgs Rubo.Util

/-- Where the answers to a uid go, and the number of the next answer. -/
structure Directory where
  address : Int32 → Option Int32
  next : Int32

namespace Directory

/-- What a worker can be asked to do. -/
inductive Request where
  /-- A uid becomes known, and is its own address. -/
  | online (uid : Int32)
  /-- A known uid gets another address. -/
  | offline (uid address : Int32)
  /-- A known uid asks for an answer. -/
  | dosth (uid : Int32) (text : List UInt8)
  deriving DecidableEq, Repr

/-- An answer. -/
structure Answer where
  address : Int32
  number : Int32
  text : List UInt8
  deriving DecidableEq, Repr

def new : Directory := ⟨fun _ => none, 100⟩

def step (d : Directory) : Request → Directory
  | .online uid =>
      if d.address uid = none ∧ 0 < uid then
        { d with address := Function.update d.address uid (some uid) }
      else d
  | .offline uid address =>
      if d.address uid = none then d
      else { d with address := Function.update d.address uid (some address) }
  | .dosth uid _ => if d.address uid = none then d else { d with next := d.next + 1 }

/-- The answers to a request: at most one. -/
def answer (d : Directory) : Request → List Answer
  | .dosth uid text => (d.address uid).toList.map fun address => ⟨address, d.next, text⟩
  | _ => []

/-- The answers to all requests. -/
def answers (rs : List Request) : List Answer := logOf step answer new rs

/-! ## What a directory remembers -/

/-- The address the last `offline` request of `uid` gives it, if there is one. -/
def lastAddress (uid : Int32) (rs : List Request) : Option Int32 :=
  rs.foldl (fun last r =>
    match r with
    | .offline u address => if u = uid then some address else last
    | _ => last) none

theorem lastAddress_concat (uid : Int32) (rs : List Request) (r : Request) :
    lastAddress uid (rs ++ [r]) = match r with
      | .offline u address => if u = uid then some address else lastAddress uid rs
      | _ => lastAddress uid rs := by
  rw [lastAddress, List.foldl_concat]
  rfl

/-- A uid that is known stays known. -/
theorem address_step_of_some {d : Directory} {uid v : Int32} (h : d.address uid = some v)
    (r : Request) : (d.step r).address uid = match r with
      | .offline u address => if u = uid then some address else some v
      | _ => some v := by
  cases r with
  | online u =>
      simp only [step]
      split_ifs with hnew
      · have hne : uid ≠ u := by
          rintro rfl
          rw [hnew.1] at h
          cases h
        simpa [Function.update_of_ne hne] using h
      · exact h
  | offline u address =>
      simp only [step]
      split_ifs with hnone hu hu
      · rw [hu, h] at hnone
        cases hnone
      · exact h
      · simp [hu]
      · have hne : uid ≠ u := fun he => hu he.symm
        simpa [Function.update_of_ne hne] using h
  | dosth u text =>
      simp only [step]
      split_ifs
      · exact h
      · exact h

/-- A uid that is not known becomes known by an `online` request only. -/
theorem address_step_of_none {d : Directory} {uid : Int32} (h : d.address uid = none)
    (r : Request) :
    (d.step r).address uid = if r = .online uid ∧ 0 < uid then some uid else none := by
  cases r with
  | online u =>
      simp only [step, Request.online.injEq]
      by_cases hu : u = uid
      · subst hu
        by_cases hpos : 0 < u
        · simp [h, hpos]
        · simp [h, hpos]
      · have hne : uid ≠ u := fun he => hu he.symm
        simp only [hu, false_and, if_false]
        split_ifs
        · simpa [Function.update_of_ne hne] using h
        · exact h
  | offline u address =>
      simp only [step, reduceCtorEq, false_and, if_false]
      split_ifs with hnone
      · exact h
      · have hne : uid ≠ u := by
          rintro rfl
          exact hnone h
        simpa [Function.update_of_ne hne] using h
  | dosth u text =>
      simp only [step, reduceCtorEq, false_and, if_false]
      split_ifs
      · exact h
      · exact h

theorem address_run_of_some {d : Directory} {uid v : Int32} (h : d.address uid = some v)
    (rs : List Request) :
    (run step d rs).address uid = some ((lastAddress uid rs).getD v) := by
  induction rs using List.reverseRecOn with
  | nil => exact h
  | append_singleton rs r ih =>
      rw [run_concat, address_step_of_some ih, lastAddress_concat]
      cases r with
      | online u => rfl
      | dosth u text => rfl
      | offline u address =>
          simp only
          split_ifs <;> rfl

theorem address_run_of_none {d : Directory} {uid : Int32} (h : d.address uid = none)
    {rs : List Request} (hrs : ¬ (Request.online uid ∈ rs ∧ 0 < uid)) :
    (run step d rs).address uid = none := by
  induction rs using List.reverseRecOn with
  | nil => exact h
  | append_singleton rs r ih =>
      have hbefore : ¬ (Request.online uid ∈ rs ∧ 0 < uid) := fun hmem =>
        hrs ⟨List.mem_append_left _ hmem.1, hmem.2⟩
      have hlast : ¬ (r = .online uid ∧ 0 < uid) := by
        rintro ⟨rfl, hpos⟩
        exact hrs ⟨List.mem_append_right _ (List.mem_singleton.mpr rfl), hpos⟩
      rw [run_concat, address_step_of_none (ih hbefore), if_neg hlast]

/-- From the first `online` request on, the address is the one last given. -/
theorem address_run_new {uid : Int32} (hpos : 0 < uid) {pre post : List Request}
    (hfirst : Request.online uid ∉ pre) :
    (run step new (pre ++ .online uid :: post)).address uid =
      some ((lastAddress uid post).getD uid) := by
  have hnone : (run step new pre).address uid = none :=
    address_run_of_none rfl fun hmem => hfirst hmem.1
  have hknown : ((run step new pre).step (.online uid)).address uid = some uid := by
    rw [address_step_of_none hnone, if_pos ⟨rfl, hpos⟩]
  rw [run_append, run_cons]
  exact address_run_of_some hknown post

/-! ## Numbers -/

theorem next_step (d : Directory) (r : Request) :
    (d.step r).next = d.next + Int32.ofNat (d.answer r).length := by
  cases r with
  | online u =>
      simp only [step]
      split_ifs <;> simp [answer]
  | offline u address =>
      simp only [step]
      split_ifs <;> simp [answer]
  | dosth u text =>
      cases h : d.address u with
      | none => simp [step, answer, h]
      | some v => simp [step, answer, h]

theorem next_run (d : Directory) (rs : List Request) :
    (run step d rs).next = d.next + Int32.ofNat (logOf step answer d rs).length := by
  induction rs using List.reverseRecOn with
  | nil => simp
  | append_singleton rs r ih =>
      rw [run_concat, logOf_concat, next_step, ih, List.length_append, Int32.ofNat_add,
        Int32.add_assoc]

/-- Answers are numbered from 100 on, without gaps. -/
theorem map_number_answers (rs : List Request) :
    (answers rs).map Answer.number =
      (List.range (answers rs).length).map fun i => 100 + Int32.ofNat i := by
  unfold answers
  induction rs using List.reverseRecOn with
  | nil => rfl
  | append_singleton rs r ih =>
      -- the last request gets at most one answer, and that has the next number
      have hlast : ((run step new rs).answer r).map Answer.number =
          (List.range ((run step new rs).answer r).length).map fun i =>
            (run step new rs).next + Int32.ofNat i := by
        cases r with
        | online u => rfl
        | offline u address => rfl
        | dosth u text =>
            cases h : (run step new rs).address u with
            | none => simp [answer, h]
            | some v => simp [answer, h]
      rw [logOf_concat, List.map_append, ih, hlast, next_run, List.length_append, List.range_add,
        List.map_append, List.map_map]
      simp only [Function.comp_def, Int32.ofNat_add, Int32.add_assoc]
      rfl

/-! ## Directories in which everybody is its own address -/

/-- Whoever is known is its own address. -/
def Plain (d : Directory) : Prop := ∀ {uid v}, d.address uid = some v → v = uid

/-- The request gives nobody another address. -/
def KeepsPlain : Request → Prop
  | .offline uid address => address = uid
  | _ => True

theorem plain_new : Plain new := by
  intro uid v hv
  cases hv

theorem plain_step {d : Directory} (h : Plain d) {r : Request} (hr : KeepsPlain r) :
    Plain (d.step r) := by
  intro uid v hv
  cases hold : d.address uid with
  | none =>
      rw [address_step_of_none hold] at hv
      split_ifs at hv with hnew
      exact (Option.some.inj hv).symm
  | some u =>
      rw [address_step_of_some hold] at hv
      cases r with
      | online _ => exact (Option.some.inj hv).symm.trans (h hold)
      | dosth _ _ => exact (Option.some.inj hv).symm.trans (h hold)
      | offline uid' address =>
          simp only at hv
          split_ifs at hv with huid
          · rw [← Option.some.inj hv, ← huid]
            exact hr
          · exact (Option.some.inj hv).symm.trans (h hold)

/-- In such a directory the answers are, in order, answers to requests, and each goes
to the uid that asked. -/
theorem answers_matched {d : Directory} (h : Plain d) {rs : List Request}
    (hrs : ∀ r ∈ rs, KeepsPlain r) :
    List.SublistForall₂ (fun a r => r = .dosth a.address a.text) (logOf step answer d rs) rs := by
  induction rs generalizing d with
  | nil => exact .nil
  | cons r rs ih =>
      have hrest := ih (plain_step h (hrs r (List.mem_cons_self ..)))
        fun r' hr' => hrs r' (List.mem_cons_of_mem _ hr')
      rw [logOf]
      cases r with
      | online uid => exact .cons_right hrest
      | offline uid address => exact .cons_right hrest
      | dosth uid text =>
          cases haddress : d.address uid with
          | none =>
              have hnone : d.answer (.dosth uid text) = [] := by rw [answer, haddress]; rfl
              rw [hnone]
              exact .cons_right hrest
          | some v =>
              have hone : d.answer (.dosth uid text) = [⟨v, d.next, text⟩] := by
                rw [answer, haddress]
                rfl
              rw [hone]
              refine .cons ?_ hrest
              rw [h haddress]

end Directory

namespace LogicWorker

open Directory (Request Answer)

/-- What a message asks of a worker, if anything. -/
def request (msg : UserMsg) : Option Request :=
  if IsOnline msg then some (.online msg.msg.uid)
  else if IsOffline msg then some (.offline msg.uid msg.msg.uid)
  else if IsDosth msg then some (.dosth msg.uid msg.msg.sth)
  else none

/-- The message a worker sends for an answer. -/
def rspOf (name : List UInt8) (a : Answer) : UserMsg where
  uid := a.address
  msgId := ProtocolDefine.userDosthRsp.toInt
  msg := Proto2.dosthRsp a.number (dosthRspFrom ++ name ++ a.text)

/-- A worker keeps the directory `d`: the uid in the object of an entry is the
address, and no object belongs to two entries. -/
structure Keeps (w : LogicWorker) (d : Directory) : Prop where
  address : ∀ k, d.address k = (w.users.uidUsers.find k).map fun p => (w.heap.obj p).uid
  next : d.next = w.dosthId
  allocated : Allocated w
  distinct : ∀ {k k' p}, w.users.uidUsers.find k = some p → w.users.uidUsers.find k' = some p →
    k = k'

variable {w : LogicWorker} {d : Directory} {msg : UserMsg}

theorem keeps_new (name : List UInt8) : Keeps (new name) .new := ⟨fun _ => rfl, rfl, nofun, nofun⟩

theorem Keeps.find_eq_none (h : Keeps w d) {k : Int32} :
    w.users.uidUsers.find k = none ↔ d.address k = none := by
  rw [h.address, Option.map_eq_none_iff]

theorem Keeps.address_of_find (h : Keeps w d) {k : Int32} {p : Ptr}
    (hp : w.users.uidUsers.find k = some p) : d.address k = some (w.heap.obj p).uid := by
  rw [h.address, hp]
  rfl

theorem request_online (h : IsOnline msg) : request msg = some (.online msg.msg.uid) := if_pos h

theorem request_offline (h : IsOffline msg) :
    request msg = some (.offline msg.uid msg.msg.uid) := by
  rw [request, if_neg fun hon => IsOnline.not_offline hon h, if_pos h]

theorem request_dosth (h : IsDosth msg) : request msg = some (.dosth msg.uid msg.msg.sth) := by
  rw [request, if_neg h.not_online, if_neg h.not_offline, if_pos h]

theorem request_other (hon : ¬ IsOnline msg) (hoff : ¬ IsOffline msg) (hdo : ¬ IsDosth msg) :
    request msg = none := by
  rw [request, if_neg hon, if_neg hoff, if_neg hdo]

/-- A new object is the address of its own uid. -/
theorem Keeps.onUserOnline (h : Keeps w d) (msg : UserMsg) :
    Keeps (w.onUserOnline msg none) (d.step (.online msg.msg.uid)) := by
  have hobj : ∀ p < w.heap.next,
      ((w.onUserOnline msg none).heap.obj p).uid = (w.heap.obj p).uid := by
    intro p hp
    show ((w.heap.alloc _).2.obj p).uid = _
    rw [Heap.obj_alloc, if_neg (Nat.ne_of_lt hp)]
  have hnew : ((w.onUserOnline msg none).heap.obj w.heap.next).uid = msg.msg.uid := by
    show ((w.heap.alloc _).2.obj w.heap.next).uid = _
    rw [Heap.obj_alloc, if_pos rfl]
  have hnext : (w.onUserOnline msg none).heap.next = w.heap.next + 1 := rfl
  refine ⟨?_, ?_, ?_, ?_⟩
  · intro k
    rw [find_onUserOnline]
    by_cases hfree : w.users.uidUsers.find msg.msg.uid = none ∧ 0 < msg.msg.uid
    · have hstep : d.step (.online msg.msg.uid) =
          { d with address := Function.update d.address msg.msg.uid (some msg.msg.uid) } :=
        if_pos ⟨h.find_eq_none.mp hfree.1, hfree.2⟩
      rw [hstep]
      by_cases hk : k = msg.msg.uid
      · rw [if_pos ⟨hk, hfree⟩, Option.map_some, hnew, hk]
        exact Function.update_self ..
      · rw [if_neg fun hc => hk hc.1]
        show Function.update d.address _ _ k = _
        rw [Function.update_of_ne hk, h.address]
        cases hp : w.users.uidUsers.find k with
        | none => rfl
        | some p => simp only [Option.map_some, hobj p (h.allocated hp)]
    · have hstep : d.step (.online msg.msg.uid) = d :=
        if_neg fun hc => hfree ⟨h.find_eq_none.mpr hc.1, hc.2⟩
      rw [hstep, if_neg fun hc => hfree hc.2, h.address]
      cases hp : w.users.uidUsers.find k with
      | none => rfl
      | some p => simp only [Option.map_some, hobj p (h.allocated hp)]
  · rw [Directory.next_step]
    exact (Int32.add_zero _).trans h.next
  · intro k p hp
    rw [find_onUserOnline] at hp
    rw [hnext]
    split_ifs at hp
    · cases hp
      exact Nat.lt_succ_self _
    · exact Nat.lt_succ_of_lt (h.allocated hp)
  · intro k k' p hp hp'
    rw [find_onUserOnline] at hp hp'
    split_ifs at hp hp' with hk hk'
    · exact hk.1.trans hk'.1.symm
    · cases hp
      exact absurd (h.allocated hp') (Nat.lt_irrefl _)
    · cases hp'
      exact absurd (h.allocated hp) (Nat.lt_irrefl _)
    · exact h.distinct hp hp'

/-- Writing a uid into the object of an entry gives that entry another address. -/
theorem Keeps.onUserOffline (h : Keeps w d) {p : Ptr}
    (hp : w.users.uidUsers.find msg.uid = some p) :
    Keeps (w.onUserOffline msg (some p)) (d.step (.offline msg.uid msg.msg.uid)) := by
  have hknown : d.address msg.uid ≠ none := by
    rw [h.address_of_find hp]
    exact Option.some_ne_none _
  have hstep : d.step (.offline msg.uid msg.msg.uid) =
      { d with address := Function.update d.address msg.uid (some msg.msg.uid) } := if_neg hknown
  rw [hstep]
  refine ⟨?_, h.next, h.allocated, h.distinct⟩
  intro k
  show Function.update d.address _ _ k = (w.users.uidUsers.find k).map fun q =>
    ((w.heap.set p { w.heap.obj p with uid := msg.msg.uid }).obj q).uid
  by_cases hk : k = msg.uid
  · rw [hk, Function.update_self, hp, Option.map_some, Heap.obj_set_self]
  · rw [Function.update_of_ne hk, h.address]
    cases hq : w.users.uidUsers.find k with
    | none => rfl
    | some q =>
        -- another entry has another object
        have hne : q ≠ p := by
          rintro rfl
          exact hk (h.distinct hq hp)
        simp only [Option.map_some, Heap.obj_set_of_ne _ hne]

/-- **One message**: a worker that keeps a directory answers what the directory
answers, and keeps the one behind it. -/
theorem Keeps.handled (h : Keeps w d) (msg : UserMsg) :
    Keeps (w.handlerOneMsg msg) (run Directory.step d (request msg).toList) ∧
      w.replies msg = (logOf Directory.step Directory.answer d (request msg).toList).map
        (rspOf w.name) := by
  rcases handlerOneMsg_cases w msg with
    ⟨hon, hw⟩ | ⟨hoff, p, hp, hw⟩ | ⟨hdo, p, hp, hw⟩ | ⟨hon, hnone, hw⟩
  · rw [request_online hon, hw, replies, hw]
    refine ⟨h.onUserOnline msg, ?_⟩
    exact List.drop_length
  · rw [request_offline hoff, hw, replies, hw]
    refine ⟨h.onUserOffline hp, ?_⟩
    exact List.drop_length
  · -- the entry is known to the directory
    have haddress := h.address_of_find hp
    have hstep : d.step (.dosth msg.uid msg.msg.sth) = { d with next := d.next + 1 } := by
      simp only [Directory.step, haddress, reduceCtorEq, if_false]
    have hanswer : d.answer (.dosth msg.uid msg.msg.sth) =
        [⟨(w.heap.obj p).uid, d.next, msg.msg.sth⟩] := by
      simp only [Directory.answer, haddress, Option.toList_some, List.map_cons, List.map_nil]
    rw [request_dosth hdo, hw, replies, hw, outMsgs_onUserDosth, List.drop_left]
    refine ⟨?_, ?_⟩
    · show Keeps (w.onUserDosth msg (some p)) (d.step (.dosth msg.uid msg.msg.sth))
      rw [hstep]
      refine ⟨h.address, ?_, h.allocated, h.distinct⟩
      show d.next + 1 = w.dosthId + 1
      rw [h.next]
    · show _ = (d.answer (.dosth msg.uid msg.msg.sth) ++ []).map (rspOf w.name)
      rw [hanswer, h.next]
      rfl
  · rw [hw, replies, hw, List.drop_length]
    by_cases hoff : IsOffline msg
    · -- about a uid that is not known
      have hunknown := h.find_eq_none.mp (hnone (.inl hoff))
      rw [request_offline hoff]
      refine ⟨?_, rfl⟩
      show Keeps w (d.step (.offline msg.uid msg.msg.uid))
      rw [Directory.step, if_pos hunknown]
      exact h
    · by_cases hdo : IsDosth msg
      · have hunknown := h.find_eq_none.mp (hnone (.inr hdo))
        rw [request_dosth hdo]
        have hanswer : d.answer (.dosth msg.uid msg.msg.sth) = [] := by
          simp only [Directory.answer, hunknown, Option.toList_none, List.map_nil]
        refine ⟨?_, ?_⟩
        · show Keeps w (d.step (.dosth msg.uid msg.msg.sth))
          rw [Directory.step, if_pos hunknown]
          exact h
        · show [] = (d.answer (.dosth msg.uid msg.msg.sth) ++ []).map (rspOf w.name)
          rw [hanswer]
          rfl
      · rw [request_other hon hoff hdo]
        exact ⟨h, rfl⟩

theorem name_handlerOneMsg (w : LogicWorker) (msg : UserMsg) :
    (w.handlerOneMsg msg).name = w.name := by
  rcases handlerOneMsg_cases w msg with ⟨_, h⟩ | ⟨_, p, _, h⟩ | ⟨_, p, _, h⟩ | ⟨_, _, h⟩ <;> rw [h]
  · rfl
  · rfl
  · rfl

/-- A worker that keeps a directory and the directory answer the same. -/
theorem Keeps.handledAll (h : Keeps w d) (msgs : List UserMsg) :
    Keeps (run handlerOneMsg w msgs)
        (run Directory.step d (msgs.filterMap request)) ∧
      logOf handlerOneMsg replies w msgs =
        (logOf Directory.step Directory.answer d (msgs.filterMap request)).map (rspOf w.name) := by
  rw [List.filterMap_eq_flatMap_toList]
  have hstep : ∀ (v : LogicWorker) (e : Directory) (m : UserMsg), Keeps v e ∧ v.name = w.name →
      (Keeps (v.handlerOneMsg m) (run Directory.step e (request m).toList) ∧
        (v.handlerOneMsg m).name = w.name) ∧
      v.replies m = (logOf Directory.step Directory.answer e (request m).toList).map
        (rspOf w.name) := by
    rintro v e m ⟨hk, hname⟩
    have hone := hk.handled m
    rw [hname] at hone
    exact ⟨⟨hone.1, (name_handlerOneMsg v m).trans hname⟩, hone.2⟩
  obtain ⟨⟨hkeeps, _⟩, hlog⟩ :=
    run_simulates (R := fun v e => Keeps v e ∧ v.name = w.name) hstep ⟨h, rfl⟩ msgs
  exact ⟨hkeeps, hlog⟩

/-- The answers of a run are those of its messages. -/
theorem outMsgs_run (w : LogicWorker) (msgs : List UserMsg) :
    (run handlerOneMsg w msgs).outMsgs =
      w.outMsgs ++ logOf handlerOneMsg replies w msgs := by
  induction msgs generalizing w with
  | nil => exact (List.append_nil _).symm
  | cons msg msgs ih =>
      rw [run_cons, ih, (handlerOneMsg_queues w msg).2.2, logOf, List.append_assoc]

theorem outMsgs_eq_answers (name : List UInt8) (msgs : List UserMsg) :
    (run handlerOneMsg (new name) msgs).outMsgs =
      (Directory.answers (msgs.filterMap request)).map (rspOf name) := by
  rw [outMsgs_run, ((keeps_new name).handledAll msgs).2]
  rfl

/-- **A worker is a directory**: whatever messages a worker is given, its answers are
those of a directory that is asked the same, in the same order, and the uids it has
an entry for, with the uids in their objects, and its `dosth_id` are what the
directory knows. -/
theorem directory_refined (name : List UInt8) (msgs : List UserMsg) :
    let w := run handlerOneMsg (new name) msgs
    let rs := msgs.filterMap request
    w.outMsgs = (Directory.answers rs).map (rspOf name) ∧
      w.dosthId = (run Directory.step .new rs).next ∧
      ∀ uid, (w.users.getUserByUid uid).map (fun p => (w.heap.obj p).uid) =
        (run Directory.step .new rs).address uid := by
  intro w rs
  obtain ⟨hkeeps, _⟩ := (keeps_new name).handledAll msgs
  exact ⟨outMsgs_eq_answers name msgs, hkeeps.next.symm, fun uid => (hkeeps.address uid).symm⟩

/-- A request gets the answer the directory gives. -/
theorem replies_eq (name : List UInt8) (js : List UserMsg) {req : UserMsg} (h : IsDosth req) :
    (run handlerOneMsg (new name) js).replies req =
      ((run Directory.step .new (js.filterMap request)).answer
        (.dosth req.uid req.msg.sth)).map (rspOf name) := by
  obtain ⟨hkeeps, _⟩ := (keeps_new name).handledAll js
  have hname : (run handlerOneMsg (new name) js).name = name :=
    run_invariant (I := fun v : LogicWorker => v.name = name)
      (fun v m hv => (name_handlerOneMsg v m).trans hv) rfl js
  have hone := (hkeeps.handled req).2
  rw [hname, request_dosth h] at hone
  rw [hone]
  show ((run Directory.step .new (js.filterMap request)).answer
    (.dosth req.uid req.msg.sth) ++ []).map (rspOf name) = _
  rw [List.append_nil]

/-- An online message in the name of a body uid is a request of the directory. -/
theorem online_mem_filterMap {msgs : List UserMsg} {uid : Int32} :
    Request.online uid ∈ msgs.filterMap request ↔
      ∃ msg ∈ msgs, IsOnline msg ∧ msg.msg.uid = uid := by
  rw [List.mem_filterMap]
  constructor
  · rintro ⟨msg, hmsg, hreq⟩
    refine ⟨msg, hmsg, ?_⟩
    unfold request at hreq
    split_ifs at hreq with hon
    · exact ⟨hon, Request.online.inj (Option.some.inj hreq)⟩
    · cases hreq
    · cases hreq
  · rintro ⟨msg, hmsg, hon, rfl⟩
    exact ⟨msg, hmsg, request_online hon⟩

/-- **Who is answered, and where**. After any messages `js`, a `DoSthReq` is answered
iff one of them was an online message about its header uid, and that uid is
positive. The answer carries the text of the request and the number of answers so
far, counted from 100. It goes to the header uid, or to the body uid of the last
offline message under that header since the uid came online. -/
theorem replies_run (name : List UInt8) (js : List UserMsg) {req : UserMsg} (h : IsDosth req) :
    ((run handlerOneMsg (new name) js).replies req = [] ↔
      ¬ ((∃ msg ∈ js, IsOnline msg ∧ msg.msg.uid = req.uid) ∧ 0 < req.uid)) ∧
    ∀ pre on post, js = pre ++ on :: post → IsOnline on → on.msg.uid = req.uid → 0 < req.uid →
      (∀ msg ∈ pre, IsOnline msg → msg.msg.uid ≠ req.uid) →
      (run handlerOneMsg (new name) js).replies req = [rspOf name
        { address := (Directory.lastAddress req.uid (post.filterMap request)).getD req.uid
          number := 100 + Int32.ofNat (run handlerOneMsg (new name) js).outMsgs.length
          text := req.msg.sth }] := by
  have hfirst : ∀ pre on post, js = pre ++ on :: post → IsOnline on → on.msg.uid = req.uid →
      0 < req.uid → (∀ msg ∈ pre, IsOnline msg → msg.msg.uid ≠ req.uid) →
      (run handlerOneMsg (new name) js).replies req = [rspOf name
        { address := (Directory.lastAddress req.uid (post.filterMap request)).getD req.uid
          number := 100 + Int32.ofNat (run handlerOneMsg (new name) js).outMsgs.length
          text := req.msg.sth }] := by
    rintro pre on post hjs hon huid hpos hpre
    have hnot : Request.online req.uid ∉ pre.filterMap request := by
      rw [online_mem_filterMap]
      rintro ⟨msg, hmsg, hon', huid'⟩
      exact hpre msg hmsg hon' huid'
    have hrequests : js.filterMap request =
        pre.filterMap request ++ .online req.uid :: post.filterMap request := by
      rw [hjs, List.filterMap_append, List.filterMap_cons_some (request_online hon), huid]
    have haddress : (run Directory.step .new (pre.filterMap request ++
        .online req.uid :: post.filterMap request)).address req.uid =
          some ((Directory.lastAddress req.uid (post.filterMap request)).getD req.uid) :=
      Directory.address_run_new hpos hnot
    have hnumber := Directory.next_run .new (js.filterMap request)
    have hcount : (run handlerOneMsg (new name) js).outMsgs.length =
        (Directory.answers (js.filterMap request)).length := by
      rw [outMsgs_eq_answers, List.length_map]
    rw [← hrequests] at haddress
    rw [replies_eq name js h, hcount, Directory.answer, haddress, hnumber]
    rfl
  refine ⟨?_, hfirst⟩
  by_cases hknown : (∃ msg ∈ js, IsOnline msg ∧ msg.msg.uid = req.uid) ∧ 0 < req.uid
  · obtain ⟨⟨msg, hmsg, hon⟩, hpos⟩ := hknown
    refine iff_of_false ?_ fun hno => hno ⟨⟨msg, hmsg, hon⟩, hpos⟩
    -- split at the first online message
    have hsome : (js.find? fun m => decide (IsOnline m ∧ m.msg.uid = req.uid)).isSome :=
      List.find?_isSome.mpr ⟨msg, hmsg, decide_eq_true hon⟩
    obtain ⟨on, hfind⟩ := Option.isSome_iff_exists.mp hsome
    obtain ⟨hon', pre, post, hjs, hpre⟩ := List.find?_eq_some_iff_append.mp hfind
    obtain ⟨honline, huid⟩ := of_decide_eq_true hon'
    have hnone : ∀ m ∈ pre, IsOnline m → m.msg.uid ≠ req.uid := by
      intro m hm hm' hu
      have hno := hpre m hm
      rw [decide_eq_true (And.intro hm' hu)] at hno
      cases hno
    rw [hfirst pre on post hjs honline huid hpos hnone]
    exact List.cons_ne_nil _ _
  · refine iff_of_true ?_ hknown
    have hnone : (run Directory.step .new (js.filterMap request)).address req.uid = none := by
      apply Directory.address_run_of_none rfl
      rw [online_mem_filterMap]
      exact hknown
    rw [replies_eq name js h, Directory.answer, hnone]
    rfl

/-- Uid 1 comes online and goes offline with 2 in the body; its next request is answered
to uid 2, under the number 100. -/
theorem replies_run_moved :
    (run handlerOneMsg (new []) [presence .userOnlineReq .userOnlineReq 1 1,
        presence .userOfflineReq .userOfflineReq 1 2]).replies
      { uid := 1, msgId := 9, msg := Message.new .doSthReq } =
        [rspOf [] { address := 2, number := 100, text := [] }] := by
  have hdosth : IsDosth { uid := 1, msgId := 9, msg := Message.new .doSthReq } := rfl
  have hall := replies_run [] [presence .userOnlineReq .userOnlineReq 1 1,
    presence .userOfflineReq .userOfflineReq 1 2] hdosth
  exact hall.2 [] _ [presence .userOfflineReq .userOfflineReq 1 2] rfl rfl rfl (by decide)
    fun _ hmsg => absurd hmsg List.not_mem_nil

end LogicWorker

end Rubo.Server
