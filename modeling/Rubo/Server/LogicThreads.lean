import Rubo.Foundation.Merge
import Rubo.Server.LogicIO

/-!
# The Threads of a Logic Process

`LogicIO` models the IO thread and the workers round by round. Here the rounds are
taken apart into the steps between which the threads can be interrupted: what is
done under one lock is one step, and so are giving the lock back by going to sleep,
waking up, and a `notify_all`.

- Messages go through four lists, `_io_msgs`, `_msgs_in`, the local list of
  `handler_msgs` and `_out_msgs`. Nothing is lost, doubled or reordered on the way
  (`lossless`).
- `handler_msgs` goes to sleep without looking whether something is there. A
  notification that falls outside the wait is lost, and with it the wake-up, until
  the next message comes (`awake_iff_along`, `not_awake_early`).
-/

namespace Rubo.Server

open Rubo.Foundation Rubo.Msgs Rubo.Util

open LogicIO (workerName)

/-! ## The threads -/

/-- Where a worker is in `thread_loop()`. -/
inductive Stage where
  /-- In front of the wait. -/
  | top
  /-- Blocked in the wait. -/
  | blocked
  /-- Woken up, and about to get the lock back. -/
  | woken
  /-- Behind the wait, with these messages left in the local list. -/
  | handling (msgs : List UserMsg)
  /-- The server has copied the answers; they are not cleared yet. -/
  | replied
  deriving DecidableEq

/-- A worker thread. The history says what was dispatched to it, what it has
handled, the answers its handlers made, and those it has handed over. -/
structure LogicThread where
  worker : LogicWorker
  stage : Stage
  dispatched : List UserMsg
  handled : List UserMsg
  produced : List UserMsg
  handedOver : List UserMsg

namespace LogicThread

variable (t : LogicThread)

/-- A worker that has just been started. -/
def new (name : List UInt8) : LogicThread := ⟨.new name, .top, [], [], [], []⟩

/-- The messages in the local list of `handler_msgs`. -/
def batch : List UserMsg :=
  match t.stage with
  | .handling msgs => msgs
  | _ => []

/-- The answers still to be handed over. -/
def pending : List UserMsg := if t.stage = .replied then [] else t.worker.outMsgs

/-- `_io_msgs.push_back(msg)` -/
def receive (msg : UserMsg) : LogicThread :=
  { t with
    worker := { t.worker with ioMsgs := t.worker.ioMsgs ++ [msg] }
    dispatched := t.dispatched ++ [msg] }

/-- The locked part of `notify_msg_in()`. -/
def notifyMsgIn : LogicThread := { t with worker := t.worker.notifyMsgIn }

/-- `_cond.wait(lock)`: the lock is given back and the thread blocked at once. -/
def wait : LogicThread := if t.stage = .top then { t with stage := .blocked } else t

/-- A thread that is not in the wait does not notice. -/
def wake : LogicThread := if t.stage = .blocked then { t with stage := .woken } else t

/-- `msgs.swap(_msgs_in)` with an empty `msgs`. -/
def swap : LogicThread :=
  if t.stage = .woken then
    { t with worker := { t.worker with msgsIn := [] }, stage := .handling t.worker.msgsIn }
  else t

/-- One message of the loop of `handler_msgs`. The counter behind the answers is
shared by all workers; `dosthId` is what others have left in it. -/
def handle (dosthId : Option Int32) : LogicThread :=
  match t.stage with
  | .handling (msg :: msgs) =>
    let worker := { t.worker with dosthId := dosthId.getD t.worker.dosthId }
    { t with
      worker := worker.handlerOneMsg msg
      stage := .handling msgs
      handled := t.handled ++ [msg]
      produced := t.produced ++ worker.replies msg }
  | _ => t

/-- `add_msgs_to_io(_out_msgs)`: what the server copies, and the worker. -/
def addMsgs : List UserMsg × LogicThread :=
  if t.stage = .handling [] then
    (t.worker.outMsgs,
      { t with stage := .replied, handedOver := t.handedOver ++ t.worker.outMsgs })
  else ([], t)

/-- `_out_msgs.clear()` -/
def clear : LogicThread :=
  if t.stage = .replied then
    { t with worker := { t.worker with outMsgs := [] }, stage := .top }
  else t

/-- What was dispatched is somewhere on its way, and what was answered as well. -/
structure Lossless : Prop where
  messages : t.handled ++ t.batch ++ t.worker.msgsIn ++ t.worker.ioMsgs = t.dispatched
  answers : t.handedOver ++ t.pending = t.produced

end LogicThread

/-- The worker threads, `_out_msgs` of `Logic`, the worker the IO thread is about to
notify, and as history the answers the IO thread has taken. -/
structure LogicThreads where
  threads : List LogicThread
  outMsgs : List UserMsg
  notifying : Option ℕ
  drained : List UserMsg

namespace LogicThreads

/-- A step of one of the threads. -/
inductive Act where
  /-- The IO thread has parsed a message. -/
  | dispatch (msg : UserMsg)
  /-- The locked part of `notify_msg_in()`. -/
  | append (i : ℕ)
  /-- The `notify_all()` behind it. -/
  | notify
  /-- `io_get_msgs(msgs)` -/
  | drain
  | wait (i : ℕ)
  /-- A wake-up for no reason. -/
  | wake (i : ℕ)
  | swap (i : ℕ)
  | handle (i : ℕ) (dosthId : Option Int32)
  | addMsgs (i : ℕ)
  | clear (i : ℕ)

/-- A process with these workers, just started. -/
def init (names : List (List UInt8)) : LogicThreads := ⟨names.map .new, [], none, []⟩

variable (s : LogicThreads)

/-- Change one thread. -/
def modify (i : ℕ) (f : LogicThread → LogicThread) : LogicThreads :=
  { s with threads := s.threads.modify i f }

/-- `get_worker(uid)` -/
def getWorker (uid : Int32) : Option ℕ :=
  Comm.findWorker (fun t => t.worker.isUidIn uid) (fun t => t.worker.userNum) s.threads

/-- Deal out one message. -/
def dispatch (msg : UserMsg) : LogicThreads :=
  -- `on_verify_ret` only writes to the log
  if msg.msgId = ProtocolDefine.systemVerifyRsp.toInt then s
  else
    match s.getWorker msg.uid with
    | none => s
    | some i => s.modify i fun t => t.receive msg

/-- The locked part of `notify_msg_in()`, for a worker that was sent something. -/
def append (i : ℕ) : LogicThreads :=
  match s.threads[i]? with
  | none => s
  | some t =>
    if t.worker.ioMsgs = [] then s
    else { s.modify i LogicThread.notifyMsgIn with notifying := some i }

/-- `add_msgs_to_io` of one worker. -/
def addMsgs (i : ℕ) : LogicThreads :=
  match s.threads[i]? with
  | none => s
  | some t =>
    { s with
      threads := s.threads.set i t.addMsgs.2
      outMsgs := s.outMsgs ++ t.addMsgs.1 }

/-- One step. A thread that is elsewhere does nothing; between the two parts of
`notify_msg_in` the IO thread does nothing else. -/
def step : Act → LogicThreads
  | .dispatch msg => if s.notifying = none then s.dispatch msg else s
  | .append i => if s.notifying = none then s.append i else s
  | .notify =>
    match s.notifying with
    | none => s
    | some i => { s.modify i LogicThread.wake with notifying := none }
  | .drain =>
    if s.notifying = none then { s with outMsgs := [], drained := s.drained ++ s.outMsgs } else s
  | .wait i => s.modify i LogicThread.wait
  | .wake i => s.modify i LogicThread.wake
  | .swap i => s.modify i LogicThread.swap
  | .handle i dosthId => s.modify i fun t => t.handle dosthId
  | .addMsgs i => s.addMsgs i
  | .clear i => s.modify i LogicThread.clear

end LogicThreads

/-! ## Nothing is lost on the way -/

namespace LogicThread

variable {t : LogicThread}

theorem lossless_new (name : List UInt8) : (new name).Lossless :=
  ⟨rfl, rfl⟩

theorem lossless_receive (h : t.Lossless) (msg : UserMsg) : (t.receive msg).Lossless where
  messages := by simp [receive, batch, ← h.messages]
  answers := h.answers

theorem lossless_notifyMsgIn (h : t.Lossless) : t.notifyMsgIn.Lossless where
  messages := by simp [notifyMsgIn, LogicWorker.notifyMsgIn, batch, ← h.messages]
  answers := h.answers

theorem lossless_wait (h : t.Lossless) : t.wait.Lossless := by
  unfold wait
  split_ifs with hs
  · obtain ⟨hm, ha⟩ := h
    rw [batch, hs] at hm
    rw [pending, hs] at ha
    exact ⟨hm, ha⟩
  · exact h

theorem lossless_wake (h : t.Lossless) : t.wake.Lossless := by
  unfold wake
  split_ifs with hs
  · obtain ⟨hm, ha⟩ := h
    rw [batch, hs] at hm
    rw [pending, hs] at ha
    exact ⟨hm, ha⟩
  · exact h

/-- The messages move to the local list, which was empty. -/
theorem lossless_swap (h : t.Lossless) : t.swap.Lossless := by
  unfold swap
  split_ifs with hs
  · obtain ⟨hm, ha⟩ := h
    rw [batch, hs] at hm
    rw [pending, hs] at ha
    refine ⟨?_, ha⟩
    simpa [batch] using hm
  · exact h

/-- The first message of the local list has been handled, and its answers are in
`_out_msgs`. -/
theorem lossless_handle (h : t.Lossless) (dosthId : Option Int32) :
    (t.handle dosthId).Lossless := by
  unfold handle
  split
  · next msg msgs hs =>
    obtain ⟨hm, ha⟩ := h
    rw [batch, hs] at hm
    rw [pending, hs] at ha
    obtain ⟨hin, hio, hout⟩ := LogicWorker.handlerOneMsg_queues
      { t.worker with dosthId := dosthId.getD t.worker.dosthId } msg
    refine ⟨?_, ?_⟩
    · rw [← hm]
      simp [batch, hin, hio]
    · rw [← ha]
      simp [pending, hout]
  · exact h

/-- What is handed over was pending, and no longer is. -/
theorem lossless_addMsgs (h : t.Lossless) : t.addMsgs.2.Lossless := by
  unfold addMsgs
  split_ifs with hs
  · obtain ⟨hm, ha⟩ := h
    rw [batch, hs] at hm
    rw [pending, hs] at ha
    exact ⟨hm, by simpa [pending] using ha⟩
  · exact h

/-- What is cleared has been handed over. -/
theorem lossless_clear (h : t.Lossless) : t.clear.Lossless := by
  unfold clear
  split_ifs with hs
  · obtain ⟨hm, ha⟩ := h
    rw [batch, hs] at hm
    rw [pending, hs] at ha
    exact ⟨hm, by simpa [pending] using ha⟩
  · exact h

/-! Only `add_msgs_to_io` hands answers over. -/

@[simp] theorem handedOver_receive (msg : UserMsg) : (t.receive msg).handedOver = t.handedOver := rfl

@[simp] theorem handedOver_notifyMsgIn : t.notifyMsgIn.handedOver = t.handedOver := rfl

@[simp] theorem handedOver_wait : t.wait.handedOver = t.handedOver := by
  unfold wait
  split_ifs <;> rfl

@[simp] theorem handedOver_wake : t.wake.handedOver = t.handedOver := by
  unfold wake
  split_ifs <;> rfl

@[simp] theorem handedOver_swap : t.swap.handedOver = t.handedOver := by
  unfold swap
  split_ifs <;> rfl

@[simp] theorem handedOver_handle (dosthId : Option Int32) :
    (t.handle dosthId).handedOver = t.handedOver := by
  unfold handle
  split <;> rfl

@[simp] theorem handedOver_clear : t.clear.handedOver = t.handedOver := by
  unfold clear
  split_ifs <;> rfl

theorem handedOver_addMsgs : t.addMsgs.2.handedOver = t.handedOver ++ t.addMsgs.1 := by
  unfold addMsgs
  split_ifs <;> simp

end LogicThread

namespace LogicThreads

variable {s : LogicThreads}

/-- The answers a worker has handed over. -/
def handedOver (s : LogicThreads) (i : ℕ) : List UserMsg :=
  match s.threads[i]? with
  | none => []
  | some t => t.handedOver

/-- Nothing is lost in the worker threads, and the answers taken by the IO thread,
followed by those it has not taken yet, are a merge of those handed over. -/
structure Lossless (s : LogicThreads) : Prop where
  threads : ∀ t ∈ s.threads, t.Lossless
  merge : IsMerge s.handedOver (s.drained ++ s.outMsgs)

/-- A step of one thread that hands nothing over. -/
theorem Lossless.modify (h : s.Lossless) {f : LogicThread → LogicThread}
    (hf : ∀ t, t.Lossless → (f t).Lossless) (hsame : ∀ t, (f t).handedOver = t.handedOver)
    (i : ℕ) : (s.modify i f).Lossless where
  threads t ht := by
    rcases mem_modify ht with hold | ⟨u, hu, rfl⟩
    · exact h.threads t hold
    · exact hf u (h.threads u (List.mem_of_getElem? hu))
  merge := by
    have hparts : (s.modify i f).handedOver = s.handedOver := by
      funext j
      simp only [handedOver, LogicThreads.modify, List.getElem?_modify]
      cases s.threads[j]? with
      | none => rfl
      | some t =>
          simp only [Option.map_eq_map, Option.map_some]
          split_ifs
          · exact hsame t
          · rfl
    rw [hparts]
    exact h.merge

theorem lossless_addMsgs (h : s.Lossless) (i : ℕ) : (s.addMsgs i).Lossless := by
  unfold LogicThreads.addMsgs
  cases ht : s.threads[i]? with
  | none => exact h
  | some t =>
      have hmem : t ∈ s.threads := List.mem_of_getElem? ht
      have hlt : i < s.threads.length := (List.getElem?_eq_some_iff.mp ht).1
      refine ⟨?_, ?_⟩
      · intro u hu
        rcases List.mem_or_eq_of_mem_set hu with hold | rfl
        · exact h.threads u hold
        · exact LogicThread.lossless_addMsgs (h.threads t hmem)
      · -- one part of the merge has grown
        have hparts : handedOver { s with
            threads := s.threads.set i t.addMsgs.2, outMsgs := s.outMsgs ++ t.addMsgs.1 } =
            Function.update s.handedOver i (s.handedOver i ++ t.addMsgs.1) := by
          funext j
          rw [Function.update_apply]
          unfold handedOver
          split_ifs with hj
          · simp only [hj, List.getElem?_set_self hlt, ht, LogicThread.handedOver_addMsgs]
          · simp [List.getElem?_set_ne (Ne.symm hj)]
        rw [hparts, ← List.append_assoc]
        exact h.merge.append i t.addMsgs.1

theorem lossless_step (h : s.Lossless) (a : Act) : (s.step a).Lossless := by
  cases a with
  | dispatch msg =>
      unfold step dispatch
      simp only
      split_ifs
      · exact h
      · split
        · exact h
        · exact h.modify (fun t ht => LogicThread.lossless_receive ht msg) (by simp) _
      · exact h
  | append i =>
      unfold step append
      simp only
      split_ifs
      · split
        · exact h
        · split_ifs
          · exact h
          · have hmod := h.modify (fun t ht => LogicThread.lossless_notifyMsgIn ht) (by simp) i
            exact ⟨hmod.threads, hmod.merge⟩
      · exact h
  | notify =>
      unfold step
      cases s.notifying with
      | none => exact h
      | some i =>
          have hmod := h.modify (fun t ht => LogicThread.lossless_wake ht) (by simp) i
          exact ⟨hmod.threads, hmod.merge⟩
  | drain =>
      unfold step
      simp only
      split_ifs
      · -- what is taken stays in view
        refine ⟨h.threads, ?_⟩
        show IsMerge s.handedOver (s.drained ++ s.outMsgs ++ [])
        rw [List.append_nil]
        exact h.merge
      · exact h
  | wait i => exact h.modify (fun t ht => LogicThread.lossless_wait ht) (by simp) i
  | wake i => exact h.modify (fun t ht => LogicThread.lossless_wake ht) (by simp) i
  | swap i => exact h.modify (fun t ht => LogicThread.lossless_swap ht) (by simp) i
  | handle i dosthId =>
      exact h.modify (fun t ht => LogicThread.lossless_handle ht dosthId) (by simp) i
  | addMsgs i => exact lossless_addMsgs h i
  | clear i => exact h.modify (fun t ht => LogicThread.lossless_clear ht) (by simp) i

theorem lossless_init (names : List (List UInt8)) : (init names).Lossless where
  threads t ht := by
    obtain ⟨name, _, rfl⟩ := List.mem_map.mp ht
    exact LogicThread.lossless_new name
  merge := by
    have hparts : (init names).handedOver = fun _ => [] := by
      funext i
      simp only [handedOver, init, List.getElem?_map]
      cases names[i]? <;> rfl
    rw [hparts]
    exact IsMerge.nil

/-- **The hand-off loses nothing.** For any number of workers and every
interleaving of their steps with those of the IO thread:

- what a worker has handled, what is in its local list, in `_msgs_in` and in
  `_io_msgs` are together the messages dispatched to it, in order;
- what it has handed over and what it has still to hand over are the answers of
  its handlers, in order;
- what the IO thread has taken and what is left in `_out_msgs` of `Logic` are
  together a merge of what the workers have handed over. -/
theorem lossless (names : List (List UInt8)) (acts : List Act) :
    let s := run step (init names) acts
    (∀ t ∈ s.threads,
      t.handled ++ t.batch ++ t.worker.msgsIn ++ t.worker.ioMsgs = t.dispatched ∧
        t.handedOver ++ t.pending = t.produced) ∧
    IsMerge s.handedOver (s.drained ++ s.outMsgs) := by
  intro s
  have h : s.Lossless :=
    run_invariant (I := Lossless) (fun _ a h => lossless_step h a) (lossless_init names) acts
  exact ⟨fun t ht => ⟨(h.threads t ht).messages, (h.threads t ht).answers⟩, h.merge⟩

/-! ## Rounds -/

/-- The IO thread and the workers as `LogicIO` sees them. -/
def asRounds (l : LogicIO) (s : LogicThreads) : LogicIO :=
  { l with workers := s.threads.map LogicThread.worker, outMsgs := s.outMsgs }

/-- Dealing out a message is dealing it out in a round. -/
theorem asRounds_dispatch (l : LogicIO) (s : LogicThreads) (msg : UserMsg) :
    (s.dispatch msg).asRounds l = (s.asRounds l).dispatch msg := by
  have hworker : (s.asRounds l).getWorker msg.uid = s.getWorker msg.uid :=
    Comm.findWorker_map _ _ LogicThread.worker s.threads
  unfold dispatch LogicIO.dispatch
  rw [hworker]
  split_ifs
  · rfl
  · cases s.getWorker msg.uid with
    | none => rfl
    | some i =>
        have hreceive : (s.threads.modify i fun t => t.receive msg).map LogicThread.worker = _ :=
          map_modify (k := fun w : LogicWorker => { w with ioMsgs := w.ioMsgs ++ [msg] })
            (fun _ => rfl) _ i
        simp only [asRounds, modify, LogicIO.modifyWorker, hreceive]

/-- The steps of a pass that handles `n` messages, when no other worker comes in
between. -/
def pass (i n : ℕ) : List Act :=
  .swap i :: List.replicate n (.handle i none) ++ [.addMsgs i, .clear i]

theorem modify_of_getElem? {i : ℕ} {t : LogicThread} (h : s.threads[i]? = some t)
    (f : LogicThread → LogicThread) :
    s.modify i f = { s with threads := s.threads.set i (f t) } := by
  unfold modify
  congr 1
  apply List.ext_getElem?
  intro j
  rw [List.getElem?_modify, List.getElem?_set]
  have hlt := (List.getElem?_eq_some_iff.mp h).1
  by_cases hj : i = j
  · subst hj
    simp only [h, hlt, if_true, Option.map_eq_map, Option.map_some]
  · simp [hj]

/-- The messages of the local list are handled one after the other. -/
theorem run_handle (i : ℕ) (msgs : List UserMsg) {t : LogicThread}
    (ht : s.threads[i]? = some t) (hs : t.stage = .handling msgs) :
    ∃ t', run step s (List.replicate msgs.length (.handle i none)) =
        { s with threads := s.threads.set i t' } ∧
      t'.stage = .handling [] ∧ t'.worker = msgs.foldl LogicWorker.handlerOneMsg t.worker := by
  have hlt := (List.getElem?_eq_some_iff.mp ht).1
  induction msgs generalizing s t with
  | nil =>
      refine ⟨t, ?_, hs, rfl⟩
      have hset : s.threads.set i t = s.threads := by
        obtain ⟨_, rfl⟩ := List.getElem?_eq_some_iff.mp ht
        exact List.set_getElem_self ..
      rw [hset]
      rfl
  | cons msg msgs ih =>
      have hone : s.step (.handle i none) =
          { s with threads := s.threads.set i (t.handle none) } := modify_of_getElem? ht _
      have hhandle : (t.handle none).stage = .handling msgs ∧
          (t.handle none).worker = t.worker.handlerOneMsg msg := by
        unfold LogicThread.handle
        simp only [hs]
        exact ⟨trivial, rfl⟩
      have ht' : (s.step (.handle i none)).threads[i]? = some (t.handle none) := by
        rw [hone]
        exact List.getElem?_set_self hlt
      obtain ⟨t', hrun, hstage, hworker⟩ := ih ht' hhandle.1 (by rw [hone]; simpa using hlt)
      refine ⟨t', ?_, hstage, ?_⟩
      · rw [List.length_cons, List.replicate_succ, run_cons, hrun, hone]
        simp [List.set_set]
      · rw [hworker, hhandle.2, List.foldl_cons]

/-- **A pass is a pass of a round**: a worker that has been woken handles what it
finds and hands over its answers. -/
theorem asRounds_pass (l : LogicIO) {i : ℕ} {t : LogicThread} (ht : s.threads[i]? = some t)
    (hs : t.stage = .woken) :
    (run step s (pass i t.worker.msgsIn.length)).asRounds l = (s.asRounds l).workerLoop i := by
  have hlt := (List.getElem?_eq_some_iff.mp ht).1
  have hswap : s.step (.swap i) = { s with threads := s.threads.set i t.swap } :=
    modify_of_getElem? ht _
  have hstage : t.swap.stage = .handling t.worker.msgsIn := by simp [LogicThread.swap, hs]
  have ht' : (s.step (.swap i)).threads[i]? = some t.swap := by
    rw [hswap]
    exact List.getElem?_set_self hlt
  obtain ⟨u, hrun, hu, hworker⟩ := run_handle i t.worker.msgsIn ht' hstage
  have hhandled : u.worker = t.worker.handlerMsgs := by
    rw [hworker]
    simp [LogicThread.swap, hs, LogicWorker.handlerMsgs]
  rw [pass, List.cons_append, run_cons, run_append, hrun, hswap, List.set_set, run_cons, run_cons,
    run_nil]
  -- the answers of all messages are copied, then cleared
  let v : LogicThread := { u with stage := .replied, handedOver := u.handedOver ++ u.worker.outMsgs }
  have hadd : step { s with threads := s.threads.set i u } (.addMsgs i) =
      { s with threads := s.threads.set i v, outMsgs := s.outMsgs ++ u.worker.outMsgs } := by
    have hcopied : u.addMsgs = (u.worker.outMsgs, v) := by simp [LogicThread.addMsgs, hu, v]
    simp only [step, addMsgs, List.getElem?_set_self hlt, hcopied, List.set_set]
  have hclear : step { s with
      threads := s.threads.set i v, outMsgs := s.outMsgs ++ u.worker.outMsgs } (.clear i) =
      { s with
        threads := s.threads.set i v.clear, outMsgs := s.outMsgs ++ u.worker.outMsgs } := by
    refine (modify_of_getElem? (List.getElem?_set_self hlt) _).trans ?_
    rw [List.set_set]
  rw [hadd, hclear]
  have hworkers : (s.threads.map LogicThread.worker)[i]? = some t.worker := by simp [ht]
  simp only [asRounds, LogicIO.workerLoop, hworkers, List.map_set, LogicWorker.handlerReply, ← hhandled]
  rfl

/-! ## Wake-ups -/

/-- A worker that is blocked with messages waiting is about to be notified. -/
def Awake (s : LogicThreads) : Prop :=
  ∀ i t, s.threads[i]? = some t → t.stage = .blocked → t.worker.msgsIn ≠ [] →
    s.notifying = some i

/-- A worker that begins to wait has no messages waiting, or will be notified. -/
def SleepsSafely (s : LogicThreads) : Act → Prop
  | .wait i => ∀ t ∈ s.threads[i]?, t.stage = .top →
      t.worker.msgsIn = [] ∨ s.notifying = some i
  | _ => True

/-- A step that sends no thread to sleep and gives no sleeping thread messages. -/
theorem Awake.modify (h : s.Awake) {f : LogicThread → LogicThread}
    (hf : ∀ t, (f t).stage = .blocked → (f t).worker.msgsIn ≠ [] →
      t.stage = .blocked ∧ t.worker.msgsIn ≠ []) (i : ℕ) : (s.modify i f).Awake := by
  intro j u hu hblocked hin
  simp only [LogicThreads.modify, List.getElem?_modify] at hu
  cases ht : s.threads[j]? with
  | none => simp [ht] at hu
  | some t =>
      simp only [ht, Option.map_eq_map, Option.map_some, Option.some.injEq] at hu
      split_ifs at hu
      · rw [← hu] at hblocked hin
        obtain ⟨hblocked', hin'⟩ := hf t hblocked hin
        exact h j t ht hblocked' hin'
      · rw [← hu] at hblocked hin
        exact h j t ht hblocked hin

theorem stage_wake_ne (t : LogicThread) : t.wake.stage ≠ .blocked := by
  unfold LogicThread.wake
  split_ifs with hs
  · simp
  · exact hs

/-- While the IO thread notifies nobody, nobody is asleep with messages waiting;
then one worker gets messages and is about to be notified. -/
theorem awake_append (h : s.Awake) (hidle : s.notifying = none) (i : ℕ) : (s.append i).Awake := by
  unfold append
  cases s.threads[i]? with
  | none => exact h
  | some t =>
      simp only
      split_ifs
      · exact h
      · intro j u hu hs hin
        simp only [modify, List.getElem?_modify] at hu
        by_cases hj : i = j
        · rw [hj]
        · cases ht : s.threads[j]? with
          | none => simp [ht] at hu
          | some t' =>
              simp only [ht, hj, if_false, Option.map_eq_map, Option.map_some,
                Option.some.injEq] at hu
              subst hu
              have hother := h j t' ht hs hin
              rw [hidle] at hother
              cases hother

/-- The worker notified is no longer asleep, and no other one was to be notified. -/
theorem awake_notify (h : s.Awake) {i : ℕ} (hnot : s.notifying = some i) :
    Awake { s.modify i LogicThread.wake with notifying := none } := by
  intro j u hu hs hin
  simp only [modify, List.getElem?_modify] at hu
  cases ht : s.threads[j]? with
  | none => simp [ht] at hu
  | some t =>
      simp only [ht, Option.map_eq_map, Option.map_some, Option.some.injEq] at hu
      split_ifs at hu with hj
      · rw [← hu] at hs
        exact absurd hs (stage_wake_ne t)
      · subst hu
        have hother := h j t ht hs hin
        rw [hnot] at hother
        exact absurd (Option.some.inj hother) hj

theorem awake_addMsgs (h : s.Awake) (i : ℕ) : (s.addMsgs i).Awake := by
  unfold addMsgs
  cases ht : s.threads[i]? with
  | none => exact h
  | some t =>
      intro j u hu hs hin
      rcases eq_or_ne j i with rfl | hj
      · rw [List.getElem?_set_self (List.getElem?_eq_some_iff.mp ht).1] at hu
        obtain rfl := Option.some.inj hu
        unfold LogicThread.addMsgs at hs hin
        split_ifs at hs hin
        · exact h j t ht hs hin
      · rw [List.getElem?_set_ne (Ne.symm hj)] at hu
        exact h j u hu hs hin

/-- Only a worker that begins to wait can oversleep. -/
theorem awake_step (h : s.Awake) {a : Act} (ha : ∀ i, a ≠ .wait i) : (s.step a).Awake := by
  cases a with
  | dispatch msg =>
      unfold step dispatch
      simp only
      split_ifs
      · exact h
      · split
        · exact h
        · exact h.modify (f := fun t => t.receive msg) (fun t hs hin => ⟨hs, hin⟩) _
      · exact h
  | append i =>
      unfold step
      simp only
      split_ifs with hidle
      · exact awake_append h hidle i
      · exact h
  | notify =>
      unfold step
      cases hnot : s.notifying with
      | none => exact h
      | some i => exact awake_notify h hnot
  | drain =>
      unfold step
      simp only
      split_ifs <;> exact h
  | wait i => exact absurd rfl (ha i)
  | wake i => exact h.modify (fun t hs _ => absurd hs (stage_wake_ne t)) i
  | swap i =>
      apply h.modify
      intro t hs hin
      unfold LogicThread.swap at hs hin
      split_ifs at hs hin
      · exact ⟨hs, hin⟩
  | handle i dosthId =>
      apply h.modify
      intro t
      unfold LogicThread.handle
      split
      · intro hs
        cases hs
      · exact fun hs hin => ⟨hs, hin⟩
  | addMsgs i => exact awake_addMsgs h i
  | clear i =>
      apply h.modify
      intro t hs hin
      unfold LogicThread.clear at hs hin
      split_ifs at hs hin
      · exact ⟨hs, hin⟩

theorem awake_wait_iff (h : s.Awake) (i : ℕ) :
    (s.step (.wait i)).Awake ↔ s.SleepsSafely (.wait i) := by
  constructor
  · intro h' t ht htop
    have hwait : (s.step (.wait i)).threads[i]? = some { t with stage := .blocked } := by
      have hnow : s.threads[i]? = some t := ht
      simp [step, modify, hnow, LogicThread.wait, htop]
    by_cases hin : t.worker.msgsIn = []
    · exact .inl hin
    · exact .inr (h' i _ hwait rfl hin)
  · intro hsafe j u hu hs hin
    simp only [step, modify, List.getElem?_modify] at hu
    cases ht : s.threads[j]? with
    | none => simp [ht] at hu
    | some t =>
        simp only [ht, Option.map_eq_map, Option.map_some, Option.some.injEq] at hu
        split_ifs at hu with hij
        · subst hij hu
          unfold LogicThread.wait at hs hin
          split_ifs at hs hin with htop
          · -- the worker that begins to wait
            exact (hsafe t ht htop).resolve_left hin
          · exact h i t ht hs hin
        · subst hu
          exact h j t ht hs hin

theorem awake_step_iff (h : s.Awake) (a : Act) : (s.step a).Awake ↔ s.SleepsSafely a := by
  cases a with
  | wait i => exact awake_wait_iff h i
  | _ => exact iff_of_true (awake_step h (by simp)) trivial

theorem awake_init (names : List (List UInt8)) : (init names).Awake := by
  intro i t ht hs _
  simp only [init, List.getElem?_map, Option.map_eq_some_iff] at ht
  obtain ⟨name, _, rfl⟩ := ht
  cases hs

/-- **When no wake-up is lost.** In every interleaving, a worker that is blocked with
messages waiting is always about to be notified, if and only if each worker that
begins to wait has no messages waiting or will still be notified. The code does not
look before it waits. -/
theorem awake_iff_along (names : List (List UInt8)) (acts : List Act) :
    (∀ as, as <+: acts → (run step (init names) as).Awake) ↔
      Along step SleepsSafely (init names) acts :=
  always_iff_along (I := Awake) (fun _ a h => awake_step_iff h a) (awake_init names) acts

/-- A message comes in and its worker is notified before its first wait. -/
def early : List Act :=
  [.dispatch { uid := 1, msgId := 7, msg := .new .userOnlineReq }, .append 0, .notify, .wait 0]

/-- A wake-up can be lost: the worker sleeps on its message, and nobody is about to
notify it. -/
theorem not_awake_early :
    ¬ ∀ (names : List (List UInt8)) (acts : List Act), (run step (init names) acts).Awake := by
  intro h
  have hawake := h [workerName] early 0 _ rfl (by decide) (by decide)
  revert hawake
  decide

end LogicThreads

end Rubo.Server
