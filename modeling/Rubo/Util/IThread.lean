import Mathlib.Data.List.Chain
import Mathlib.Data.List.Forall2
import Rubo.Foundation.Machine

/-!
# The Timer of a Thread

`thread_func` of `util/IThread.cpp` calls `timer_events` after every pass of
`thread_loop`, which may take as long as it likes. `timer_events` reads the clock
and calls `on_next_second`, `on_next_minute` and `on_next_hour` when `tm_sec`,
`tm_min` or `tm_hour` differ from those it has saved.

These fields are hands of a clock and come back to where they were.
`followsClock_iff` says when that is noticed: the callbacks follow the clock
exactly in the runs where, from one call to the next, no hand has gone round a
whole number of times.
-/

namespace Rubo.Util

open Rubo.Foundation

/-! ## The clock -/

/-- The fields of `std::tm` that are looked at. -/
structure Tm where
  tmSec : ℤ
  tmMin : ℤ
  tmHour : ℤ
  deriving DecidableEq, Repr

/-- `std::localtime` in a zone that is `zone` seconds ahead. -/
def localtime (zone t : ℤ) : Tm where
  tmSec := (t + zone) % 60
  tmMin := (t + zone) / 60 % 60
  tmHour := (t + zone) / 3600 % 24

/-- `system_clock::to_time_t(nowt)`, of a reading in nanoseconds. -/
def toTimeT (nowt : ℤ) : ℤ := nowt.tdiv 1000000000

/-- The second the wall clock shows, counted through. -/
def wallSecond (zone nowt : ℤ) : ℤ := toTimeT nowt + zone

def wallMinute (zone nowt : ℤ) : ℤ := wallSecond zone nowt / 60

def wallHour (zone nowt : ℤ) : ℤ := wallSecond zone nowt / 3600

/-! ## The thread -/

/-- What `timer_events` calls and logs. -/
inductive TimerEvent where
  | onNextSecond
  | onNextMinute
  | onNextHour
  /-- `Log("定时间隔超过1秒。")` -/
  | late
  deriving DecidableEq, Repr

/-- The fields of an `IThread`. -/
structure IThread where
  quit : Bool
  isOver : Bool
  lastMs : ℤ
  lastS : ℤ
  lastTm : Tm
  deriving DecidableEq, Repr

namespace IThread

def new : IThread where
  quit := false
  isOver := true
  lastMs := 0
  lastS := 0
  lastTm := ⟨0, 0, 0⟩

def isRunning (t : IThread) : Bool := t.quit == false

def stop (t : IThread) : IThread := { t with quit := true }

def tover (t : IThread) : IThread := { t with isOver := true }

variable (zone : ℤ)

def initTime (t : IThread) (nowt : ℤ) : IThread :=
  { t with
    lastMs := nowt.tdiv 1000000
    lastS := toTimeT nowt
    lastTm := localtime zone (toTimeT nowt) }

/-- `start()`: the thread that begins to run, unless it has been stopped before. -/
def start (t : IThread) (nowt : ℤ) : Option IThread :=
  if t.isRunning = false then none
  else some { t.initTime zone nowt with isOver := false }

def timerEvents (t : IThread) (nowt : ℤ) : List TimerEvent × IThread :=
  let curMs := nowt.tdiv 1000000
  let curS := toTimeT nowt
  let curTm := localtime zone curS
  let second := curTm.tmSec ≠ t.lastTm.tmSec
  let minute := curTm.tmMin ≠ t.lastTm.tmMin
  let hour := curTm.tmHour ≠ t.lastTm.tmHour
  let needUpdate := second ∨ minute ∨ hour
  ((if second then [.onNextSecond] else []) ++ (if minute then [.onNextMinute] else []) ++
    (if hour then [.onNextHour] else []) ++ (if curS - t.lastS > 1 then [.late] else []),
   { t with
     lastTm := if needUpdate then curTm else t.lastTm
     lastS := curS
     lastMs := curMs })

/-- What a pass of the loop of `thread_func` depends on. -/
structure Pass where
  /-- The clock, when `timer_events` reads it after `thread_loop()`. -/
  nowt : ℤ
  /-- `stop()` has been called before `is_running()` is next looked at. -/
  stopped : Bool

/-- `thread_func()`, as far as the passes go: what the timer does in each. -/
def threadFunc : IThread → List Pass → List (List TimerEvent) × IThread
  | t, [] => ([], t)
  | t, pass :: passes =>
    if t.isRunning then
      let (events, t) := t.timerEvents zone pass.nowt
      let t := if pass.stopped then t.stop else t
      let (rest, t) := threadFunc t passes
      (events :: rest, t)
    else
      ([], t.tover)

/-- The passes that are made. -/
def passesMade : List Pass → List Pass
  | [] => []
  | pass :: passes => pass :: if pass.stopped then [] else passesMade passes

/-- What the timer does in the calls after `init_time` has read `first`. -/
def fired (t : IThread) (first : ℤ) (readings : List ℤ) : List (List TimerEvent) :=
  (runT (timerEvents zone) (t.initTime zone first) readings).1

/-! ## The property and its condition -/

/-- A call at `cur`, the call before at `prev`: the callbacks are those the clock asks for. -/
def Agrees (prev cur : ℤ) (events : List TimerEvent) : Prop :=
  (.onNextSecond ∈ events ↔ wallSecond zone cur ≠ wallSecond zone prev) ∧
    (.onNextMinute ∈ events ↔ wallMinute zone cur ≠ wallMinute zone prev) ∧
    (.onNextHour ∈ events ↔ wallHour zone cur ≠ wallHour zone prev)

instance (prev cur : ℤ) (events : List TimerEvent) : Decidable (Agrees zone prev cur events) :=
  inferInstanceAs (Decidable (_ ∧ _ ∧ _))

/-- Every call agrees with the clock. -/
def FollowsClock (t : IThread) (first : ℤ) (readings : List ℤ) : Prop :=
  List.Forall₂ (fun p events => Agrees zone p.1 p.2 events) ((first :: readings).zip readings)
    (fired zone t first readings)

instance (t : IThread) (first : ℤ) (readings : List ℤ) :
    Decidable (FollowsClock zone t first readings) :=
  inferInstanceAs (Decidable (List.Forall₂ (fun (p : ℤ × ℤ) events => Agrees zone p.1 p.2 events)
    ((first :: readings).zip readings) (fired zone t first readings)))

/-- No hand of the clock has gone round a whole number of times, and not stood still. -/
def NoFullTurn (prev cur : ℤ) : Prop :=
  (60 ∣ wallSecond zone cur - wallSecond zone prev → wallSecond zone cur = wallSecond zone prev) ∧
    (60 ∣ wallMinute zone cur - wallMinute zone prev →
      wallMinute zone cur = wallMinute zone prev) ∧
    (24 ∣ wallHour zone cur - wallHour zone prev → wallHour zone cur = wallHour zone prev)

instance (prev cur : ℤ) : Decidable (NoFullTurn zone prev cur) :=
  inferInstanceAs (Decidable (_ ∧ _ ∧ _))

/-! ## One call -/

variable {zone} {t : IThread}

/-- The saved fields stand as the clock stood at the reading `nowt`. -/
structure Saved (zone : ℤ) (t : IThread) (nowt : ℤ) : Prop where
  lastTm : t.lastTm = localtime zone (toTimeT nowt)
  lastS : t.lastS = toTimeT nowt

theorem saved_initTime (zone : ℤ) (t : IThread) (nowt : ℤ) :
    Saved zone (t.initTime zone nowt) nowt := ⟨rfl, rfl⟩

/-- Where nothing is saved, nothing differs. -/
theorem saved_timerEvents (zone : ℤ) (t : IThread) (nowt : ℤ) :
    Saved zone (t.timerEvents zone nowt).2 nowt := by
  refine ⟨?_, rfl⟩
  unfold timerEvents
  simp only
  split_ifs with hupdate
  · rfl
  · simp only [not_or, not_not] at hupdate
    obtain ⟨hsec, hmin, hhour⟩ := hupdate
    cases hlast : t.lastTm with
    | mk tmSec tmMin tmHour =>
        rw [hlast] at hsec hmin hhour
        exact (Tm.mk.injEq ..).mpr ⟨hsec.symm, hmin.symm, hhour.symm⟩

/-- What a call does: each callback when its hand has moved, the log when more than a
second has passed. -/
theorem mem_timerEvents {prev : ℤ} (h : Saved zone t prev) (cur : ℤ) :
    (.onNextSecond ∈ (t.timerEvents zone cur).1 ↔
        ¬ 60 ∣ wallSecond zone cur - wallSecond zone prev) ∧
      (.onNextMinute ∈ (t.timerEvents zone cur).1 ↔
        ¬ 60 ∣ wallMinute zone cur - wallMinute zone prev) ∧
      (.onNextHour ∈ (t.timerEvents zone cur).1 ↔
        ¬ 24 ∣ wallHour zone cur - wallHour zone prev) ∧
      (.late ∈ (t.timerEvents zone cur).1 ↔ toTimeT cur - toTimeT prev > 1) := by
  unfold timerEvents
  simp only [h.lastTm, h.lastS, List.mem_append, List.mem_ite_nil_right, List.mem_singleton]
  simp only [localtime, wallSecond, wallMinute, wallHour, reduceCtorEq, and_false, and_true,
    or_false, false_or, ne_eq, Int.emod_eq_emod_iff_emod_sub_eq_zero,
    Int.dvd_iff_emod_eq_zero]

/-- A call agrees with the clock exactly when no hand has gone round. -/
theorem agrees_iff {prev : ℤ} (h : Saved zone t prev) (cur : ℤ) :
    Agrees zone prev cur (t.timerEvents zone cur).1 ↔ NoFullTurn zone prev cur := by
  obtain ⟨hsec, hmin, hhour, -⟩ := mem_timerEvents h cur
  have hhand : ∀ {n a b : ℤ}, (¬ n ∣ a - b ↔ a ≠ b) ↔ (n ∣ a - b → a = b) := by
    intro n a b
    constructor
    · intro hiff hdvd
      exact not_not.mp fun hne => hiff.mpr hne hdvd
    · intro himp
      refine ⟨fun hnot heq => hnot ?_, fun hne hdvd => hne (himp hdvd)⟩
      rw [heq, Int.sub_self]
      exact Int.dvd_zero n
  rw [Agrees, NoFullTurn, hsec, hmin, hhour, hhand, hhand, hhand]

/-! ## Runs -/

theorem forall₂_agrees_iff {first : ℤ} (h : Saved zone t first) (readings : List ℤ) :
    List.Forall₂ (fun p events => Agrees zone p.1 p.2 events) ((first :: readings).zip readings)
        (runT (timerEvents zone) t readings).1 ↔
      (first :: readings).IsChain (NoFullTurn zone) := by
  induction readings generalizing t first with
  | nil => simp [runT]
  | cons cur readings ih =>
      rw [List.isChain_cons_cons, ← ih (saved_timerEvents zone t cur), ← agrees_iff h cur]
      exact List.forall₂_cons

/-- **The callbacks follow the clock** in a run iff from no call to the next a hand of
the clock has gone round a whole number of times. -/
theorem followsClock_iff (zone : ℤ) (t : IThread) (first : ℤ) (readings : List ℤ) :
    FollowsClock zone t first readings ↔ (first :: readings).IsChain (NoFullTurn zone) :=
  forall₂_agrees_iff (saved_initTime zone t first) readings

/-- A thread blocked for a minute: no callback for the new second. -/
theorem not_followsClock_minute :
    [0, 60000000000].IsChain (· ≤ ·) ∧ ¬ FollowsClock 0 .new 0 [60000000000] := by
  decide

/-- A thread that stops does not look at the clock again. -/
theorem threadFunc_fst (zone : ℤ) (hrun : t.isRunning = true) (passes : List Pass) :
    (threadFunc zone t passes).1 =
      (runT (timerEvents zone) t ((passesMade passes).map Pass.nowt)).1 := by
  induction passes generalizing t with
  | nil => rfl
  | cons pass passes ih =>
      have hquit : (t.timerEvents zone pass.nowt).2.isRunning = true := hrun
      rw [threadFunc, if_pos hrun, passesMade]
      cases hstop : pass.stopped with
      | true =>
          have hdone : ∀ u : IThread, threadFunc zone u.stop passes = ([], u.stop) ∨
              threadFunc zone u.stop passes = ([], u.stop.tover) := by
            intro u
            cases passes with
            | nil => exact .inl rfl
            | cons pass passes => exact .inr rfl
          rcases hdone (t.timerEvents zone pass.nowt).2 with h | h <;>
            simp only [if_true, h, List.map_cons, List.map_nil, runT]
      | false => simp only [Bool.false_eq_true, if_false, List.map_cons, runT, ih hquit]

/-- The same for the timer of a thread that has been started, whatever its loop does. -/
theorem threadFunc_agrees_iff {t' : IThread} {first : ℤ} (hstart : t.start zone first = some t')
    (passes : List Pass) :
    let readings := (passesMade passes).map Pass.nowt
    List.Forall₂ (fun p events => Agrees zone p.1 p.2 events) ((first :: readings).zip readings)
        (threadFunc zone t' passes).1 ↔
      (first :: readings).IsChain (NoFullTurn zone) := by
  have hstarted : t'.isRunning = true ∧ Saved zone t' first := by
    unfold start at hstart
    split_ifs at hstart with hstopped
    obtain rfl := Option.some.inj hstart
    exact ⟨(Bool.not_eq_false _).mp hstopped, rfl, rfl⟩
  rw [threadFunc_fst zone hstarted.1]
  exact forall₂_agrees_iff hstarted.2 _

/-! ## Short gaps -/

theorem toTimeT_mono {prev cur : ℤ} (h : prev ≤ cur) : toTimeT prev ≤ toTimeT cur :=
  Int.tdiv_le_tdiv (by decide) h

/-- No hand goes round in less than a minute. -/
theorem noFullTurn_of_lt {prev cur : ℤ} (hle : prev ≤ cur)
    (hshort : toTimeT cur < toTimeT prev + 60) : NoFullTurn zone prev cur := by
  have hmono := toTimeT_mono hle
  unfold NoFullTurn wallMinute wallHour wallSecond
  omega

/-- A call that misses something writes the log. -/
theorem late_of_not_noFullTurn {prev cur : ℤ} (h : Saved zone t prev) (hle : prev ≤ cur)
    (hmissed : ¬ NoFullTurn zone prev cur) : .late ∈ (t.timerEvents zone cur).1 := by
  rw [(mem_timerEvents h cur).2.2.2]
  by_contra hshort
  exact hmissed (noFullTurn_of_lt hle (by omega))

/-- A thread whose passes take less than a minute each does not miss anything. -/
theorem followsClock_of_short {first : ℤ} {readings : List ℤ}
    (hshort : (first :: readings).IsChain fun prev cur =>
      prev ≤ cur ∧ toTimeT cur < toTimeT prev + 60) :
    List.Forall₂ (fun p events => Agrees zone p.1 p.2 events) ((first :: readings).zip readings)
      (fired zone t first readings) :=
  (forall₂_agrees_iff (saved_initTime zone t first) readings).mpr
    (hshort.imp fun _ _ h => noFullTurn_of_lt h.1 h.2)

end IThread

end Rubo.Util
