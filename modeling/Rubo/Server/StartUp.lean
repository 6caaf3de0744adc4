import Rubo.Msgs.ProtoFiles
import Rubo.Server.InitSql
import Rubo.Util.TcpStart

/-!
# What a Start Leaves Open

`ServerMain::init()` starts a Gate and a Logic, or one of them. Each connects to the
database, reads the message definitions and opens a `TcpOp`. Any call on the way may fail,
and what has been opened by then is closed at several places, some of them called twice
and some empty: `Gate::unit()` and `Logic::unit()` hide `ServerBase::unit()` and do
nothing.

- `started`: a start that succeeds holds three descriptors for each of the two, one of
  which watches another;
- `start_failed`: one that fails leaves open at most the connection to the database, and
  what the Gate holds when it is the Logic that fails.

In both cases nothing is closed that was open before.
-/

namespace Rubo.Server

open Rubo.Foundation Rubo.Foundation.FdTable Rubo.Msgs Rubo.Util

/-- What a start depends on: the kernel, the files, and the statements in `mysql.sql`. -/
structure World where
  sys : System
  fs : ProtoFiles
  sqls : List StdString

/-! ## The database

Of the connector it is assumed that a connection is one descriptor, which the first
`close()` closes and a second one leaves alone. A call that fails answers with nothing;
an exception, which `init()` does not catch, would end the process and is left out. -/

namespace MysqlDb

/-- `unit()`, for the descriptor of `_conn`, if that is open. -/
def unit (conn : Option Int32) (k : FdTable) : Option Int32 × FdTable :=
  match conn with
  | none => (none, k)
  | some conn => (none, k.closeFd conn)

/-- `init_sql()`: the script is read and closed before the first statement is executed. -/
def runScript (w : World) (conn : Int32) (k : FdTable) : Bool × FdTable :=
  let (ifs, k) := k.openFd w.sys
  if ifs < 0 then (false, k)
  else executeAll (fun k _ => k.useFd w.sys conn) w.sqls (k.closeFd ifs)

/-- `init()` from the connection on. -/
def prepare (w : World) (conn : Int32) (k : FdTable) : Bool × Option Int32 × FdTable :=
  let (isValid, k) := k.useFd w.sys conn
  if isValid = false then (false, unit (some conn) k)
  else
    -- `setSchema` and `setAutoCommit`
    let (_, k) := k.useFd w.sys conn
    let (_, k) := k.useFd w.sys conn
    let (stmt, k) := k.useFd w.sys conn
    if stmt = false then (false, unit (some conn) k)
    else
      let (done, k) := runScript w conn k
      if done = false then (false, unit (some conn) k) else (true, some conn, k)

/-- `init()` -/
def init (w : World) (k : FdTable) : Bool × Option Int32 × FdTable :=
  let (driver, k) := k.request w.sys
  if driver = false then (false, none, k)
  else
    let (conn, k) := k.openFd w.sys
    if conn < 0 then (false, unit none k) else prepare w conn k

/-- How `init()` ends. -/
inductive Init (k₀ : FdTable) : Bool × Option Int32 × FdTable → Prop
  | fails {k : FdTable} (h : Owns k₀ k ∅) : Init k₀ (false, none, k)
  | ready {conn : Int32} {k : FdTable} (h : Owns k₀ k {conn}) : Init k₀ (true, some conn, k)

variable {k₀ k : FdTable} {own : Finset Int32}

theorem executeAll_owns (sys : System) (conn : Int32) (sqls : List StdString)
    (h : Owns k₀ k own) :
    Owns k₀ (executeAll (fun k _ => k.useFd sys conn) sqls k).2 own := by
  induction sqls generalizing k with
  | nil => exact h
  | cons sql sqls ih =>
      rw [executeAll]
      simp only
      split_ifs
      · exact h.useFd sys conn
      · exact ih (h.useFd sys conn)

theorem runScript_owns (w : World) (conn : Int32) (h : Owns k₀ k own) :
    Owns k₀ (runScript w conn k).2 own := by
  have hopens := h.openFd w.sys
  unfold runScript
  generalize k.openFd w.sys = r at hopens ⊢
  cases hopens with
  | fails h => exact h
  | opens hnot h =>
      simp only [if_neg (h.not_neg (Finset.mem_insert_self _ _))]
      exact executeAll_owns w.sys conn w.sqls (h.close_opened hnot)

theorem unit_owns {conn : Int32} (h : Owns k₀ k {conn}) :
    Init k₀ (false, unit (some conn) k) := .fails (h.close_opened (Finset.notMem_empty _))

theorem prepare_init (w : World) {conn : Int32} (h : Owns k₀ k {conn}) :
    Init k₀ (prepare w conn k) := by
  have hvalid := h.useFd w.sys conn
  have hset := ((hvalid.useFd w.sys conn).useFd w.sys conn).useFd w.sys conn
  have hscript := runScript_owns w conn hset
  unfold prepare
  simp only
  split_ifs
  · exact unit_owns hvalid
  · exact unit_owns hset
  · exact unit_owns hscript
  · exact .ready hscript

/-- A connection, or nothing. -/
theorem init_init (w : World) (h : Owns k₀ k ∅) : Init k₀ (init w k) := by
  have hrequest := h.request w.sys
  have hopens := hrequest.openFd w.sys
  unfold init
  generalize k.request w.sys = driver at hrequest hopens ⊢
  obtain ⟨driver, k⟩ := driver
  simp only at hrequest hopens ⊢
  generalize k.openFd w.sys = r at hopens ⊢
  split_ifs with hdriver hneg
  · exact .fails hrequest
  · cases hopens with
    | fails h => exact .fails h
    | opens hnot h => exact absurd hneg (h.not_neg (Finset.mem_insert_self _ _))
  · cases hopens with
    | fails h => exact absurd (by decide : (-1 : Int32) < 0) hneg
    | opens hnot h => exact prepare_init w h

end MysqlDb

/-! ## Gate and Logic -/

namespace ServerBase

/-- `unit()`: the second `if` asks for the `MsgCenter` and closes the database again. -/
def unit (conn : Option Int32) (k : FdTable) : Option Int32 × FdTable :=
  let (conn, k) := MysqlDb.unit conn k
  MysqlDb.unit conn k

/-- `init()` -/
def init (w : World) (k : FdTable) : Bool × Option Int32 × FdTable :=
  let (connected, conn, k) := MysqlDb.init w k
  if connected = false then (false, unit conn k)
  else
    let (read, k) := MsgCenter.init w.sys w.fs k
    if read = false then (false, unit conn k) else (true, conn, k)

theorem init_init {k₀ k : FdTable} (w : World) (h : Owns k₀ k ∅) :
    MysqlDb.Init k₀ (init w k) := by
  have hdb := MysqlDb.init_init w h
  unfold init
  generalize MysqlDb.init w k = r at hdb ⊢
  cases hdb with
  | fails h => exact .fails h
  | ready h =>
      have hread := MsgCenter.init_owns w.sys w.fs h
      simp only [Bool.true_eq_false, if_false]
      split_ifs
      · exact MysqlDb.unit_owns hread
      · exact .ready hread

end ServerBase

/-- What a Gate or a Logic holds: its connection to the database and its `TcpOp`. -/
structure Held where
  conn : Option Int32
  tcp : TcpFds

/-- `init()` of a Gate and of a Logic, with the network of each. Behind a failure each
calls its own `unit()`, which is empty. -/
def initServer (w : World) (net : FdTable → Bool × TcpFds × FdTable) (tcp : TcpFds)
    (k : FdTable) : Bool × Held × FdTable :=
  let (inited, conn, k) := ServerBase.init w k
  -- the empty `unit()`, here and below
  if inited = false then (false, ⟨conn, tcp⟩, k)
  else
    let (inited, tcp, k) := net k
    if inited = false then (false, ⟨conn, tcp⟩, k) else (true, ⟨conn, tcp⟩, k)

/-- The `TcpOp` of the Gate's IO thread. -/
def GateIO.newTcp : TcpFds := .new .server "127.0.0.1" 8881

/-- The `TcpOp` of the Logic's IO thread. -/
def LogicIO.newTcp : TcpFds := .new .client "127.0.0.1" 8881

/-- `GateIO::init()` -/
def GateIO.initFds (w : World) (k : FdTable) : Bool × TcpFds × FdTable :=
  TcpFds.orUnit (newTcp.init w.sys k)

/-- `GateMngr::init()`. There are no workers to stop yet. -/
def GateMngr.initFds (w : World) (k : FdTable) : Bool × TcpFds × FdTable :=
  TcpFds.orUnit <| GateIO.initFds w k

/-- `LogicIO::init_net()`; `verify_to_gate()` writes to the connection. -/
def LogicIO.initNet (w : World) (k : FdTable) : Bool × TcpFds × FdTable :=
  let (inited, tcp, k) := LogicIO.newTcp.init w.sys k
  if inited = false then (false, tcp, k)
  else
    let (verified, k) := k.useFd w.sys tcp.sockFd
    if verified = false then (false, tcp, tcp.unit k) else (true, tcp, k)

/-- `LogicIO::init()` -/
def LogicIO.initFds (w : World) (k : FdTable) : Bool × TcpFds × FdTable :=
  TcpFds.orUnit (initNet w k)

/-- `Gate::init()` -/
def Gate.initFds (w : World) : FdTable → Bool × Held × FdTable :=
  initServer w (GateMngr.initFds w) GateIO.newTcp

/-- `Logic::init()`. The one worker it makes opens nothing and cannot fail. -/
def Logic.initFds (w : World) : FdTable → Bool × Held × FdTable :=
  initServer w (fun k => LogicIO.initFds w k) LogicIO.newTcp

/-- `GateWorker::init()`, for the connection of a Logic. What it answers is what
`GateIO.onLogicVerifyed` asks for. -/
def GateWorker.initFds (w : World) (logicFd : Int32) (k : FdTable) : Bool × TcpFds × FdTable :=
  let tcp := TcpFds.new .epoll "" 0
  let (read, k) := MsgCenter.init w.sys w.fs k
  if read = false then (false, tcp, k)
  else
    let (inited, tcp, k) := tcp.init w.sys k
    if inited = false then (false, tcp, tcp.unit k)
    else
      let (added, k) := tcp.epollAdd w.sys k logicFd
      if added = false then (false, tcp, tcp.unit k) else (true, tcp, k)

section Parts

variable {k₀ k : FdTable} (w : World)

theorem GateMngr.initFds_init (h : Owns k₀ k ∅) : TcpFds.Init k₀ (GateMngr.initFds w k) :=
  (TcpFds.init_init w.sys (.inl rfl) rfl rfl h).orUnit.orUnit

theorem LogicIO.initFds_init (h : Owns k₀ k ∅) : TcpFds.Init k₀ (initFds w k) := by
  have hinit := TcpFds.init_init w.sys (t := LogicIO.newTcp) (.inr rfl) rfl rfl h
  refine TcpFds.Init.orUnit ?_
  unfold LogicIO.initNet
  generalize LogicIO.newTcp.init w.sys k = r at hinit ⊢
  cases hinit with
  | fails hsound h => exact .fails hsound h
  | ready h hne hwatched =>
      rename_i tcp k'
      have hverify : TcpFds.Init k₀ (true, tcp, (k'.useFd w.sys tcp.sockFd).2) :=
        .ready (h.useFd w.sys tcp.sockFd) hne hwatched
      simp only [Bool.true_eq_false, if_false]
      split_ifs
      · exact .fails hverify.sound.unit hverify.sound.unit_owns
      · exact hverify

/-- How `init()` of a worker ends. -/
inductive GateWorker.Init (k₀ : FdTable) (logicFd : Int32) : Bool × TcpFds × FdTable → Prop
  | fails {tcp : TcpFds} {k : FdTable} (h : Owns k₀ k ∅) :
      GateWorker.Init k₀ logicFd (false, tcp, k)
  | ready {tcp : TcpFds} {k : FdTable} (h : Owns k₀ k {tcp.epollFd})
      (hwatched : (tcp.epollFd, logicFd) ∈ k.watches) : GateWorker.Init k₀ logicFd (true, tcp, k)

/-- A worker opens one descriptor, which watches that of its Logic, or nothing. -/
theorem GateWorker.initFds_init (logicFd : Int32) (h : Owns k₀ k ∅) :
    GateWorker.Init k₀ logicFd (GateWorker.initFds w logicFd k) := by
  have hread := MsgCenter.init_owns w.sys w.fs h
  unfold GateWorker.initFds
  generalize MsgCenter.init w.sys w.fs k = r at hread ⊢
  obtain ⟨read, k₁⟩ := r
  have hcreated := TcpFds.init_created w.sys (t := .new .epoll "" 0) rfl rfl hread
  simp only at hcreated ⊢
  generalize (TcpFds.new .epoll "" 0).init w.sys k₁ = r at hcreated ⊢
  split_ifs with hfailed hinit hadded
  · exact .fails hread
  · cases hcreated with
    | fails h => exact .fails h
    | ready h => cases hinit
  · cases hcreated with
    | fails h => exact absurd rfl hinit
    | ready h =>
        rename_i epollFd k
        have hnot := h.fresh epollFd (Finset.mem_singleton_self _)
        have hsound : TcpFds.Sound k₀ { TcpFds.new .epoll "" 0 with epollFd } _ :=
          ⟨⟨_, Finset.subset_insert _ _, h.watch w.sys hnot logicFd⟩, fun hne => absurd rfl hne,
            fun _ => hnot⟩
        exact .fails hsound.unit_owns
  · cases hcreated with
    | fails h => exact absurd rfl hinit
    | ready h =>
        rename_i epollFd k
        have hnot := h.fresh epollFd (Finset.mem_singleton_self _)
        have hwatched := mem_of_watch (Bool.eq_true_of_not_eq_false hadded)
        exact .ready (h.watch w.sys hnot logicFd) hwatched.2.2

/-- All that a running Gate or Logic holds. -/
structure Held.Runs (s : Held) (k : FdTable) (own : Finset Int32) : Prop where
  conn : ∃ conn, s.conn = some conn ∧ own = {conn, s.tcp.sockFd, s.tcp.epollFd}
  card : own.card = 3
  watched : (s.tcp.epollFd, s.tcp.sockFd) ∈ k.watches

/-- How `init()` of a Gate or a Logic ends. -/
inductive Held.Init (k₀ : FdTable) : Bool × Held × FdTable → Prop
  /-- Nothing is left but the connection to the database. -/
  | fails {s : Held} {k : FdTable} {own : Finset Int32} (h : Owns k₀ k own)
      (hconn : ∀ fd ∈ own, s.conn = some fd) : Held.Init k₀ (false, s, k)
  | ready {s : Held} {k : FdTable} {own : Finset Int32} (h : Owns k₀ k own)
      (hruns : s.Runs k own) : Held.Init k₀ (true, s, k)

theorem initServer_init {net : FdTable → Bool × TcpFds × FdTable} {tcp : TcpFds}
    (hnet : ∀ {k₀ k}, Owns k₀ k ∅ → TcpFds.Init k₀ (net k)) (h : Owns k₀ k ∅) :
    Held.Init k₀ (initServer w net tcp k) := by
  have hbase := ServerBase.init_init w h
  unfold initServer
  generalize ServerBase.init w k = r at hbase ⊢
  cases hbase with
  | fails h => exact .fails h fun fd hfd => absurd hfd (Finset.notMem_empty fd)
  | ready h =>
      rename_i conn k'
      have hinit := hnet (Owns.refl (h.subset h.stdin))
      simp only [Bool.true_eq_false, if_false]
      generalize net k' = r at hinit ⊢
      cases hinit with
      | fails hsound h' =>
          -- `unit()` is empty: the connection stays
          refine .fails (h.trans h') fun fd hfd => ?_
          rw [Finset.union_empty, Finset.mem_singleton] at hfd
          rw [hfd]
      | ready h' hne hwatched =>
          refine .ready (h.trans h') ⟨⟨conn, rfl, rfl⟩, ?_, hwatched⟩
          have hconn : conn ∈ k'.fds := h.own_subset (Finset.mem_singleton_self _)
          rw [Finset.singleton_union, Finset.card_insert_of_notMem, Finset.card_pair hne]
          -- the network has been given other numbers than the connection
          exact fun hmem => h'.fresh conn hmem hconn

theorem Gate.initFds_init (h : Owns k₀ k ∅) : Held.Init k₀ (Gate.initFds w k) :=
  initServer_init w (GateMngr.initFds_init w) h

theorem Logic.initFds_init (h : Owns k₀ k ∅) : Held.Init k₀ (Logic.initFds w k) := by
  apply initServer_init w _ h
  exact LogicIO.initFds_init w

end Parts

/-! ## ServerMain -/

namespace ServerMain

/-- `init()`, as far as the words of the command line go: whether a Gate and whether a
Logic is to run. -/
def parse (param : String) : Option (Bool × Bool) :=
  if param = "" then some (true, true)
  else if ¬ "--".toList <+: param.toList then none
  else
    let runGate := decide ("gate".toList <:+: param.toList)
    let runLogic := decide ("logic".toList <:+: param.toList)
    if runGate = false ∧ runLogic = false then none else some (runGate, runLogic)

/-- `init_system()`: two limits. -/
def initSystem (sys : System) (k : FdTable) : Bool × FdTable :=
  let (core, k) := k.request sys
  if core = false then (false, k) else k.request sys

/-- A part that is started if it is to run. -/
def initIf (init : FdTable → Bool × Held × FdTable) (run : Bool) (k : FdTable) :
    Bool × Option Held × FdTable :=
  if run = true then
    let (inited, s, k) := init k
    (inited, some s, k)
  else (true, none, k)

/-- `init(param)` behind `init_system()`. -/
def initBoth (w : World) (runGate runLogic : Bool) (k : FdTable) :
    Bool × Option Held × Option Held × FdTable :=
  let (inited, gate, k) := initIf (Gate.initFds w) runGate k
  if inited = false then (false, gate, none, k)
  else
    let (inited, logic, k) := initIf (Logic.initFds w) runLogic k
    if inited = false then (false, gate, logic, k) else (true, gate, logic, k)

/-- `init(param)`, with what `_gate` and `_logic` hold behind it. -/
def initFds (w : World) (param : String) (k : FdTable) :
    Bool × Option Held × Option Held × FdTable :=
  match parse param with
  | none => (false, none, none, k)
  | some (runGate, runLogic) =>
    let (limits, k) := initSystem w.sys k
    if limits = false then (false, none, none, k) else initBoth w runGate runLogic k

/-- All that is held by what runs. -/
def Holds (s : Option Held) (k : FdTable) (own : Finset Int32) : Prop :=
  match s with
  | none => own = ∅
  | some s => s.Runs k own

/-- How a part ends. -/
inductive Part (k₀ : FdTable) (run : Bool) : Bool × Option Held × FdTable → Prop
  | fails {s : Option Held} {k : FdTable} {own : Finset Int32} (h : Owns k₀ k own)
      (hconn : ∀ fd ∈ own, s.bind Held.conn = some fd) : Part k₀ run (false, s, k)
  | ready {s : Option Held} {k : FdTable} {own : Finset Int32} (h : Owns k₀ k own)
      (hholds : Holds s k own) (hrun : s.isSome = run) : Part k₀ run (true, s, k)

variable {k₀ k : FdTable}

theorem initIf_part {init : FdTable → Bool × Held × FdTable} (run : Bool) (h : Owns k₀ k ∅)
    (hinit : Held.Init k₀ (init k)) : Part k₀ run (initIf init run k) := by
  unfold initIf
  split_ifs with hrun
  · generalize init k = r at hinit ⊢
    cases hinit with
    | fails h hconn => exact .fails h hconn
    | ready h hruns => exact .ready h hruns hrun.symm
  · exact .ready h rfl (Bool.eq_false_of_not_eq_true hrun).symm

/-- What runs goes on holding what it holds. -/
theorem Holds.later {s : Option Held} {own own' : Finset Int32} {k₁ : FdTable}
    (hholds : Holds s k own) (h : Owns k₀ k own) (h' : Owns k k₁ own') : Holds s k₁ own := by
  cases s with
  | none => exact hholds
  | some s =>
      obtain ⟨conn, hconn, hown⟩ := hholds.conn
      refine ⟨hholds.conn, hholds.card, ?_⟩
      have hsub := h.own_subset
      rw [hown] at hsub
      rw [h'.watches]
      · exact hholds.watched
      · exact hsub (by simp)
      · exact hsub (by simp)

theorem initSystem_owns {own : Finset Int32} (sys : System) (h : Owns k₀ k own) :
    Owns k₀ (initSystem sys k).2 own := by
  unfold initSystem
  simp only
  split_ifs
  · exact h.request sys
  · exact (h.request sys).request sys

/-- What the second part opens is not what the first one holds. -/
theorem disjoint_own {g l : Finset Int32} {k₁ : FdTable} (h : Owns k₀ k g) (h' : Owns k k₁ l) :
    Disjoint g l := by
  rw [Finset.disjoint_left]
  exact fun fd hg hl => h'.fresh fd hl (h.own_subset hg)

/-- How a start may end, and what it leaves open. -/
inductive Start (k₀ : FdTable) (param : String) :
    Bool × Option Held × Option Held × FdTable → Prop
  /-- What is to run holds all that it needs. -/
  | ready {gate logic : Option Held} {k : FdTable} {g l : Finset Int32}
      (h : Owns k₀ k (g ∪ l)) (hdisjoint : Disjoint g l)
      (hgate : Holds gate k g) (hlogic : Holds logic k l)
      (hparse : parse param = some (gate.isSome, logic.isSome)) :
      Start k₀ param (true, gate, logic, k)
  /-- At most the Gate's connection to the database is left. -/
  | noGate {gate : Option Held} {k : FdTable} {g : Finset Int32} (h : Owns k₀ k g)
      (hconn : ∀ fd ∈ g, gate.bind Held.conn = some fd) : Start k₀ param (false, gate, none, k)
  /-- The Gate is there, and at most the Logic's connection to the database. -/
  | noLogic {gate logic : Option Held} {k : FdTable} {g l : Finset Int32}
      (h : Owns k₀ k (g ∪ l)) (hdisjoint : Disjoint g l) (hgate : Holds gate k g)
      (hconn : ∀ fd ∈ l, logic.bind Held.conn = some fd) :
      Start k₀ param (false, gate, logic, k)

/-- Nothing has been opened yet. -/
theorem Start.empty {param : String} (h : Owns k₀ k ∅) : Start k₀ param (false, none, none, k) :=
  .noGate h fun fd hfd => absurd hfd (Finset.notMem_empty fd)

theorem initBoth_start (w : World) {param : String} {runGate runLogic : Bool}
    (hparse : parse param = some (runGate, runLogic)) (h : Owns k₀ k ∅) :
    Start k₀ param (initBoth w runGate runLogic k) := by
  have hgate : Part k₀ runGate (initIf (Gate.initFds w) runGate k) :=
    initIf_part runGate h (Gate.initFds_init w h)
  unfold initBoth
  generalize initIf (Gate.initFds w) runGate k = r at hgate ⊢
  cases hgate with
  | fails h hconn => exact .noGate h hconn
  | ready h hholds hrun =>
      rename_i gate k₁ g
      -- for the Logic all that the Gate holds was there before
      have hself := Owns.refl (h.subset h.stdin)
      have hlogic : Part k₁ runLogic (initIf (Logic.initFds w) runLogic k₁) :=
        initIf_part runLogic hself (Logic.initFds_init w hself)
      simp only [Bool.true_eq_false, if_false]
      generalize initIf (Logic.initFds w) runLogic k₁ = r at hlogic ⊢
      cases hlogic with
      | fails h' hconn =>
          exact .noLogic (h.trans h') (disjoint_own h h') (hholds.later h h') hconn
      | ready h' hholds' hrun' =>
          refine .ready (h.trans h') (disjoint_own h h') (hholds.later h h') hholds' ?_
          rw [hparse, hrun, hrun']

/-- **What a start leaves open**, whichever calls fail in it. When `init()` says yes, the
Gate and the Logic hold three descriptors each and no others are open than before; when
it says no, at most the connections to the database are left, and what the Gate holds
when it is the Logic that could not be started. What was open before is open, and what was
watched is watched, although numbers are closed more than once. -/
theorem start_balanced (w : World) (param : String) (k : FdTable) (hstdin : 0 ∈ k.fds) :
    Start k param (initFds w param k) := by
  have h := Owns.refl hstdin
  unfold initFds
  cases hparse : parse param with
  | none => exact .empty h
  | some run =>
      obtain ⟨runGate, runLogic⟩ := run
      have hsystem := initSystem_owns w.sys h
      simp only
      split_ifs
      · exact .empty hsystem
      · exact initBoth_start w hparse hsystem

/-- A directory with nothing but `login.proto` in it. -/
def onlyLogin : ProtoFiles where
  readDir path :=
    if path = MsgCenter.protoDir then some [MsgCenter.loginProto] else none
  isDir _ := false
  importFile _ _ := true
  short _ h := absurd h Bool.false_ne_true

theorem init_onlyLogin (sys : System) (k : FdTable) (h : ¬ (k.openFd sys).1 < 0) :
    MsgCenter.init sys onlyLogin k = (true, (k.openFd sys).2.closeFd (k.openFd sys).1) := by
  have hread : onlyLogin.readDir MsgCenter.protoDir = some [MsgCenter.loginProto] := by decide
  rw [MsgCenter.init, MsgCenter.initGoogleProtos, hread]
  simp only [if_neg h]
  rw [MsgCenter.readLoop, if_neg (by decide)]
  simp [onlyLogin, MsgCenter.readLoop]

/-- There are descriptors for the connection to the database and for what is opened one
after the other, but not for two more. -/
def cramped : World := ⟨MsgCenter.twoMore, onlyLogin, []⟩

/-- The Gate cannot listen, and its connection to the database stays. -/
theorem start_balanced_cramped :
    let r := initFds cramped "--gate" MsgCenter.console
    Start MsgCenter.console "--gate" r ∧ r.1 = false ∧ r.2.2.2.fds = {0, 1, 2, 3} := by
  refine ⟨start_balanced cramped "--gate" MsgCenter.console (by decide), ?_⟩
  have hparse : parse "--gate" = some (true, false) := by decide
  have hsystem : initSystem cramped.sys MsgCenter.console =
      (true, MsgCenter.console.tick.tick) := rfl
  have hdb : (MysqlDb.init cramped MsgCenter.console.tick.tick).1 = true := by decide
  have hfs : cramped.fs = onlyLogin := rfl
  unfold initFds initBoth initIf Gate.initFds initServer ServerBase.init
  rw [hparse]
  simp only [hsystem, hdb, Bool.true_eq_false, if_false]
  -- the directory is opened and closed: what follows can be computed
  rw [hfs, init_onlyLogin]
  · simp only [Bool.true_eq_false, if_false]
    decide
  · decide

end ServerMain

end Rubo.Server
