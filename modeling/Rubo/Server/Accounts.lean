import Mathlib.Data.Quot
import Rubo.Foundation.Accounts
import Rubo.Server.GateIOSteps
import Rubo.Server.LoginSql

/-!
# The Accounts Behind a Gate

The Gate keeps no accounts. It asks the database for each request, up to three times
for a registration, and its handlers put their replies together from the answers. The
database is another process, which nobody else changes; what is used of it is that it
reads statements by their tokens and answers every query, that the insert statement adds
the row it is given or nothing, and that the constraints of the table hold.

For names and passwords that may stand in the statements, the replies are those of a
store of accounts: `accounts_kept` for all runs of the IO thread, and `Lasting` for what
that means behind a registration. A reply is what a handler appends to `_rsp_msgs`;
which connection it is written to is decided later, in `handler_replys`, by a descriptor.

A spelling stands for all that the collation of the table takes for equal, in names and
in passwords.
-/

namespace Rubo.Server

open Rubo.Foundation Rubo.Foundation.Accounts Rubo.Msgs Rubo.Util SqlLexer

/-- How the table compares texts. -/
structure Collation where
  same : List UInt8 → List UInt8 → Bool
  equivalence : Equivalence fun x y => same x y = true

namespace Collation

variable (c : Collation)

def setoid : Setoid (List UInt8) := ⟨fun x y => c.same x y = true, c.equivalence⟩

/-- Texts up to the collation. -/
def Class : Type := Quotient c.setoid

def classOf (x : List UInt8) : c.Class := Quotient.mk c.setoid x

theorem classOf_eq_iff {x y : List UInt8} : c.classOf x = c.classOf y ↔ c.same x y = true :=
  ⟨fun h => Quotient.exact h, fun h => Quotient.sound h⟩

instance : DecidableEq c.Class :=
  @Quotient.decidableEq _ c.setoid fun x y => inferInstanceAs (Decidable (c.same x y = true))

end Collation

/-! ## The database -/

/-- The server, for the connection of a Gate: the answer to a query, and the number of
rows an insert statement with these values has changed, with what it has made of the
server. -/
structure MysqlServer (σ : Type*) where
  executeQuery : σ → List UInt8 → Option (List Int32)
  executePreUpdate : σ → List UInt8 → List UInt8 → ℤ → Int32 × σ

namespace MysqlServer

variable {σ : Type*} (srv : MysqlServer σ)

/-- The connection, while nothing is changed. -/
def conn (s : σ) : MysqlConn where
  executeQuery := srv.executeQuery s
  executePreUpdate name passwd time := (srv.executePreUpdate s name passwd time).1

/-- What `on_user_register` leaves of the server. -/
def registered (s : σ) (name passwd : List UInt8) : σ :=
  if (srv.conn s).mysqlDb.checkNameRegistered name = true then s
  else (srv.executePreUpdate s name passwd 0).2

/-- What a handler leaves of it. The others change nothing. -/
def handled (s : σ) (pmsg : UserMsg) : σ :=
  match ProtocolDefine.ofInt pmsg.msgId with
  | some .userRegisterReq => srv.registered s pmsg.msg.name pmsg.msg.passwd
  | _ => s

/-- What the handler of a message is answered. `get_uid` is what it calls last. -/
def mysqlDb (s : σ) (pmsg : UserMsg) : MysqlDb :=
  { (srv.conn s).mysqlDb with getUid := (srv.conn (srv.handled s pmsg)).mysqlDb.getUid }

/-- What is used of the server: `rows` is what is stored in `register`, and `fits` says
which values its columns hold as they are. -/
structure Keeps (c : Collation) (rows : σ → List RegisterRow)
    (fits : List UInt8 → List UInt8 → Prop) : Prop where
  answers : ∀ s, (srv.conn s).Answers (rows s) c.same
  inserted : ∀ s name passwd time, fits name passwd →
    0 < (srv.executePreUpdate s name passwd time).1 →
    ∃ uid, rows (srv.executePreUpdate s name passwd time).2 = rows s ++ [⟨uid, name, passwd⟩]
  refused : ∀ s name passwd time, ¬ 0 < (srv.executePreUpdate s name passwd time).1 →
    rows (srv.executePreUpdate s name passwd time).2 = rows s
  /-- `name Varchar(64) Not Null Unique` -/
  unique : ∀ s, (rows s).Pairwise fun row row' => c.same row.name row'.name = false
  /-- `uid INT(11) Primary Key Auto_increment` -/
  primary : ∀ s, (rows s).Pairwise fun row row' => row.uid ≠ row'.uid
  positive : ∀ s, ∀ row ∈ rows s, 0 < row.uid

end MysqlServer

/-! ## Requests and answers -/

/-- What a client asks for, as it is spelled. -/
abbrev AccountRequest := Request (List UInt8) (List UInt8)

/-- What a message asks for. -/
def requestOf (msg : UserMsg) : Option AccountRequest :=
  match ProtocolDefine.ofInt msg.msgId with
  | some .userLoginReq => some (.login msg.msg.name msg.msg.passwd)
  | some .userRegisterReq => some (.register msg.msg.name msg.msg.passwd)
  | _ => none

/-- What a reply tells the client. -/
def replyOf (msg : Message) : Reply Int32 :=
  match msg.type with
  | .loginRsp => if msg.isOK then .granted msg.userId else .refused
  | _ => if msg.isOK then .granted msg.accid else if msg.accid = -1 then .taken else .failed

/-- The values may stand in the statements, and in the table. -/
def Admissible (fits : List UInt8 → List UInt8 → Prop) : AccountRequest → Prop
  | .login name passwd => 0 ∉ name ∧ 0 ∉ passwd ∧ Plain MysqlDb.quote name ∧
      Plain MysqlDb.quote passwd
  | .register name passwd => 0 ∉ name ∧ 0 ∉ passwd ∧ Plain MysqlDb.quote name ∧
      Plain MysqlDb.quote passwd ∧ fits name passwd

/-- The store that the rows amount to. -/
def Represents (c : Collation) (rows : List RegisterRow) (a : Store c.Class c.Class Int32) : Prop :=
  ∀ n p uid, a n = some (p, uid) ↔
    ∃ row ∈ rows, c.classOf row.name = n ∧ c.classOf row.passwd = p ∧ row.uid = uid

variable {σ : Type*} {srv : MysqlServer σ} {c : Collation} {rows : σ → List RegisterRow}
  {fits : List UInt8 → List UInt8 → Prop} {s : σ} {name passwd : List UInt8}

namespace MysqlServer.Keeps

/-- A name is stored, or it is not found. -/
theorem checkName_iff (h : srv.Keeps c rows fits) (hname : Plain MysqlDb.quote name) :
    (srv.conn s).mysqlDb.checkNameRegistered name = true ↔
      ∃ row ∈ rows s, c.same row.name name = true := by
  have hans := (h.answers s).checkName _ _ ((MysqlDb.tokens_checkNameSql_iff name).mpr hname)
  simp [MysqlConn.mysqlDb, hans, Nat.one_le_iff_ne_zero]

/-- `get_uid` yields a row with this name and password, or there is none. -/
theorem getUid_cases (h : srv.Keeps c rows fits) (s : σ) (hn : 0 ∉ name) (hp : 0 ∉ passwd)
    (hname : Plain MysqlDb.quote name) (hpasswd : Plain MysqlDb.quote passwd) :
    (∃ row ∈ rows s, c.same row.name name = true ∧ c.same row.passwd passwd = true ∧
        (srv.conn s).mysqlDb.getUid name passwd = row.uid) ∨
      (∀ row ∈ rows s, c.same row.name name = true → c.same row.passwd passwd = false) ∧
        (srv.conn s).mysqlDb.getUid name passwd = -1 := by
  have hans := (h.answers s).getUid _ name passwd (MysqlDb.tokens_getUidText_nul hname hpasswd)
  rw [← MysqlDb.getUidSql_eq hn hp] at hans
  cases hfound : (rows s).filter fun row => c.same row.name name && c.same row.passwd passwd with
  | nil =>
      right
      rw [hfound] at hans
      refine ⟨fun row hrow hsame => ?_, by simp [MysqlConn.mysqlDb, hans]⟩
      have hnot := List.filter_eq_nil_iff.mp hfound row hrow
      simpa [hsame] using hnot
  | cons row found =>
      left
      rw [hfound] at hans
      have hmem : row ∈ row :: found := List.mem_cons_self
      rw [← hfound, List.mem_filter, Bool.and_eq_true] at hmem
      exact ⟨row, hmem.1, hmem.2.1, hmem.2.2, by simp [MysqlConn.mysqlDb, hans]⟩

end MysqlServer.Keeps

/-! ## One request -/

section Represents

variable {rs : List RegisterRow} {a : Store c.Class c.Class Int32}

theorem Represents.of_row (ha : Represents c rs a) {row : RegisterRow} (hrow : row ∈ rs)
    (hname : c.same row.name name = true) :
    a (c.classOf name) = some (c.classOf row.passwd, row.uid) :=
  (ha _ _ _).mpr ⟨row, hrow, c.classOf_eq_iff.mpr hname, rfl, rfl⟩

theorem Represents.eq_none (ha : Represents c rs a)
    (hnone : ∀ row ∈ rs, c.same row.name name = false) : a (c.classOf name) = none := by
  cases hn : a (c.classOf name) with
  | none => rfl
  | some x =>
      obtain ⟨row, hrow, hname, -, -⟩ := (ha _ x.1 x.2).mp hn
      have hsame := c.classOf_eq_iff.mp hname
      rw [hnone row hrow] at hsame
      cases hsame

/-- A row of a new name is an account more. -/
theorem Represents.concat (ha : Represents c rs a) {row : RegisterRow}
    (hnone : ∀ r ∈ rs, c.same r.name row.name = false) :
    Represents c (rs ++ [row])
      (Function.update a (c.classOf row.name) (some (c.classOf row.passwd, row.uid))) := by
  intro n p uid
  simp only [List.mem_append, List.mem_singleton, or_and_right, exists_or, exists_eq_left]
  by_cases hn : n = c.classOf row.name
  · have hold : ¬ ∃ r ∈ rs, c.classOf r.name = n ∧ c.classOf r.passwd = p ∧ r.uid = uid := by
      rintro ⟨r, hr, hname, -, -⟩
      have hsame := c.classOf_eq_iff.mp (hname.trans hn)
      rw [hnone r hr] at hsame
      cases hsame
    rw [hn, Function.update_self, ← hn, or_iff_right hold]
    simp [hn]
  · rw [Function.update_of_ne hn, ha, or_iff_left]
    rintro ⟨hname, -, -⟩
    exact hn hname.symm

/-- Rows with different names amount to a store. -/
theorem exists_represents {rs : List RegisterRow}
    (h : rs.Pairwise fun row row' => c.same row.name row'.name = false) :
    ∃ a, Represents c rs a := by
  induction rs using List.reverseRecOn with
  | nil => exact ⟨fun _ => none, fun n p uid => by simp⟩
  | append_singleton rs row ih =>
      obtain ⟨hrs, -, hrow⟩ := List.pairwise_append.mp h
      obtain ⟨a, ha⟩ := ih hrs
      exact ⟨_, ha.concat fun r hr => hrow r hr row List.mem_cons_self⟩

/-- Rows with different keys give everybody an identity of its own. -/
theorem Represents.distinct (ha : Represents c rs a)
    (h : rs.Pairwise fun row row' => row.uid ≠ row'.uid) : Distinct a := by
  intro m n q p i hm hn
  obtain ⟨row, hrow, hname, -, huid⟩ := (ha m q i).mp hm
  obtain ⟨row', hrow', hname', -, huid'⟩ := (ha n p i).mp hn
  have hnodup : (rs.map RegisterRow.uid).Nodup := List.pairwise_map.mpr h
  have hsame := List.inj_on_of_nodup_map hnodup hrow hrow' (huid.trans huid'.symm)
  rw [← hname, ← hname', hsame]

end Represents

/-- **A login** is answered as the store says. -/
theorem login_step (h : srv.Keeps c rows fits) {a : Store c.Class c.Class Int32}
    (ha : Represents c (rows s) a) (hgood : Admissible fits (.login name passwd)) {uid : Int32}
    (huid : uid = (srv.conn s).mysqlDb.getUid name passwd) :
    Step a (.login (c.classOf name) (c.classOf passwd),
      if uid = -1 then .refused else .granted uid) a := by
  obtain ⟨hn, hp, hname, hpasswd⟩ := hgood
  rcases h.getUid_cases s hn hp hname hpasswd with ⟨row, hrow, hsame, hpass, hget⟩ | ⟨hnone, hget⟩
  · have hpos := h.positive s row hrow
    have hne : uid ≠ -1 := by
      rw [huid, hget]
      rintro heq
      rw [heq] at hpos
      exact absurd hpos (by decide)
    rw [if_neg hne, huid, hget, ← c.classOf_eq_iff.mpr hpass]
    exact .login (ha.of_row hrow hsame)
  · rw [if_pos (huid.trans hget)]
    refine .refuse fun uid hfound => ?_
    obtain ⟨row, hrow, hsame, hpass, -⟩ := (ha _ _ _).mp hfound
    have hnot := hnone row hrow (c.classOf_eq_iff.mp hsame)
    rw [c.classOf_eq_iff.mp hpass] at hnot
    cases hnot

/-- The new row is the only one with its name. -/
theorem getUid_inserted (h : srv.Keeps c rows fits) (hgood : Admissible fits (.register name passwd))
    {s' : σ} {uid : Int32} (hrows : rows s' = rows s ++ [⟨uid, name, passwd⟩]) :
    (srv.conn s').mysqlDb.getUid name passwd = uid := by
  obtain ⟨hn, hp, hname, hpasswd, -⟩ := hgood
  have hself : (⟨uid, name, passwd⟩ : RegisterRow) ∈ rows s' := by
    rw [hrows]
    exact List.mem_append_right _ List.mem_cons_self
  rcases h.getUid_cases s' hn hp hname hpasswd with ⟨row, hrow, hsame, -, hget⟩ | ⟨hnone, -⟩
  · have hunique := h.unique s'
    rw [hrows, List.pairwise_append] at hunique
    rw [hrows, List.mem_append, List.mem_singleton] at hrow
    rcases hrow with hold | rfl
    · have hnot := hunique.2.2 row hold _ List.mem_cons_self
      rw [hsame] at hnot
      cases hnot
    · exact hget
  · have hnot := hnone _ hself (c.equivalence.refl name)
    rw [c.equivalence.refl passwd] at hnot
    cases hnot

/-- **A registration** is answered as the store says, and makes an account of it. -/
theorem register_step (h : srv.Keeps c rows fits) {a : Store c.Class c.Class Int32}
    (ha : Represents c (rows s) a) (hgood : Admissible fits (.register name passwd)) :
    ∃ b, Represents c (rows (srv.registered s name passwd)) b ∧
      Step a (.register (c.classOf name) (c.classOf passwd),
        if (srv.conn s).mysqlDb.checkNameRegistered name = true then .taken
        else if (srv.conn s).mysqlDb.registerUser name passwd 0 = false then .failed
        else .granted ((srv.conn (srv.registered s name passwd)).mysqlDb.getUid name passwd)) b := by
  obtain ⟨-, -, hname, -, hfits⟩ := id hgood
  have hcheck := h.checkName_iff (s := s) hname
  unfold MysqlServer.registered
  split_ifs with htaken hfailed
  · obtain ⟨row, hrow, hsame⟩ := hcheck.mp htaken
    exact ⟨a, ha, .taken (ha.of_row hrow hsame)⟩
  all_goals
    have hnone : ∀ row ∈ rows s, c.same row.name name = false := fun row hrow =>
      Bool.eq_false_of_not_eq_true fun hsame => htaken (hcheck.mpr ⟨row, hrow, hsame⟩)
    have hfree := ha.eq_none hnone
  · refine ⟨a, ?_, .fail hfree⟩
    rw [h.refused s name passwd 0 (of_decide_eq_false hfailed)]
    exact ha
  · have hinserted : 0 < (srv.executePreUpdate s name passwd 0).1 :=
      of_decide_eq_true (Bool.eq_true_of_not_eq_false hfailed)
    obtain ⟨uid, hrows⟩ := h.inserted s name passwd 0 hfits hinserted
    rw [getUid_inserted h hgood hrows]
    refine ⟨_, ?_, .register hfree fun m q hfound => ?_⟩
    · rw [hrows]
      exact Represents.concat ha hnone
    · -- the identity is the key of the new row
      obtain ⟨row, hrow, -, -, huid⟩ := (ha _ _ _).mp hfound
      have hprimary := h.primary (srv.executePreUpdate s name passwd 0).2
      rw [hrows, List.pairwise_append] at hprimary
      exact hprimary.2.2 row hrow _ List.mem_cons_self huid

/-! ## The handlers -/

section Handlers

variable (db : MysqlDb) (pmsg : UserMsg) (user : Ptr) (heap : Heap User) (rspMsgs : List UserMsg)

theorem onUserLogin_reply :
    ∃ ret, (Gate.onUserLogin db pmsg user (heap, rspMsgs)).2 = rspMsgs ++ [ret] ∧
      replyOf ret.msg = if db.getUid pmsg.msg.name pmsg.msg.passwd = -1 then .refused
        else .granted (db.getUid pmsg.msg.name pmsg.msg.passwd) := by
  refine ⟨_, rfl, ?_⟩
  simp only [UserMsg.withMsg]
  split_ifs with huid
  · rfl
  · show Reply.granted (Message.userId _) = _
    rw [Message.userId_setUserId]

theorem onUserRegister_reply :
    ∃ ret, (Gate.onUserRegister db pmsg user (heap, rspMsgs)).2 = rspMsgs ++ [ret] ∧
      replyOf ret.msg =
        if db.checkNameRegistered pmsg.msg.name = true then .taken
        else if db.registerUser pmsg.msg.name pmsg.msg.passwd 0 = false then .failed
        else .granted (db.getUid pmsg.msg.name pmsg.msg.passwd) := by
  refine ⟨_, rfl, ?_⟩
  simp only [UserMsg.withMsg]
  split_ifs with htaken hfailed
  · rfl
  · rfl
  · show Reply.granted (Message.accid _) = _
    simp [Message.accid, Message.setAccid, Message.int32]

end Handlers

/-- A request with its answer, as the store knows them. -/
def inClasses (c : Collation) (e : AccountRequest × Reply Int32) :
    Request c.Class c.Class × Reply Int32 :=
  (e.1.map c.classOf c.classOf, e.2)

/-- **A handler** adds one reply, and what it says is a step of the store. -/
theorem handler_step (h : srv.Keeps c rows fits) {a : Store c.Class c.Class Int32}
    (ha : Represents c (rows s) a) {msg : UserMsg} {req : AccountRequest}
    (hreq : requestOf msg = some req) {msgFunc : MsgFunc}
    (hfunc : Gate.getMsgHandler msg.msgId = some msgFunc) (user : Ptr) (heap : Heap User)
    (rspMsgs : List UserMsg) :
    ∃ ret, (msgFunc (srv.mysqlDb s msg) msg user (heap, rspMsgs)).2 = rspMsgs ++ [ret] ∧
      (Admissible fits req → ∃ b, Represents c (rows (srv.handled s msg)) b ∧
        Step a (inClasses c (req, replyOf ret.msg)) b) := by
  unfold requestOf at hreq
  unfold Gate.getMsgHandler at hfunc
  cases hid : ProtocolDefine.ofInt msg.msgId with
  | none => rw [hid] at hreq; cases hreq
  | some p =>
      rw [hid] at hreq hfunc
      cases p with
      | userLoginReq =>
          cases hreq
          cases hfunc
          have hhandled : srv.handled s msg = s := by
            unfold MysqlServer.handled
            rw [hid]
          obtain ⟨ret, hret, hreply⟩ := onUserLogin_reply (srv.mysqlDb s msg) msg user heap rspMsgs
          refine ⟨ret, hret, fun hgood => ⟨a, by rw [hhandled]; exact ha, ?_⟩⟩
          rw [inClasses, hreply]
          apply login_step h ha hgood
          rw [MysqlServer.mysqlDb, hhandled]
      | userRegisterReq =>
          cases hreq
          cases hfunc
          have hhandled : srv.handled s msg = srv.registered s msg.msg.name msg.msg.passwd := by
            unfold MysqlServer.handled
            rw [hid]
          obtain ⟨ret, hret, hreply⟩ :=
            onUserRegister_reply (srv.mysqlDb s msg) msg user heap rspMsgs
          refine ⟨ret, hret, fun hgood => ?_⟩
          obtain ⟨b, hb, hstep⟩ := register_step h ha hgood
          refine ⟨b, by rw [hhandled]; exact hb, ?_⟩
          rw [inClasses, hreply, MysqlServer.mysqlDb, hhandled]
          exact hstep
      | _ => cases hreq

/-- Other messages do not get to the database. -/
theorem handled_other {msg : UserMsg} (hreq : requestOf msg = none) : srv.handled s msg = s := by
  unfold requestOf at hreq
  unfold MysqlServer.handled
  split
  · next hid =>
    rw [hid] at hreq
    cases hreq
  · rfl

/-! ## Runs of the Gate -/

namespace GateIO

variable (rt : Runtime) (srv : MysqlServer σ)

/-- What the database answers to the users that are parsed in a round, and what becomes
of it. -/
def answers : GateIO × σ → List Ptr → List MysqlDb × σ
  | (_, s), [] => ([], s)
  | (g, s), user :: users =>
    match verdictOn rt g user with
    | .handle msg _ =>
      let db := srv.mysqlDb s msg
      let (dbs, s') := answers ((parseUnlogin rt (g, [db]) user).1, srv.handled s msg) users
      (db :: dbs, s')
    | .wait | .kick => answers ((parseUnlogin rt (g, []) user).1, s) users

/-- The Gate and its database: a step of the Gate, in which its questions are answered. -/
def stepWith (t : GateIO × σ) : Act → GateIO × σ
  | .io r =>
    let (dbs, s) := answers rt srv (t.1.beforeParsing r, t.2) (t.1.beforeParsing r).unloginReads
    (t.1.step rt (.io { r with dbs := dbs }), s)
  | .worker i r => (t.1.step rt (.worker i r), t.2)

/-- The request of a user and what it is answered, if it is about an account. -/
def accountEntries (s : GateIO × List MysqlDb) (user : Ptr) :
    List (AccountRequest × Reply Int32) :=
  match verdictOn rt s.1 user with
  | .handle msg _ =>
    match requestOf msg with
    | some req =>
      ((parseUnlogin rt s user).1.rspMsgs.drop s.1.rspMsgs.length).map fun ret =>
        (req, replyOf ret.msg)
    | none => []
  | .wait | .kick => []

/-- The requests and answers of a step. -/
def entriesWith (t : GateIO × σ) : Act → List (AccountRequest × Reply Int32)
  | .io r =>
    let g := t.1.beforeParsing r
    logOf (parseUnlogin rt) (accountEntries rt) (g, (answers rt srv (g, t.2) g.unloginReads).1)
      g.unloginReads
  | .worker _ _ => []

/-- What is asked about accounts in a run, and what the handlers reply. -/
def requestLog (sockFd : Int32) (s : σ) (acts : List Act) :
    List (AccountRequest × Reply Int32) :=
  logOf (stepWith rt srv) (entriesWith rt srv) (init sockFd, s) acts

/-- The database behind a run. -/
def databaseAfter (sockFd : Int32) (s : σ) (acts : List Act) : σ :=
  (Foundation.run (stepWith rt srv) (init sockFd, s) acts).2

variable {rt srv}

/-- The state after parsing, before anything is done about it. -/
theorem exists_parsed (rt : Runtime) (g : GateIO) (user : Ptr) :
    ∃ g' : GateIO, g'.rspMsgs = g.rspMsgs ∧
      ∀ dbs, parseUnlogin rt (g, dbs) user = apply (g', dbs) user (verdictOn rt g user) := by
  rcases hparsed : g.msgCenter.parsePackage rt user (g.node user) with ⟨msgs, msgCenter, sock⟩
  refine ⟨{ g.setNode user sock with msgCenter := msgCenter }, rfl, fun dbs => ?_⟩
  have hnode : ({ g.setNode user sock with msgCenter := msgCenter } : GateIO).node user = sock :=
    (node_setNode g user sock user).trans (if_pos rfl)
  unfold parseUnlogin verdictOn
  simp only [hparsed, takeUnlogin_eq, hnode]

/-- A user about whom the database is not asked. -/
theorem answers_skip (srv : MysqlServer σ) {g : GateIO} {user : Ptr} (s : σ)
    (hv : verdictOn rt g user = .wait ∨ verdictOn rt g user = .kick) (users : List Ptr) :
    ∃ g₁, answers rt srv (g, s) (user :: users) = answers rt srv (g₁, s) users ∧
      ∀ dbs, parseUnlogin rt (g, dbs) user = (g₁, dbs) ∧ accountEntries rt (g, dbs) user = [] := by
  obtain ⟨g', -, hparse⟩ := exists_parsed rt g user
  refine ⟨(parseUnlogin rt (g, []) user).1, ?_, fun dbs => ⟨?_, ?_⟩⟩
  · rw [answers]
    rcases hv with hv | hv <;> rw [hv]
  · rw [hparse, hparse]
    rcases hv with hv | hv <;> rw [hv] <;> rfl
  · unfold accountEntries
    rcases hv with hv | hv <;> simp only [hv]

/-- A user whose message gets to a handler. -/
theorem answers_handle (srv : MysqlServer σ) {g : GateIO} {user : Ptr} (s : σ) {msg : UserMsg}
    {msgFunc : MsgFunc} (hv : verdictOn rt g user = .handle msg msgFunc) (users : List Ptr) :
    ∃ (g₁ : GateIO) (heap : Heap User),
      answers rt srv (g, s) (user :: users) =
        (srv.mysqlDb s msg :: (answers rt srv (g₁, srv.handled s msg) users).1,
          (answers rt srv (g₁, srv.handled s msg) users).2) ∧
      g₁.rspMsgs = (msgFunc (srv.mysqlDb s msg) msg user (heap, g.rspMsgs)).2 ∧
      ∀ dbs, parseUnlogin rt (g, srv.mysqlDb s msg :: dbs) user = (g₁, dbs) := by
  obtain ⟨g', hrsp, hparse⟩ := exists_parsed rt g user
  refine ⟨(parseUnlogin rt (g, [srv.mysqlDb s msg]) user).1, g'.heap, ?_, ?_, fun dbs => ?_⟩
  · rw [answers]
    simp only [hv]
  · rw [hparse, hv, ← hrsp]
    rfl
  · rw [hparse, hparse, hv]
    rfl

/-- A round of requests, one user after the other. -/
theorem trace_users (h : srv.Keeps c rows fits) (users : List Ptr) {g : GateIO} {s : σ}
    {a : Store c.Class c.Class Int32} (ha : Represents c (rows s) a)
    (hgood : ∀ e ∈ logOf (parseUnlogin rt) (accountEntries rt)
      (g, (answers rt srv (g, s) users).1) users, Admissible fits e.1) :
    ∃ b, Trace Step a ((logOf (parseUnlogin rt) (accountEntries rt)
        (g, (answers rt srv (g, s) users).1) users).map (inClasses c)) b ∧
      Represents c (rows (answers rt srv (g, s) users).2) b := by
  induction users generalizing g s a with
  | nil => exact ⟨a, .nil a, ha⟩
  | cons user users ih =>
      cases hv : verdictOn rt g user with
      | wait | kick =>
          obtain ⟨g₁, hanswers, hparse⟩ := answers_skip srv s (by rw [hv]; simp) users
          obtain ⟨hnext, hentries⟩ := hparse (answers rt srv (g₁, s) users).1
          rw [logOf, hanswers, hnext, hentries, List.nil_append] at hgood ⊢
          exact ih ha hgood
      | handle msg msgFunc =>
          obtain ⟨g₁, heap, hanswers, hrsp, hparse⟩ := answers_handle srv s hv users
          have hnext := hparse (answers rt srv (g₁, srv.handled s msg) users).1
          have hfunc := verdictOn_handle hv
          rw [logOf, hanswers, hnext] at hgood ⊢
          cases hreq : requestOf msg with
          | none =>
              have hentries : accountEntries rt (g, srv.mysqlDb s msg ::
                  (answers rt srv (g₁, srv.handled s msg) users).1) user = [] := by
                unfold accountEntries
                simp only [hv, hreq]
              rw [hentries, List.nil_append] at hgood ⊢
              rw [handled_other hreq] at hgood ⊢
              exact ih ha hgood
          | some req =>
              obtain ⟨ret, hret, hstep⟩ := handler_step h ha hreq hfunc user heap g.rspMsgs
              have hentries : accountEntries rt (g, srv.mysqlDb s msg ::
                  (answers rt srv (g₁, srv.handled s msg) users).1) user =
                  [(req, replyOf ret.msg)] := by
                unfold accountEntries
                simp only [hv, hreq, hnext, hrsp, hret, List.drop_left, List.map_cons, List.map_nil]
              rw [hentries] at hgood ⊢
              obtain ⟨b, hb, hfirst⟩ := hstep (hgood _ (List.mem_append_left _ List.mem_cons_self))
              obtain ⟨d, hrest, hd⟩ := ih hb fun e he => hgood e (List.mem_append_right _ he)
              exact ⟨d, .cons hfirst hrest, hd⟩

end GateIO

/-- Behind a registration that was granted: what later requests are answered. -/
structure Lasting (c : Collation) (name passwd : List UInt8) (uid : Int32)
    (later : List (AccountRequest × Reply Int32)) : Prop where
  login : ∀ n p r, (.login n p, r) ∈ later → c.same n name = true →
    r = if c.same p passwd = true then .granted uid else .refused
  register : ∀ n p r, (.register n p, r) ∈ later → c.same n name = true → r = .taken
  own : ∀ n p, (.login n p, .granted uid) ∈ later → c.same n name = true ∧ c.same p passwd = true

/-- Behind a registration, in a trace of the store. -/
theorem lasting_of_trace {log later : List (AccountRequest × Reply Int32)} {uid : Int32}
    {start b : Store c.Class c.Class Int32} (hstart : Distinct start)
    (h : Trace Step start
      ((log ++ (.register name passwd, .granted uid) :: later).map (inClasses c)) b) :
    Lasting c name passwd uid later := by
  rw [List.map_append, List.map_cons] at h
  obtain ⟨a, hbefore, hbehind⟩ := h.of_append
  have hdistinct : Distinct a := hbefore.invariant (I := Distinct)
    (fun _ _ _ hstep ha => hstep.distinct ha) hstart
  obtain ⟨hlogin, hregister, hown⟩ := lasts hbehind hdistinct
  have hmem : ∀ e ∈ later, inClasses c e ∈ later.map (inClasses c) :=
    fun e he => List.mem_map_of_mem he
  refine ⟨fun n p r he hname => ?_, fun n p r he hname => ?_, fun n p he => ?_⟩
  · have hclass := hmem _ he
    rw [inClasses, Request.map, c.classOf_eq_iff.mpr hname] at hclass
    rcases hlogin _ _ hclass with ⟨hpass, hr⟩ | ⟨hpass, hr⟩
    · rw [if_pos (c.classOf_eq_iff.mp hpass)]
      exact hr
    · rw [if_neg fun hsame => hpass (c.classOf_eq_iff.mpr hsame)]
      exact hr
  · have hclass := hmem _ he
    rw [inClasses, Request.map, c.classOf_eq_iff.mpr hname] at hclass
    exact hregister _ _ hclass
  · obtain ⟨hname, hpass⟩ := hown _ _ (hmem _ he)
    exact ⟨c.classOf_eq_iff.mp hname, c.classOf_eq_iff.mp hpass⟩

open GateIO

/-- **The Gate keeps accounts.** In every run, whatever the connections do, what the
handlers answer about names and passwords is what a store of accounts with the rows of
the table would answer, one request after the other. So an account lasts: with its name,
the right password yields the identity it was registered with and no other does, the
name stays taken, and nobody else is granted the identity. -/
theorem accounts_kept (rt : Runtime) (h : srv.Keeps c rows fits) (s : σ) (sockFd : Int32)
    (acts : List Act)
    (hgood : ∀ e ∈ requestLog rt srv sockFd s acts, Admissible fits e.1) :
    let log := requestLog rt srv sockFd s acts
    (∃ a b, Represents c (rows s) a ∧ Trace Step a (log.map (inClasses c)) b ∧
        Represents c (rows (databaseAfter rt srv sockFd s acts)) b) ∧
      ∀ earlier name passwd uid later,
        log = earlier ++ (.register name passwd, .granted uid) :: later →
          Lasting c name passwd uid later := by
  intro log
  obtain ⟨a, ha⟩ := exists_represents (h.unique s)
  have htrace : ∃ b, Trace Step a (log.map (inClasses c)) b ∧
      Represents c (rows (databaseAfter rt srv sockFd s acts)) b := by
    refine trace_logOf (R := fun (t : GateIO × σ) a => Represents c (rows t.2) a)
      (P := fun (e : AccountRequest × Reply Int32) => Admissible fits e.1) ?_ ha hgood
    intro t a act ha hgood
    cases act with
    | io r => exact trace_users h _ ha hgood
    | worker i r => exact ⟨a, .nil a, ha⟩
  obtain ⟨b, hb, hafter⟩ := htrace
  refine ⟨⟨a, b, ha, hb, hafter⟩, fun earlier name passwd uid later hlog => ?_⟩
  rw [hlog] at hb
  exact lasting_of_trace (ha.distinct (h.primary s)) hb

/-! ### A first account -/

/-- Texts compared byte by byte. -/
def Collation.binary : Collation where
  same x y := x == y
  equivalence := by
    have heq : (fun x y : List UInt8 => (x == y) = true) = Eq := by
      funext x y
      simp
    rw [heq]
    exact eq_equivalence

namespace MysqlServer

/-- The table of a server with room for one account. -/
def oneRow : Option (List UInt8 × List UInt8) → List RegisterRow
  | none => []
  | some (name, passwd) => [⟨10000, name, passwd⟩]

def oneAccount : MysqlServer (Option (List UInt8 × List UInt8)) where
  executeQuery s text := MysqlConn.select (oneRow s) (tokens text)
  executePreUpdate
    | none, name, passwd, _ => (1, some (name, passwd))
    | some row, _, _, _ => (-1, some row)

theorem keeps_oneAccount : oneAccount.Keeps .binary oneRow fun _ _ => True where
  answers s := MysqlConn.answers_select (oneRow s) _
  inserted s name passwd time _ h := by
    cases s with
    | none => exact ⟨10000, rfl⟩
    | some row => exact absurd h (by show ¬ (0 : Int32) < -1; decide)
  refused s name passwd time h := by
    cases s with
    | none => exact absurd (show (0 : Int32) < 1 by decide) h
    | some row => rfl
  unique s := by
    cases s with
    | none => exact .nil
    | some row => exact List.pairwise_singleton _ _
  primary s := by
    cases s with
    | none => exact .nil
    | some row => exact List.pairwise_singleton _ _
  positive s row hrow := by
    cases s with
    | none => exact absurd hrow List.not_mem_nil
    | some x =>
        rw [List.mem_singleton.mp hrow]
        show (0 : Int32) < 10000
        decide

end MysqlServer

/-- A client connects, registers, and logs in. -/
def registersAndLogsIn : List Act :=
  [.io { ready := .one ⟨3, true, false⟩, accepts := [.conn 4 "" 0 true] },
   .io { ready := .one ⟨4, true, false⟩
         io := fun _ => { reads := [.data (Frame.encode ⟨2, 0, [10, 1, 97, 18, 1, 98]⟩)] } },
   .io { ready := .one ⟨4, true, false⟩
         io := fun _ => { reads := [.data loginFrame.encode] } }]

theorem requestLog_registersAndLogsIn :
    requestLog .proto2 MysqlServer.oneAccount 3 none registersAndLogsIn =
      [(.register [97] [98], .granted 10000), (.login [97] [98], .granted 10000)] := by
  decide +kernel

theorem accounts_kept_registersAndLogsIn :
    Lasting .binary [97] [98] 10000 [(.login [97] [98], .granted 10000)] := by
  refine (accounts_kept .proto2 MysqlServer.keeps_oneAccount none 3 registersAndLogsIn ?_).2 []
    [97] [98] 10000 _ requestLog_registersAndLogsIn
  rw [requestLog_registersAndLogsIn]
  intro e he
  rcases List.mem_cons.mp he with rfl | he
  · exact ⟨by decide, by decide, by decide, by decide, trivial⟩
  · rw [List.mem_singleton.mp he]
    exact ⟨by decide, by decide, by decide, by decide⟩

end Rubo.Server
