import Rubo.Util.Utils

/-!
# The Statements of a Script

`MysqlDb::init_sql` cuts the script `mysql.sql` at its semicolons, leaves out
pieces of fewer than five bytes, takes the line breaks off the front of the
others and executes them until one fails. `initSql_eq` says that this is all it
does: no statement is lost, made up or executed out of order.
-/

namespace Rubo.Server.MysqlDb

open Rubo.Foundation Rubo.Util

variable {σ : Type}

/-- The `for` of `init_sql`. -/
def executeLoop (executeSql : σ → StdString → Bool × σ) :
    List StdString → σ → Except Fault (Bool × σ)
  | [], db => return (true, db)
  | oneSql :: sqls, db =>
    if oneSql.size < 5 then executeLoop executeSql sqls db
    else do
      let oneSql ← Utils.trimLeft oneSql 10
      let (ret, db) := executeSql db oneSql
      if ret = false then return (false, db) else executeLoop executeSql sqls db

/-- `init_sql()`, for what is in `mysql.sql`; `none` where it cannot be opened. -/
def initSql (executeSql : σ → StdString → Bool × σ) (fileSql : Option StdString) (db : σ) :
    Except Fault (Bool × σ) :=
  match fileSql with
  | none => return (false, db)
  | some fileSql => do
    let sqls ← Utils.split fileSql ⟨[59], by decide⟩ []
    executeLoop executeSql sqls db

/-! ## What is executed -/

/-- The statements of a script. -/
noncomputable def statements (script : List UInt8) : List (List UInt8) :=
  ((script.splitOnP (· == 59)).filter (5 ≤ ·.length)).map fun sql => sql.dropWhile (· == 10)

/-- Statements executed in order, until one fails. -/
def executeAll (executeSql : σ → StdString → Bool × σ) : List StdString → σ → Bool × σ
  | [], db => (true, db)
  | sql :: sqls, db =>
    let (ret, db) := executeSql db sql
    if ret = false then (false, db) else executeAll executeSql sqls db

theorem executeLoop_eq (executeSql : σ → StdString → Bool × σ) (pieces : List StdString) (db : σ) :
    ∃ sqls, executeLoop executeSql pieces db = .ok (executeAll executeSql sqls db) ∧
      sqls.map StdString.data = ((pieces.map StdString.data).filter (5 ≤ ·.length)).map
        fun sql => sql.dropWhile (· == 10) := by
  induction pieces generalizing db with
  | nil => exact ⟨[], rfl, rfl⟩
  | cons piece pieces ih =>
      rw [executeLoop]
      by_cases hshort : piece.size < 5
      · obtain ⟨sqls, hloop, hsqls⟩ := ih db
        refine ⟨sqls, by rw [if_pos hshort, hloop], ?_⟩
        rw [hsqls, List.map_cons, List.filter_cons_of_neg]
        unfold StdString.size at hshort
        simpa using hshort
      · obtain ⟨sql, htrim, hsql⟩ := Utils.trimLeft_ok piece 10
        obtain ⟨sqls, hloop, hsqls⟩ := ih (executeSql db sql).2
        refine ⟨sql :: sqls, ?_, ?_⟩
        · simp only [if_neg hshort, htrim, bind, Except.bind, hloop, executeAll]
          split_ifs <;> rfl
        · rw [List.map_cons, hsqls, hsql, List.map_cons, List.filter_cons_of_pos, List.map_cons]
          unfold StdString.size at hshort
          simpa using hshort

/-- **`init_sql` executes the statements of the script**, in their order, and stops at
the first that fails. -/
theorem initSql_eq (executeSql : σ → StdString → Bool × σ) (fileSql : StdString) (db : σ) :
    ∃ sqls, initSql executeSql (some fileSql) db = .ok (executeAll executeSql sqls db) ∧
      sqls.map StdString.data = statements fileSql.data := by
  obtain ⟨pieces, hsplit, hpieces⟩ := Utils.split_ok fileSql ⟨[59], by decide⟩ []
  obtain ⟨sqls, hloop, hsqls⟩ := executeLoop_eq executeSql pieces db
  refine ⟨sqls, ?_, ?_⟩
  · simp only [initSql, hsplit, bind, Except.bind]
    exact hloop
  · have hsep : (fun c : UInt8 => decide (c ∈ ([59] : List UInt8))) = (· == 59) := by
      funext c
      simp [beq_eq_decide]
    rw [hsqls, hpieces, hsep, statements]

end Rubo.Server.MysqlDb
