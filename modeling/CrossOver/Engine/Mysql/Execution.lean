import CrossOver.Engine.Mysql.Answers
import CrossOver.Engine.Mysql.ResultSet

/-!
# What `Execute` reports

`StatementMysql::Execute` makes its calls into libmysql one after another and
gives up at the first that fails, up to the call that runs the statement.  Behind
it stand `Init` and `BuildBinResult` of the result set; `is_success` is assigned
from the first and then from the second, which returns `true` on every path.

The replies of libmysql are a parameter.  The calls made are recorded with
whether they succeeded, and so are the transactions that a connection commits.
-/

namespace CrossOver.Engine.Mysql

open CrossOver.Lib

/-- The calls of `Execute` that can fail. -/
inductive Step where
  | init
  | prepare
  | bindParam
  | execute
  | bindResult
  | storeResult
  | fetch
  deriving DecidableEq, Repr

/-- What libmysql answers while one statement is executed. -/
structure Replies where
  init : Bool
  prepare : Bool
  bindParam : Bool
  execute : Bool
  /-- `mysql_stmt_result_metadata`; `none` without a result set -/
  metadata : Option (List Field)
  bindResult : Bool
  storeResult : Bool
  /-- `mysql_stmt_fetch` for each stored row; `none` is an error -/
  fetches : List (Option Row)
  deriving DecidableEq, Repr

def fetchedRows : List (Option Row) → List Row
  | some row :: rest => row :: fetchedRows rest
  | _ => []

/-- The fetches of the loop over `NextRow`. -/
def fetchSteps : List (Option Row) → List (Step × Bool)
  | [] => []
  | some _ :: rest => (.fetch, true) :: fetchSteps rest
  | none :: _ => [(.fetch, false)]

def ResultSetMysql.new : ResultSetMysql :=
  { columns := [], stmt := [], rowCount := 0, rowSize := 0, data := [] }

structure Made where
  isSuccess : Bool
  rs : ResultSetMysql
  steps : List (Step × Bool)
  deriving DecidableEq, Repr

namespace Made

def failedAt (done : List Step) (failing : Step) : Made :=
  { isSuccess := false
    rs := .new
    steps := done.map (fun step => (step, true)) ++ [(failing, false)] }

def AllSucceeded (made : Made) : Prop := ∀ step ∈ made.steps, step.2 = true

end Made

/-- `ResultSetMysql::Init` on every reply. -/
def ResultSetMysql.initFrom (boundLength : FieldType → Nat) (fresh : Nat → Nat → UInt8)
    (replies : Replies) : Except Fault Made :=
  match replies.metadata with
  | none => pure { isSuccess := true, rs := .new, steps := [] }
  | some fields => do
      let columns ← allocateColumns fresh 0 fields
      let rowSize := columns.foldl (fun size column => (size + column.rowBytes) % 2 ^ 32) 0
      if replies.bindResult = false then
        let rs := { ResultSetMysql.new with columns, rowSize }
        pure { isSuccess := false, rs, steps := [(.bindResult, false)] }
      else
        let columns := columns.map (Column.bound boundLength)
        if replies.storeResult = false then
          let rs := { ResultSetMysql.new with columns, rowSize }
          pure { isSuccess := false, rs, steps := [(.bindResult, true), (.storeResult, false)] }
        else
          let rs := {
            columns
            stmt := fetchedRows replies.fetches
            rowCount := replies.fetches.length % 2 ^ 32
            rowSize
            data := [] }
          pure { isSuccess := true, rs, steps := [(.bindResult, true), (.storeResult, true)] }

/-- `StatementMysql::Execute` -/
def executeStatement (boundLength : FieldType → Nat) (fresh : Nat → Nat → UInt8)
    (replies : Replies) : Except Fault Made :=
  if replies.init = false then pure (.failedAt [] .init)
  else if replies.prepare = false then pure (.failedAt [.init] .prepare)
  else if replies.bindParam = false then pure (.failedAt [.init, .prepare] .bindParam)
  else if replies.execute = false then pure (.failedAt [.init, .prepare, .bindParam] .execute)
  else do
    let inited ← ResultSetMysql.initFrom boundLength fresh replies
    let (rs, _) ← inited.rs.buildBinResult (fresh inited.rs.columns.length)
    let fetches := if inited.rs.rowCount = 0 then [] else fetchSteps replies.fetches
    pure {
      -- what `Init` returned is overwritten
      isSuccess := true
      rs
      steps := [(.init, true), (.prepare, true), (.bindParam, true), (.execute, true)] ++
        inited.steps ++ fetches }

def Replies.ResultTaken (replies : Replies) : Prop :=
  replies.init = true → replies.prepare = true → replies.bindParam = true →
    replies.execute = true → ∀ fields, replies.metadata = some fields →
      replies.bindResult = true ∧ replies.storeResult = true ∧
        (replies.fetches.length % 2 ^ 32 ≠ 0 → none ∉ replies.fetches)

section Execute

variable {boundLength : FieldType → Nat} {fresh : Nat → Nat → UInt8} {replies : Replies}

theorem fetchSteps_succeeded (fetches : List (Option Row)) :
    (∀ step ∈ fetchSteps fetches, step.2 = true) ↔ none ∉ fetches := by
  induction fetches with
  | nil => simp [fetchSteps]
  | cons first rest inductionHypothesis =>
      cases first with
      | none => simp [fetchSteps]
      | some row => simpa [fetchSteps] using inductionHypothesis

theorem failedAt_reports (done : List Step) (failing : Step) :
    ((Made.failedAt done failing).isSuccess = true ↔
      (Made.failedAt done failing).AllSucceeded) := by
  simp [Made.failedAt, Made.AllSucceeded]

@[simp]
theorem fetchedRows_map_some (rows : List Row) : fetchedRows (rows.map some) = rows := by
  induction rows with
  | nil => rfl
  | cons row rest inductionHypothesis => simp [fetchedRows, inductionHypothesis]

/-- Without a failure `Init` is the one of the statement's stored rows. -/
theorem initFrom_init {fields : List Field} {rows : List Row}
    (metadata : replies.metadata = some fields) (bound : replies.bindResult = true)
    (stored : replies.storeResult = true) (fetches : replies.fetches = rows.map some) :
    (ResultSetMysql.initFrom boundLength fresh replies).map Made.rs =
      ResultSetMysql.init boundLength fresh fields rows := by
  cases columns : allocateColumns fresh 0 fields with
  | error fault =>
      simp [ResultSetMysql.initFrom, ResultSetMysql.init, metadata, columns, bind, Except.bind,
        Except.map]
  | ok columns =>
      simp [ResultSetMysql.initFrom, ResultSetMysql.init, metadata, columns, bound, stored, fetches,
        bind, Except.bind, Except.map, pure, Except.pure]

/-- What `Init` answered, and the row count that it left. -/
theorem initFrom_steps {made : Made}
    (inited : ResultSetMysql.initFrom boundLength fresh replies = .ok made) :
    (made.AllSucceeded ∧ (made.rs.rowCount ≠ 0 → none ∉ replies.fetches)) ↔
      ∀ fields, replies.metadata = some fields →
        replies.bindResult = true ∧ replies.storeResult = true ∧
          (replies.fetches.length % 2 ^ 32 ≠ 0 → none ∉ replies.fetches) := by
  unfold ResultSetMysql.initFrom at inited
  split at inited
  case h_1 noResultSet =>
      obtain rfl := pure_eq_ok.mp inited
      simp [Made.AllSucceeded, ResultSetMysql.new, noResultSet]
  case h_2 fields found =>
      obtain ⟨columns, -, inited⟩ := bind_eq_ok.mp inited
      split_ifs at inited with notBound notStored
      · obtain rfl := pure_eq_ok.mp inited
        simp [Made.AllSucceeded, found, notBound]
      · obtain rfl := pure_eq_ok.mp inited
        simp [Made.AllSucceeded, found, notStored]
      · obtain rfl := pure_eq_ok.mp inited
        simp [Made.AllSucceeded, found, notBound, notStored]

theorem executeStatement_reports {made : Made}
    (returned : executeStatement boundLength fresh replies = .ok made) :
    (made.isSuccess = true ↔ made.AllSucceeded) ↔ replies.ResultTaken := by
  unfold executeStatement at returned
  split_ifs at returned with notInit notPrepared notBound notExecuted
  case neg =>
      obtain ⟨inited, initEq, returned⟩ := bind_eq_ok.mp returned
      obtain ⟨⟨rs, ends⟩, -, returned⟩ := bind_eq_ok.mp returned
      obtain rfl := pure_eq_ok.mp returned
      have taken : replies.ResultTaken ↔
          inited.AllSucceeded ∧ (inited.rs.rowCount ≠ 0 → none ∉ replies.fetches) := by
        rw [initFrom_steps initEq]
        simp_all [Replies.ResultTaken]
      have fetched : (∀ step ∈ if inited.rs.rowCount = 0 then [] else fetchSteps replies.fetches,
          step.2 = true) ↔ (inited.rs.rowCount ≠ 0 → none ∉ replies.fetches) := by
        split_ifs with empty
        · simp [empty]
        · rw [fetchSteps_succeeded]
          exact ⟨fun intact _ => intact, fun intact => intact empty⟩
      rw [taken, ← fetched]
      simp only [Made.AllSucceeded, true_iff, List.forall_mem_append, List.forall_mem_cons,
        List.not_mem_nil, false_implies, implies_true, and_true, true_and]
  all_goals
    obtain rfl := pure_eq_ok.mp returned
    refine iff_of_true (failedAt_reports _ _) ?_
    intro init prepared bound executed
    simp_all

end Execute

/-- The transactions of a session: the statements executed in the open one, and
those of each that was committed. -/
structure Transactions (Statement : Type) where
  current : Option (List Statement)
  committed : List (List Statement)
  deriving DecidableEq, Repr

namespace Transactions

variable {Statement : Type}

def none : Transactions Statement := { current := .none, committed := [] }

/-- A commit or a rollback ends what was executed so far; switching autocommit
on commits it as well. -/
def apply (t : Transactions Statement) : MysqlCall Statement → Transactions Statement
  | .autocommit false => { t with current := some (t.current.getD []) }
  | .autocommit true => { current := .none, committed := t.committed ++ t.current.toList }
  | .execute stmt _ => { t with current := t.current.map fun done => done ++ [stmt] }
  | .commit =>
      { current := t.current.map fun _ => [], committed := t.committed ++ t.current.toList }
  | .rollback => { t with current := t.current.map fun _ => [] }
  | .ping => t

def after (calls : List (MysqlCall Statement)) : Transactions Statement :=
  calls.foldl apply none

theorem after_append (calls made : List (MysqlCall Statement)) :
    after (calls ++ made) = made.foldl apply (after calls) :=
  List.foldl_append

variable (execute : Statement → Bool)

/-- Every statement of a committed transaction reported success, and so far those
of the open one, which the flag knows of. -/
structure Clean (t : Transactions Statement) (flag : DBTransactionFlag) : Prop where
  committed : ∀ transaction ∈ t.committed, ∀ stmt ∈ transaction, execute stmt = true
  current : ∀ transaction ∈ t.current, ∀ stmt ∈ transaction, execute stmt = true
  opened : t.current.isSome = true → flag = .begin

variable {execute} {t : Transactions Statement} {flag : DBTransactionFlag}

theorem Clean.closed (clean : t.Clean execute flag) (notOpened : flag ≠ .begin) :
    t.current = .none := by
  cases current : t.current with
  | none => rfl
  | some transaction => exact absurd (clean.opened (by rw [current]; rfl)) notOpened

theorem Clean.begins (clean : t.Clean execute flag) :
    (t.apply (.autocommit false)).Clean execute .begin where
  committed := clean.committed
  current := by
    intro transaction membership stmt executed
    cases current : t.current with
    | none =>
        simp only [apply, current, Option.getD_none, Option.mem_def, Option.some.injEq]
          at membership
        simp [← membership] at executed
    | some before =>
        simp only [apply, current, Option.getD_some] at membership
        exact clean.current transaction (by rw [current]; exact membership) stmt executed
  opened _ := rfl

theorem Clean.executes (clean : t.Clean execute flag) {stmt : Statement}
    (success : execute stmt = true) (isSuccess : Bool) :
    (t.apply (.execute stmt isSuccess)).Clean execute flag where
  committed := clean.committed
  current := by
    intro transaction membership other executed
    obtain ⟨before, current, rfl⟩ := Option.map_eq_some_iff.mp membership
    rcases List.mem_append.mp executed with earlier | last
    · exact clean.current before current other earlier
    · rw [List.mem_singleton.mp last]
      exact success
  opened begun := clean.opened (by simpa [apply] using begun)

theorem Clean.commits (clean : t.Clean execute flag) :
    ((t.apply .commit).apply (.autocommit true)).Clean execute .none where
  committed := by
    intro transaction membership stmt executed
    cases current : t.current with
    | none =>
        simp only [apply, current, Option.map_none, Option.toList_none, List.append_nil]
          at membership
        exact clean.committed transaction membership stmt executed
    | some done =>
        simp only [apply, current, Option.map_some, Option.toList_some, List.mem_append,
          List.mem_singleton] at membership
        rcases membership with (earlier | rfl) | rfl
        · exact clean.committed transaction earlier stmt executed
        · exact clean.current transaction current stmt executed
        · exact absurd executed List.not_mem_nil
  current := nofun
  opened := nofun

theorem Clean.rollsBack (clean : t.Clean execute flag) (stmt : Statement)
    (next : DBTransactionFlag) :
    (((t.apply (.execute stmt false)).apply .rollback).apply (.autocommit true)).Clean execute
      next where
  committed := by
    intro transaction membership other executed
    cases current : t.current with
    | none =>
        simp only [apply, current, Option.map_none, Option.toList_none, List.append_nil]
          at membership
        exact clean.committed transaction membership other executed
    | some done =>
        simp only [apply, current, Option.map_some, Option.toList_some, List.mem_append,
          List.mem_singleton] at membership
        rcases membership with earlier | rfl
        · exact clean.committed transaction earlier other executed
        · exact absurd executed List.not_mem_nil
  current := nofun
  opened := nofun

/-- A statement executed in no transaction. -/
theorem Clean.alone (clean : t.Clean execute flag) (notOpened : flag ≠ .begin) (stmt : Statement)
    (isSuccess : Bool) : (t.apply (.execute stmt isSuccess)).Clean execute flag where
  committed := clean.committed
  current := by simp [apply, clean.closed notOpened]
  opened := by simp [apply, clean.closed notOpened]

end Transactions

namespace Connection

variable {Statement : Type} (execute : Statement → Bool)

def Clean (c : Connection Statement) : Prop := (Transactions.after c.calls).Clean execute c.flag

theorem Clean.activated : (activated : Connection Statement).Clean execute :=
  ⟨nofun, nofun, nofun⟩

variable {execute} {c : Connection Statement}

theorem Clean.executeQuery (clean : c.Clean execute) (flag : DBTransactionFlag) (stmt : Statement)
    (handler : HandleInfo) : (c.executeQuery execute flag stmt handler).Clean execute := by
  unfold Clean at clean ⊢
  cases outcome : execute stmt with
  | true =>
      have executed := Transactions.Clean.executes clean outcome true
      by_cases commits : flag = .commit
      · simpa [Connection.executeQuery, outcome, commits, commitTransaction, call, pushTask,
          Transactions.after_append] using executed.commits
      · simpa [Connection.executeQuery, outcome, commits, call, pushTask,
          Transactions.after_append] using executed
  | false =>
      by_cases opens : c.flag = .begin
      · have rolledBack := fun next => Transactions.Clean.rollsBack clean stmt next
        by_cases commits : flag = .commit <;>
          simpa [Connection.executeQuery, outcome, opens, commits, rollbackTransaction, call,
            pushTask, Transactions.after_append] using rolledBack _
      · simpa [Connection.executeQuery, outcome, opens, call, pushTask,
          Transactions.after_append] using Transactions.Clean.alone clean opens stmt false

theorem Clean.runQuery (clean : c.Clean execute) (q : AsyncQuery Statement) :
    (c.runQuery execute q).Clean execute := by
  cases q with
  | ping =>
      unfold Clean at clean ⊢
      simpa [Connection.runQuery, call, Transactions.after_append, Transactions.apply] using clean
  | query flag stmt handler =>
      simp only [Connection.runQuery]
      split_ifs with skipping commits begins
      · refine ⟨clean.committed, clean.current, fun opened => ?_⟩
        exact absurd (skipping.symm.trans (clean.opened opened)) (by decide)
      · exact clean
      · have begun := Transactions.Clean.begins clean
        have opened : { c.beginTransaction with flag := .begin }.Clean execute := by
          simpa [Clean, beginTransaction, call, Transactions.after_append] using begun
        exact opened.executeQuery flag stmt handler
      · exact clean.executeQuery flag stmt handler

theorem Clean.apply (clean : c.Clean execute) (action : Action Statement) :
    (action.apply execute c).Clean execute := by
  cases action with
  | addQuery stmt handler flag =>
      simp only [Action.apply, addQuery]
      split_ifs <;> exact clean
  | insertFristQuery stmt handler =>
      simp only [Action.apply, insertFristQuery]
      split_ifs <;> exact clean
  | ping => exact clean
  | pop =>
      cases queue : c.queryList with
      | nil => simpa [Action.apply, pop, queue] using clean
      | cons q rest =>
          have popped : { c with queryList := rest }.Clean execute := clean
          simpa [Action.apply, pop, queue] using popped.runQuery q

theorem Clean.afterActions (clean : c.Clean execute) (actions : List (Action Statement)) :
    (afterActions execute c actions).Clean execute := by
  induction actions generalizing c with
  | nil => exact clean
  | cons action rest inductionHypothesis => exact inductionHypothesis (clean.apply action)

end Connection

/-- What the connection is told of a statement.  One that does not return ends the
process, which makes no call behind it. -/
def reported (boundLength : FieldType → Nat) (fresh : Nat → Nat → UInt8) (replies : Replies) :
    Bool :=
  match executeStatement boundLength fresh replies with
  | .ok made => made.isSuccess
  | .error _ => false

/-- The statement returned, and every call into libmysql that it made succeeded. -/
def Replies.Executed (boundLength : FieldType → Nat) (fresh : Nat → Nat → UInt8)
    (replies : Replies) : Prop :=
  ∃ made, executeStatement boundLength fresh replies = .ok made ∧ made.AllSucceeded

/-- `Execute` reports success exactly if every call succeeded, as long as a result
set is taken over without a failure; and then so it is for every statement of a
transaction that a connection commits. -/
theorem execute_reports_iff (boundLength : FieldType → Nat) (fresh : Nat → Nat → UInt8) :
    (∀ replies made, executeStatement boundLength fresh replies = .ok made →
      ((made.isSuccess = true ↔ made.AllSucceeded) ↔ replies.ResultTaken)) ∧
    ∀ (Statement : Type) (server : Statement → Replies)
      (actions : List (Connection.Action Statement)),
      ∀ transaction ∈ (Transactions.after (Connection.afterActions
        (fun stmt => reported boundLength fresh (server stmt)) .activated actions).calls).committed,
      ∀ stmt ∈ transaction,
        (server stmt).Executed boundLength fresh ↔ (server stmt).ResultTaken := by
  refine ⟨fun replies made => executeStatement_reports, ?_⟩
  intro Statement server actions transaction committed stmt membership
  have clean := (Connection.Clean.activated fun stmt =>
    reported boundLength fresh (server stmt)).afterActions actions
  have success := clean.committed transaction committed stmt membership
  unfold reported at success
  split at success
  case h_1 made returned =>
      rw [← executeStatement_reports returned, success]
      simp [Replies.Executed, returned]
  case h_2 => cases success

/-- A statement whose result set could not be stored, and one without a result set. -/
def unstored : Nat → Replies
  | 0 =>
      { init := true, prepare := true, bindParam := true, execute := true, metadata := some []
        bindResult := true, storeResult := false, fetches := [] }
  | _ =>
      { init := true, prepare := true, bindParam := true, execute := true, metadata := .none
        bindResult := true, storeResult := true, fetches := [] }

/-- The failure is reported as a success and the transaction is committed. -/
theorem unstored_committed :
    (∃ made, executeStatement (fun _ => 0) (fun _ _ => 0) (unstored 0) = .ok made ∧
      made.isSuccess = true ∧ (.storeResult, false) ∈ made.steps) ∧
    [0, 1] ∈ (Transactions.after (Connection.afterActions
      (fun stmt => reported (fun _ => 0) (fun _ _ => 0) (unstored stmt)) .activated
      [.addQuery 0 ⟨1, 0⟩ .begin, .addQuery 1 ⟨2, 0⟩ .commit, .pop, .pop]).calls).committed := by
  exact ⟨⟨_, rfl, rfl, by decide⟩, by decide⟩

end CrossOver.Engine.Mysql
