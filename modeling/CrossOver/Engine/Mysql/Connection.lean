import Mathlib.Data.List.Basic
import Mathlib.Tactic.Common

/-!
# `Connection`: one MySQL connection and its thread

Queries are queued by `AddQuery`, `InsertFristQuery` and `Ping`, and the thread
pops and executes them.  `flag_` remembers whether a transaction is open or has
been rolled back and is being skipped up to its commit.

The calls into libmysql are recorded in order.  What `Execute` returns is a
parameter: a function of the statement object, of which every query has its
own.  `Session` is the part of the server the transaction calls act on.
-/

namespace CrossOver.Engine.Mysql

/-- The `enum` with the values a cast from a Lua integer can produce. -/
inductive DBTransactionFlag where
  | none
  | begin
  | rollback
  | commit
  | other (value : Int)
  deriving DecidableEq, Repr

/-- `(DBTransactionFlag)lua_tointeger(L, 7)` -/
def DBTransactionFlag.ofInt (value : Int) : DBTransactionFlag :=
  if value = 0 then .none
  else if value = 1 then .begin
  else if value = 2 then .rollback
  else if value = 3 then .commit
  else .other value

/-- Registry ids of a Lua callback and its parameter; `0` stands for absent. -/
structure HandleInfo where
  funId : Nat
  paramId : Nat
  deriving DecidableEq, Repr

/-- An entry of `query_list_`; a ping carries no statement and no handler. -/
inductive AsyncQuery (Statement : Type) where
  | ping
  | query (flag : DBTransactionFlag) (stmt : Statement) (handler : HandleInfo)
  deriving DecidableEq, Repr

inductive MysqlCall (Statement : Type) where
  | autocommit (on : Bool)
  | execute (stmt : Statement) (isSuccess : Bool)
  | commit
  | rollback
  | ping
  deriving DecidableEq, Repr

/-- A result on its way to the work thread. -/
structure DBTask where
  handler : HandleInfo
  isSuccess : Bool
  deriving DecidableEq, Repr

structure Connection (Statement : Type) where
  queryList : List (AsyncQuery Statement)
  flag : DBTransactionFlag
  isRunning : Bool
  /-- calls into libmysql, oldest first -/
  calls : List (MysqlCall Statement)
  /-- tasks given to `Scheduler::PushTask`, oldest first -/
  tasks : List DBTask
  deriving DecidableEq, Repr

namespace Connection

variable {Statement : Type}

def activated : Connection Statement :=
  { queryList := [], flag := .none, isRunning := true, calls := [], tasks := [] }

def addQuery (c : Connection Statement) (stmt : Statement) (handler : HandleInfo)
    (flag : DBTransactionFlag) : Connection Statement :=
  if c.isRunning = false then c
  else if flag = .rollback then c
  else { c with queryList := c.queryList ++ [.query flag stmt handler] }

def insertFristQuery (c : Connection Statement) (stmt : Statement) (handler : HandleInfo) :
    Connection Statement :=
  if c.isRunning = false then c
  else { c with queryList := .query .none stmt handler :: c.queryList }

def ping (c : Connection Statement) : Connection Statement :=
  { c with queryList := c.queryList ++ [.ping] }

def call (c : Connection Statement) (made : MysqlCall Statement) : Connection Statement :=
  { c with calls := c.calls ++ [made] }

def pushTask (c : Connection Statement) (task : DBTask) : Connection Statement :=
  { c with tasks := c.tasks ++ [task] }

def beginTransaction (c : Connection Statement) : Connection Statement :=
  c.call (.autocommit false)

def rollbackTransaction (c : Connection Statement) : Connection Statement :=
  (c.call .rollback).call (.autocommit true)

def commitTransaction (c : Connection Statement) : Connection Statement :=
  (c.call .commit).call (.autocommit true)

variable (execute : Statement → Bool)

/-- `query->stmt->Execute()` up to the task with its result. -/
def executeQuery (c : Connection Statement) (flag : DBTransactionFlag) (stmt : Statement)
    (handler : HandleInfo) : Connection Statement :=
  let executed := c.call (.execute stmt (execute stmt))
  if execute stmt then
    let finished :=
      if flag = .commit then { executed.commitTransaction with flag := .none } else executed
    finished.pushTask { handler := handler, isSuccess := true }
  else
    let finished :=
      if executed.flag = .begin then
        if flag = .commit then { executed.rollbackTransaction with flag := .none }
        else { executed.rollbackTransaction with flag := .rollback }
      else executed
    finished.pushTask { handler := handler, isSuccess := false }

/-- The body of the inner loop of `Run` for one popped query. -/
def runQuery (c : Connection Statement) : AsyncQuery Statement → Connection Statement
  | .ping => c.call .ping
  | .query flag stmt handler =>
      if c.flag = .rollback then
        if flag = .commit then { c with flag := .none } else c
      else
        let started := if flag = .begin then { c.beginTransaction with flag := .begin } else c
        started.executeQuery execute flag stmt handler

/-- One turn of the inner loop of `Run`: pop, and work on what was popped. -/
def pop (c : Connection Statement) : Connection Statement :=
  match c.queryList with
  | [] => c
  | query :: rest => runQuery execute { c with queryList := rest } query

def turns : Nat → Connection Statement → Connection Statement
  | 0, c => c
  | count + 1, c => turns count (pop execute c)

/-- The thread working through queries in the order in which they are popped. -/
def runQueries (c : Connection Statement) (queries : List (AsyncQuery Statement)) :
    Connection Statement :=
  queries.foldl (runQuery execute) c

/-- Working on a query does not touch the queue behind it. -/
theorem runQuery_queryList (c : Connection Statement) (rest : List (AsyncQuery Statement))
    (q : AsyncQuery Statement) :
    runQuery execute { c with queryList := rest } q =
      { runQuery execute c q with queryList := rest } := by
  cases q with
  | ping => rfl
  | query flag stmt handler =>
      simp only [runQuery, executeQuery, beginTransaction, rollbackTransaction, commitTransaction,
        call, pushTask]
      split_ifs <;> rfl

theorem runQueries_queryList (c : Connection Statement) (queries : List (AsyncQuery Statement)) :
    (runQueries execute c queries).queryList = c.queryList := by
  induction queries generalizing c with
  | nil => rfl
  | cons q rest inductionHypothesis =>
      have kept : (runQuery execute c q).queryList = c.queryList := by
        have whole := congrArg queryList (runQuery_queryList execute c c.queryList q)
        exact whole
      exact (inductionHypothesis (runQuery execute c q)).trans kept

theorem turns_length (before : List (AsyncQuery Statement)) (c : Connection Statement)
    (rest : List (AsyncQuery Statement)) (queue : c.queryList = before ++ rest) :
    turns execute before.length c = runQueries execute { c with queryList := rest } before := by
  induction before generalizing c with
  | nil =>
      have queueEq : rest = c.queryList := by simpa using queue.symm
      rw [queueEq]
      rfl
  | cons q later inductionHypothesis =>
      have popped : pop execute c = { runQuery execute c q with queryList := later ++ rest } := by
        simp only [pop, queue, List.cons_append]
        rw [runQuery_queryList]
      calc turns execute (later.length + 1) c
          = turns execute later.length (pop execute c) := rfl
        _ = runQueries execute { pop execute c with queryList := rest } later :=
            inductionHypothesis _ (by rw [popped])
        _ = runQueries execute { runQuery execute c q with queryList := rest } later := by
            rw [popped]
        _ = runQueries execute { c with queryList := rest } (q :: later) := by
            rw [← runQuery_queryList]
            rfl

theorem turns_queryList (before : List (AsyncQuery Statement)) (c : Connection Statement)
    (rest : List (AsyncQuery Statement)) (queue : c.queryList = before ++ rest) :
    (turns execute before.length c).queryList = rest := by
  rw [turns_length execute before c rest queue, runQueries_queryList]

theorem turns_add (first second : Nat) (c : Connection Statement) :
    turns execute (first + second) c = turns execute second (turns execute first c) := by
  induction first generalizing c with
  | zero => rw [Nat.zero_add]; rfl
  | succ first inductionHypothesis =>
      rw [Nat.succ_add]
      exact inductionHypothesis (pop execute c)

end Connection

structure Session (Statement : Type) where
  autocommit : Bool
  /-- executed in the open transaction, not yet committed -/
  pending : List Statement
  committed : List Statement
  deriving DecidableEq, Repr

namespace Session

variable {Statement : Type}

def opened : Session Statement := { autocommit := true, pending := [], committed := [] }

/-- Switching autocommit on commits what is pending, as a commit does. -/
def apply (s : Session Statement) : MysqlCall Statement → Session Statement
  | .autocommit true => { autocommit := true, pending := [], committed := s.committed ++ s.pending }
  | .autocommit false => { s with autocommit := false }
  | .execute stmt true =>
      if s.autocommit then { s with committed := s.committed ++ [stmt] }
      else { s with pending := s.pending ++ [stmt] }
  | .execute _ false => s
  | .commit => { s with pending := [], committed := s.committed ++ s.pending }
  | .rollback => { s with pending := [] }
  | .ping => s

def after (calls : List (MysqlCall Statement)) : Session Statement :=
  calls.foldl apply opened

end Session

end CrossOver.Engine.Mysql
