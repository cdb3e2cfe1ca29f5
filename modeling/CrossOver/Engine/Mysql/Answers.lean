import CrossOver.Engine.Mysql.Connection
import Mathlib.Data.List.Perm.Basic

/-!
# Which queries are answered

Every query carries a handler: the registry ids of a Lua callback and of its
parameter.  The callback runs, and the ids are released, when the work thread
processes and deletes the `DBTask` made for the query.  A query that leaves the
queue without a task keeps its ids forever.

`held` collects the handlers that are still on their way: those of the tasks and
those of the queued queries.
-/

namespace CrossOver.Engine.Mysql

variable {Statement : Type}

inductive LuaEvent where
  | call (funId : Nat) (paramId : Nat) (isSuccess : Bool)
  | removeFunction (funId : Nat)
  | removeParam (paramId : Nat)
  deriving DecidableEq, Repr

namespace DBTask

def process (task : DBTask) : List LuaEvent :=
  if task.handler.funId > 0 then
    [.call task.handler.funId task.handler.paramId task.isSuccess]
  else []

/-- `DBTask::~DBTask` -/
def destroy (task : DBTask) : List LuaEvent :=
  (if task.handler.funId > 0 then [.removeFunction task.handler.funId] else []) ++
    (if task.handler.paramId > 0 then [.removeParam task.handler.paramId] else [])

end DBTask

def workThread (tasks : List DBTask) : List LuaEvent :=
  tasks.flatMap fun task => task.process ++ task.destroy

namespace LuaEvent

def called : LuaEvent → Option (Nat × Nat)
  | .call funId paramId _ => some (funId, paramId)
  | _ => none

def functionReleased : LuaEvent → Option Nat
  | .removeFunction funId => some funId
  | _ => none

def paramReleased : LuaEvent → Option Nat
  | .removeParam paramId => some paramId
  | _ => none

end LuaEvent

namespace HandleInfo

def callback (handler : HandleInfo) : List (Nat × Nat) :=
  if handler.funId > 0 then [(handler.funId, handler.paramId)] else []

def functionRef (handler : HandleInfo) : List Nat :=
  if handler.funId > 0 then [handler.funId] else []

def paramRef (handler : HandleInfo) : List Nat :=
  if handler.paramId > 0 then [handler.paramId] else []

end HandleInfo

/-- Each of the handlers got one task, one call and one release of each id. -/
structure Answered (tasks : List DBTask) (handlers : List HandleInfo) : Prop where
  answered : (tasks.map DBTask.handler).Perm handlers
  called : ((workThread tasks).filterMap LuaEvent.called).Perm
    (handlers.flatMap HandleInfo.callback)
  functionsReleased : ((workThread tasks).filterMap LuaEvent.functionReleased).Perm
    (handlers.flatMap HandleInfo.functionRef)
  paramsReleased : ((workThread tasks).filterMap LuaEvent.paramReleased).Perm
    (handlers.flatMap HandleInfo.paramRef)

theorem workThread_filterMap {Seen : Type} (seen : LuaEvent → Option Seen)
    (expected : HandleInfo → List Seen)
    (one : ∀ task : DBTask, (task.process ++ task.destroy).filterMap seen = expected task.handler)
    (tasks : List DBTask) :
    (workThread tasks).filterMap seen = (tasks.map DBTask.handler).flatMap expected := by
  induction tasks with
  | nil => rfl
  | cons task rest inductionHypothesis =>
      have split : workThread (task :: rest) =
          (task.process ++ task.destroy) ++ workThread rest := rfl
      rw [split, List.filterMap_append, one, inductionHypothesis]
      rfl

theorem Answered.of_perm {tasks : List DBTask} {handlers : List HandleInfo}
    (answered : (tasks.map DBTask.handler).Perm handlers) : Answered tasks handlers := by
  refine ⟨answered, ?_, ?_, ?_⟩
  · rw [workThread_filterMap LuaEvent.called HandleInfo.callback]
    · exact answered.flatMap_right _
    · intro task
      simp only [DBTask.process, DBTask.destroy, HandleInfo.callback]
      split_ifs <;> rfl
  · rw [workThread_filterMap LuaEvent.functionReleased HandleInfo.functionRef]
    · exact answered.flatMap_right _
    · intro task
      simp only [DBTask.process, DBTask.destroy, HandleInfo.functionRef]
      split_ifs <;> rfl
  · rw [workThread_filterMap LuaEvent.paramReleased HandleInfo.paramRef]
    · exact answered.flatMap_right _
    · intro task
      simp only [DBTask.process, DBTask.destroy, HandleInfo.paramRef]
      split_ifs <;> rfl

def AsyncQuery.handlers : AsyncQuery Statement → List HandleInfo
  | .ping => []
  | .query _ _ handler => [handler]

namespace Connection

variable (execute : Statement → Bool)

inductive Action (Statement : Type) where
  | addQuery (stmt : Statement) (handler : HandleInfo) (flag : DBTransactionFlag)
  | insertFristQuery (stmt : Statement) (handler : HandleInfo)
  | ping
  | pop
  deriving DecidableEq, Repr

namespace Action

def apply (c : Connection Statement) : Action Statement → Connection Statement
  | .addQuery stmt handler flag => c.addQuery stmt handler flag
  | .insertFristQuery stmt handler => c.insertFristQuery stmt handler
  | .ping => c.ping
  | .pop => c.pop execute

def passed : Action Statement → List HandleInfo
  | .addQuery _ handler _ => [handler]
  | .insertFristQuery _ handler => [handler]
  | .ping => []
  | .pop => []

/-- The step loses no handler: no query is added with the flag
`DB_TRANSACTION_ROLLBACK` or popped while `flag_` has that value. -/
def Keeps (c : Connection Statement) : Action Statement → Prop
  | .addQuery _ _ flag => flag ≠ .rollback
  | .insertFristQuery _ _ => True
  | .ping => True
  | .pop =>
      match c.queryList with
      | .query _ _ _ :: _ => c.flag ≠ .rollback
      | _ => True

end Action

def afterActions (c : Connection Statement) (actions : List (Action Statement)) :
    Connection Statement :=
  actions.foldl (Action.apply execute) c

def AllKeep (c : Connection Statement) : List (Action Statement) → Prop
  | [] => True
  | action :: rest => action.Keeps c ∧ AllKeep (action.apply execute c) rest

def held (c : Connection Statement) : List HandleInfo :=
  c.tasks.map DBTask.handler ++ c.queryList.flatMap AsyncQuery.handlers

theorem runQuery_isRunning (c : Connection Statement) (q : AsyncQuery Statement) :
    (runQuery execute c q).isRunning = c.isRunning := by
  cases q with
  | ping => rfl
  | query flag stmt handler =>
      simp only [runQuery, executeQuery, beginTransaction, rollbackTransaction, commitTransaction,
        call, pushTask]
      split_ifs <;> rfl

theorem apply_isRunning (c : Connection Statement) (action : Action Statement)
    (running : c.isRunning = true) : (action.apply execute c).isRunning = true := by
  cases action with
  | addQuery stmt handler flag =>
      simp only [Action.apply, addQuery]
      split_ifs <;> exact running
  | insertFristQuery stmt handler =>
      simp only [Action.apply, insertFristQuery]
      split_ifs <;> exact running
  | ping => exact running
  | pop =>
      simp only [Action.apply, pop]
      split
      · exact running
      · rw [runQuery_isRunning]
        exact running

theorem runQuery_tasks (c : Connection Statement) (flag : DBTransactionFlag) (stmt : Statement)
    (handler : HandleInfo) (keeps : c.flag ≠ .rollback) :
    (runQuery execute c (.query flag stmt handler)).tasks =
      c.tasks ++ [{ handler := handler, isSuccess := execute stmt }] := by
  simp only [runQuery, if_neg keeps, executeQuery, beginTransaction, rollbackTransaction,
    commitTransaction, call, pushTask]
  cases outcome : execute stmt <;> simp only [if_true, Bool.false_eq_true, if_false] <;>
    split_ifs <;> rfl

theorem runQuery_tasks_skip (c : Connection Statement) (flag : DBTransactionFlag)
    (stmt : Statement) (handler : HandleInfo) (skipping : c.flag = .rollback) :
    (runQuery execute c (.query flag stmt handler)).tasks = c.tasks := by
  simp only [runQuery, if_pos skipping]
  split_ifs <;> rfl

theorem held_pop_query (c : Connection Statement) (flag : DBTransactionFlag) (stmt : Statement)
    (handler : HandleInfo) (rest : List (AsyncQuery Statement))
    (queue : c.queryList = .query flag stmt handler :: rest) :
    (c.flag ≠ .rollback → (c.pop execute).held = c.held) ∧
      (c.flag = .rollback → (c.pop execute).held.length + 1 = c.held.length) := by
  have popped : c.pop execute =
      { runQuery execute c (.query flag stmt handler) with queryList := rest } := by
    simp only [pop, queue]
    rw [runQuery_queryList]
  constructor
  · intro keeps
    simp [popped, held, runQuery_tasks execute c flag stmt handler keeps, queue,
      AsyncQuery.handlers]
  · intro skipping
    simp [popped, held, runQuery_tasks_skip execute c flag stmt handler skipping, queue,
      AsyncQuery.handlers]
    omega

theorem held_apply (c : Connection Statement) (action : Action Statement)
    (running : c.isRunning = true) :
    (action.Keeps c → (action.apply execute c).held.Perm (c.held ++ action.passed)) ∧
      (¬ action.Keeps c →
        (action.apply execute c).held.length + 1 = (c.held ++ action.passed).length) := by
  cases action with
  | addQuery stmt handler flag =>
      by_cases rejected : flag = .rollback
      · simp [Action.Keeps, Action.apply, Action.passed, addQuery, running, rejected]
      · simp [Action.Keeps, Action.apply, Action.passed, addQuery, running, rejected, held,
          AsyncQuery.handlers]
  | insertFristQuery stmt handler =>
      refine ⟨fun _ => ?_, fun lost => absurd trivial lost⟩
      have moved : (handler :: c.queryList.flatMap AsyncQuery.handlers).Perm
          (c.queryList.flatMap AsyncQuery.handlers ++ [handler]) :=
        List.perm_append_singleton _ _ |>.symm
      simpa [Action.apply, Action.passed, insertFristQuery, running, held, AsyncQuery.handlers,
        List.append_assoc] using moved.append_left _
  | ping =>
      refine ⟨fun _ => ?_, fun lost => absurd trivial lost⟩
      simp [Action.apply, Action.passed, ping, held, AsyncQuery.handlers]
  | pop =>
      cases queue : c.queryList with
      | nil => simp [Action.Keeps, Action.apply, Action.passed, pop, queue]
      | cons q rest =>
          cases q with
          | ping =>
              simp [Action.Keeps, Action.apply, Action.passed, pop, queue, runQuery, call, held,
                AsyncQuery.handlers]
          | query flag stmt handler =>
              obtain ⟨kept, lost⟩ := held_pop_query execute c flag stmt handler rest queue
              simp only [Action.Keeps, queue, Action.apply, Action.passed, List.append_nil]
              exact ⟨fun keeps => by rw [kept keeps], fun skips => lost (not_not.mp skips)⟩

theorem held_afterActions (actions : List (Action Statement)) (c : Connection Statement)
    (running : c.isRunning = true) :
    (AllKeep execute c actions →
        (afterActions execute c actions).held.Perm (c.held ++ actions.flatMap Action.passed)) ∧
      (¬ AllKeep execute c actions →
        (afterActions execute c actions).held.length <
          (c.held ++ actions.flatMap Action.passed).length) ∧
      (afterActions execute c actions).held.length ≤
        (c.held ++ actions.flatMap Action.passed).length := by
  induction actions generalizing c with
  | nil => simp [AllKeep, afterActions]
  | cons action rest inductionHypothesis =>
      obtain ⟨kept, lost⟩ := held_apply execute c action running
      obtain ⟨restKept, restLost, restBound⟩ :=
        inductionHypothesis _ (apply_isRunning execute c action running)
      simp only [List.flatMap_cons, List.length_append] at *
      refine ⟨?_, ?_, ?_⟩
      · rintro ⟨keeps, restKeeps⟩
        have moved := (kept keeps).append_right (rest.flatMap Action.passed)
        rw [List.append_assoc] at moved
        exact (restKept restKeeps).trans moved
      · intro drops
        change (afterActions execute (action.apply execute c) rest).held.length < _
        by_cases keeps : action.Keeps c
        · have restDrops : ¬ AllKeep execute (action.apply execute c) rest :=
            fun restKeeps => drops ⟨keeps, restKeeps⟩
          have shorter := restLost restDrops
          have same := (kept keeps).length_eq
          rw [List.length_append] at same
          omega
        · have shorter := lost keeps
          omega
      · change (afterActions execute (action.apply execute c) rest).held.length ≤ _
        by_cases keeps : action.Keeps c
        · have same := (kept keeps).length_eq
          rw [List.length_append] at same
          omega
        · have shorter := lost keeps
          omega

/-- When the queue has been drained, every query passed in has been answered
exactly once if and only if no step of the run lost a handler. -/
theorem answered_iff_allKeep (actions : List (Action Statement))
    (drained : (afterActions execute activated actions).queryList = []) :
    Answered (afterActions execute activated actions).tasks (actions.flatMap Action.passed) ↔
      AllKeep execute activated actions := by
  obtain ⟨kept, lost, -⟩ := held_afterActions execute actions activated rfl
  have heldEq : (afterActions execute activated actions).held =
      (afterActions execute activated actions).tasks.map DBTask.handler := by
    simp [held, drained]
  have empty : (activated : Connection Statement).held = [] := rfl
  rw [heldEq, empty, List.nil_append] at kept lost
  constructor
  · intro answers
    by_contra drops
    have same := answers.answered.length_eq
    exact absurd same (Nat.ne_of_lt (lost drops))
  · intro keeps
    exact Answered.of_perm (kept keeps)

theorem answered_iff_allKeep_single :
    Answered (afterActions (fun _ : Nat => true) activated
      [.addQuery 0 ⟨1, 2⟩ .none, .ping, .pop, .pop]).tasks [⟨1, 2⟩] :=
  (answered_iff_allKeep (fun _ : Nat => true) [.addQuery 0 ⟨1, 2⟩ .none, .ping, .pop, .pop]
    (by decide)).mpr
      ⟨DBTransactionFlag.noConfusion, trivial, DBTransactionFlag.noConfusion, trivial, trivial⟩

/-- The begin of a transaction fails, and its commit is skipped. -/
theorem skipped_commit_unanswered :
    (afterActions (fun _ : Nat => false) activated
      [.addQuery 0 ⟨1, 2⟩ .begin, .addQuery 1 ⟨3, 4⟩ .commit, .pop, .pop]).queryList = [] ∧
    ¬ Answered (afterActions (fun _ : Nat => false) activated
      [.addQuery 0 ⟨1, 2⟩ .begin, .addQuery 1 ⟨3, 4⟩ .commit, .pop, .pop]).tasks
      [⟨1, 2⟩, ⟨3, 4⟩] := by
  refine ⟨by decide, fun answers => ?_⟩
  have same := answers.answered.length_eq
  exact absurd same (by decide)

end Connection

end CrossOver.Engine.Mysql
