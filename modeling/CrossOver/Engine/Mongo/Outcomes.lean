import CrossOver.Engine.Mongo.Database

/-!
# What a callback is told

Most handlers of `MongoConnection` take over what one call into mongoc returns.
`ProcessFind` and `ProcessFindOne` read a cursor: `mongoc_cursor_next` returns
`false` at the end of the data and on an error alike, and only
`mongoc_cursor_error`, which they do not call, tells the two apart.
-/

namespace CrossOver.Engine.Mongo

open CrossOver.Lib CrossOver.Lua
open CrossOver.Engine.LuaFix (Registry)

/-- A cursor with the documents that are left of its complete run, and whether an
error ends the run. -/
structure Cursor where
  docs : List Bytes
  fails : Bool
  exhausted : Bool := false
  deriving DecidableEq, Repr

namespace Cursor

/-- `mongoc_cursor_next`; `none` stands for `false`. -/
def next (cursor : Cursor) : Option Bytes × Cursor :=
  match cursor.docs with
  | [] => (none, { cursor with exhausted := true })
  | doc :: rest => (some doc, { cursor with docs := rest })

/-- `mongoc_cursor_error` -/
def error (cursor : Cursor) : Bool := cursor.exhausted && cursor.fails

/-- The loop of `ProcessFind`. -/
def findLoop (cursor : Cursor) : List Bytes × Cursor :=
  match _step : cursor.next with
  | (none, last) => ([], last)
  | (some doc, rest) =>
      let (docs, last) := findLoop rest
      (doc :: docs, last)
termination_by cursor.docs.length
decreasing_by
  unfold next at _step
  split at _step
  · cases _step
  · next docs => cases _step; simp [docs]

/-- The loop of `ProcessFindOne`, which stops behind the first document. -/
def findOneLoop (cursor : Cursor) : List Bytes × Cursor :=
  match cursor.next with
  | (none, last) => ([], last)
  | (some doc, rest) => ([doc], rest)

theorem findLoop_eq (cursor : Cursor) :
    cursor.findLoop = (cursor.docs, { cursor with docs := [], exhausted := true }) := by
  obtain ⟨docs, fails, exhausted⟩ := cursor
  induction docs with
  | nil => rw [findLoop]; rfl
  | cons doc rest inductionHypothesis =>
      rw [findLoop]
      simp only [next, inductionHypothesis]

theorem findOneLoop_docs (cursor : Cursor) : cursor.findOneLoop.1 = cursor.docs.take 1 := by
  unfold findOneLoop next
  cases cursor.docs <;> rfl

end Cursor

/-- What mongoc does with a request; `docs` and `fails` are of the cursor. -/
structure Behaviour where
  ret : Bool
  reply : Bytes
  value : Option Bytes
  docs : List Bytes
  fails : Bool
  deriving DecidableEq, Repr

namespace Behaviour

def cursor (behaviour : Behaviour) : Cursor := { docs := behaviour.docs, fails := behaviour.fails }

def outcome (behaviour : Behaviour) : Outcome where
  ret := behaviour.ret
  reply := behaviour.reply
  cursor := behaviour.docs
  value := behaviour.value

/-- The operation succeeded: with a cursor, there is no error on it behind the loop. -/
def Succeeded (behaviour : Behaviour) : MongoTaskType → Prop
  | .find => behaviour.cursor.findLoop.2.error = false
  | .findOne => behaviour.cursor.findOneLoop.2.error = false
  | _ => behaviour.ret = true

/-- No error ends the cursor that a request reads; `find_one` does not read on
behind the first document. -/
def Unbroken (behaviour : Behaviour) : MongoTaskType → Prop
  | .find => behaviour.fails = false
  | .findOne => behaviour.docs = [] → behaviour.fails = false
  | _ => True

end Behaviour

/-- The table of a callback for the documents: one table for each, or that of the
first alone. -/
def Shows (rt : Bson.Runtime) (fuel : Nat) (docs : List Bytes) (result : LuaValue) :
    MongoTaskType → Prop
  | .find => ∃ values, docs.mapM (unpack rt fuel) = some values ∧
      result = .table none values.length (numbered 1 values)
  | .findOne =>
      match docs with
      | [] => result = .table none 0 []
      | doc :: _ => unpack rt fuel doc = some result
  | _ => True

/-- The callback is told of a success exactly if there was one, and then gets what
the cursor yields. -/
structure Truthful (rt : Bson.Runtime) (fuel : Nat) {Value : Type} (taskType : MongoTaskType)
    (behaviour : Behaviour) (callback : Callback Value) : Prop where
  isSuccess : callback.isSuccess = true ↔ behaviour.Succeeded taskType
  result : callback.isSuccess = true → Shows rt fuel behaviour.docs callback.result taskType

section

variable {rt : Bson.Runtime} {fuel : Nat} {Value : Type} {r : Registry Value}
  {callbacks : List (Callback Value)} {callback : Callback Value}

/-- The loops of the handlers are what their results are made of. -/
theorem MongoTask.dispatch_docs (query : MongoTask) (behaviour : Behaviour) :
    (query.taskType = .find →
        (query.dispatch behaviour.outcome).rs.docList = behaviour.cursor.findLoop.1) ∧
      (query.taskType = .findOne →
        (query.dispatch behaviour.outcome).rs.docList = behaviour.cursor.findOneLoop.1) := by
  constructor
  · intro find
    rw [Cursor.findLoop_eq, MongoTask.dispatch, find]
    rfl
  · intro findOne
    rw [Cursor.findOneLoop_docs, MongoTask.dispatch, findOne]
    rfl

theorem MongoTask.dispatch_isSuccess (query : MongoTask) (behaviour : Behaviour) :
    ((query.dispatch behaviour.outcome).rs.isSuccess = true ↔
      behaviour.Succeeded query.taskType) ↔ behaviour.Unbroken query.taskType := by
  unfold MongoTask.dispatch
  cases query.taskType with
  | find =>
      simp [Behaviour.Succeeded, Behaviour.Unbroken, MongoTask.processFind, Cursor.findLoop_eq,
        Cursor.error, Behaviour.cursor]
  | findOne =>
      cases docs : behaviour.docs <;>
        simp [Behaviour.Succeeded, Behaviour.Unbroken, MongoTask.processFindOne,
          Cursor.findOneLoop, Cursor.next, Cursor.error, Behaviour.cursor, docs]
  | _ => exact iff_of_true Iff.rfl trivial

/-- What `MongoDBTask::process` hands to a callback. -/
theorem MongoDBTask.process_callback {task : MongoDBTask}
    (processed : task.process rt fuel r = some callbacks) (called : callback ∈ callbacks) :
    callback.isSuccess = task.rs.isSuccess ∧ task.buildResult rt fuel = some callback.result := by
  unfold MongoDBTask.process at processed
  split at processed
  · obtain ⟨result, built, rfl⟩ := Option.map_eq_some_iff.mp processed
    obtain rfl := List.mem_singleton.mp called
    exact ⟨rfl, built⟩
  · obtain rfl := Option.some.inj processed
    exact absurd called List.not_mem_nil

theorem MongoTask.dispatch_shows {query : MongoTask} {behaviour : Behaviour} {result : LuaValue}
    (built : (query.dispatch behaviour.outcome).buildResult rt fuel = some result) :
    Shows rt fuel behaviour.docs result query.taskType := by
  unfold MongoTask.dispatch at built
  cases taskType : query.taskType with
  | find =>
      rw [taskType] at built
      obtain ⟨values, unpacked, rfl⟩ := Option.map_eq_some_iff.mp built
      exact ⟨values, unpacked, rfl⟩
  | findOne =>
      rw [taskType] at built
      unfold MongoDBTask.buildResult at built
      cases docs : behaviour.docs with
      | nil =>
          simp only [MongoTask.processFindOne, Behaviour.outcome, docs] at built
          exact (Option.some.inj built).symm
      | cons doc rest =>
          simp only [MongoTask.processFindOne, Behaviour.outcome, docs] at built
          exact built
  | _ => exact trivial

/-- Whatever the connection is working on: a callback is truthful exactly if no
error ends the cursor that the request reads. -/
theorem callback_truthful_iff {db db' : MongoDatabase} {index : Nat} {conn : MongoConnection}
    {query : MongoTask} {behaviour : Behaviour} {task : MongoDBTask}
    (found : db.connectLists[index]? = some conn) (working : conn.query = some query)
    (finished : db.finish index behaviour.outcome = some (task, db'))
    (processed : task.process rt fuel r = some callbacks) (called : callback ∈ callbacks) :
    Truthful rt fuel query.taskType behaviour callback ↔
      behaviour.Unbroken query.taskType := by
  have dispatched : task = query.dispatch behaviour.outcome := by
    unfold MongoDatabase.finish MongoConnection.finish at finished
    rw [found, Option.bind_some, working] at finished
    exact (congrArg Prod.fst (Option.some.inj finished)).symm
  obtain ⟨isSuccess, built⟩ := MongoDBTask.process_callback processed called
  rw [dispatched] at isSuccess built
  rw [← MongoTask.dispatch_isSuccess query behaviour, ← isSuccess]
  exact ⟨fun truthful => truthful.isSuccess, fun same =>
    ⟨same, fun _ => MongoTask.dispatch_shows built⟩⟩

end

def noTexts : Bson.Runtime where
  formatNumber _ := []
  userdata _ := []
  rawlen := List.length

/-- The only connection works on a request of the type. -/
def workingOn (taskType : MongoTaskType) : MongoDatabase where
  connectLists := [{ query := some { taskType, handler := ⟨1, 0⟩ } }]

/-- The cursor yields no document, and then the end of the data or an error. -/
def noDocument (fails : Bool) : Behaviour where
  ret := true
  reply := []
  value := none
  docs := []
  fails := fails

def emptyCallback : Callback Nat where
  function := none
  isSuccess := true
  result := .table none 0 []
  param := none

theorem callback_truthful_findOne :
    Truthful noTexts 0 .findOne (noDocument false) emptyCallback := by
  have found : (workingOn .findOne).connectLists[0]? =
      some { query := some { taskType := .findOne, handler := ⟨1, 0⟩ } } := rfl
  have finished : (workingOn .findOne).finish 0 (noDocument false).outcome = some
      ({ taskType := .findOne, handler := ⟨1, 0⟩ : MongoTask }.dispatch (noDocument false).outcome,
        { connectLists := [{}] }) := rfl
  have processed : MongoDBTask.process noTexts 0
      ({ taskType := .findOne, handler := ⟨1, 0⟩ : MongoTask }.dispatch (noDocument false).outcome)
      Registry.initial = some [emptyCallback] := rfl
  exact (callback_truthful_iff found rfl finished processed List.mem_cons_self).mpr fun _ => rfl

/-- A `find` that fails is reported as a success without documents. -/
theorem find_error_reported_as_success :
    (MongoDatabase.finish (workingOn .find) 0 (noDocument true).outcome).bind
        (fun made => MongoDBTask.process noTexts 0 made.1 Registry.initial) =
      some [emptyCallback] ∧
      emptyCallback.isSuccess = true ∧ ¬ (noDocument true).Succeeded .find := by
  refine ⟨rfl, rfl, fun succeeded => ?_⟩
  rw [Behaviour.Succeeded, Cursor.findLoop_eq] at succeeded
  cases succeeded

end CrossOver.Engine.Mongo
