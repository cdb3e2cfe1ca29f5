import CrossOver.Engine.LuaFix
import CrossOver.Lua.Bson.Decode

/-!
# `MongoDatabase`: connections, their threads and the results

A request waits in the queue of one connection until the thread of that
connection has worked on it; the result goes to the work thread, which calls
back and releases the handler.  `conn_idx` is an index into the connections, or
`INVALID_INDEX` for the next one in turn.

What the mongoc library returns is an `Outcome`.
-/

namespace CrossOver.Engine.Mongo

open CrossOver.Lib CrossOver.Lua
open CrossOver.Engine.Network (HandleInfo)
open CrossOver.Engine.LuaFix (RefTable Registry)

def invalidIndex : UInt32 := 0xFFFFFFFF

inductive MongoTaskType where
  | commandSimple
  | createIndex
  | dropIndex
  | drop
  | findOne
  | find
  | updateOne
  | updateMany
  | insertOne
  | insertMany
  | deleteOne
  | deleteMany
  | findAndModify
  deriving DecidableEq, Repr

structure MongoTask where
  taskType : MongoTaskType
  handler : HandleInfo := {}
  deriving DecidableEq, Repr

structure MongoResultSet where
  isSuccess : Bool
  docList : List Bytes := []
  deriving DecidableEq, Repr

structure MongoDBTask where
  handle : HandleInfo
  rs : MongoResultSet
  isOneTable : Bool := false
  deriving DecidableEq, Repr

/-- What the library makes of a request: whether it succeeds, the reply to a
command, the documents of a cursor, and the document under `"value"`. -/
structure Outcome where
  ret : Bool
  reply : Bytes
  cursor : List Bytes
  value : Option Bytes
  deriving DecidableEq, Repr

namespace MongoTask

/-- The result of an operation that only succeeds or fails. -/
def finished (query : MongoTask) (outcome : Outcome) : MongoDBTask where
  handle := query.handler
  rs := { isSuccess := outcome.ret }

def processCommandSimple (query : MongoTask) (outcome : Outcome) : MongoDBTask where
  handle := query.handler
  rs := { isSuccess := outcome.ret, docList := if outcome.ret then [outcome.reply] else [] }
  isOneTable := true

def processCreateIndex (query : MongoTask) (outcome : Outcome) : MongoDBTask :=
  query.finished outcome

def processDropIndex (query : MongoTask) (outcome : Outcome) : MongoDBTask :=
  query.finished outcome

def processDrop (query : MongoTask) (outcome : Outcome) : MongoDBTask :=
  query.finished outcome

def processFindOne (query : MongoTask) (outcome : Outcome) : MongoDBTask where
  handle := query.handler
  rs := { isSuccess := true, docList := outcome.cursor.take 1 }
  isOneTable := true

def processFind (query : MongoTask) (outcome : Outcome) : MongoDBTask where
  handle := query.handler
  rs := { isSuccess := true, docList := outcome.cursor }

def processUpdateOne (query : MongoTask) (outcome : Outcome) : MongoDBTask :=
  query.finished outcome

def processUpdateMany (query : MongoTask) (outcome : Outcome) : MongoDBTask :=
  query.finished outcome

def processInsertOne (query : MongoTask) (outcome : Outcome) : MongoDBTask :=
  query.finished outcome

def processInsertMany (query : MongoTask) (outcome : Outcome) : MongoDBTask :=
  query.finished outcome

def processDeleteOne (query : MongoTask) (outcome : Outcome) : MongoDBTask :=
  query.finished outcome

def processDeleteMany (query : MongoTask) (outcome : Outcome) : MongoDBTask :=
  query.finished outcome

def processFindAndModify (query : MongoTask) (outcome : Outcome) : MongoDBTask where
  handle := query.handler
  rs :=
    { isSuccess := outcome.ret
      docList := if outcome.ret then outcome.value.toList else [] }
  isOneTable := true

/-- The `switch` of `MongoConnection::Run`.  Every task carries one of the
thirteen types, so the `default` has nothing to do. -/
def dispatch (query : MongoTask) (outcome : Outcome) : MongoDBTask :=
  match query.taskType with
  | .commandSimple => query.processCommandSimple outcome
  | .createIndex => query.processCreateIndex outcome
  | .dropIndex => query.processDropIndex outcome
  | .drop => query.processDrop outcome
  | .findOne => query.processFindOne outcome
  | .find => query.processFind outcome
  | .updateOne => query.processUpdateOne outcome
  | .updateMany => query.processUpdateMany outcome
  | .insertOne => query.processInsertOne outcome
  | .insertMany => query.processInsertMany outcome
  | .deleteOne => query.processDeleteOne outcome
  | .deleteMany => query.processDeleteMany outcome
  | .findAndModify => query.processFindAndModify outcome

end MongoTask

structure MongoConnection where
  queryList : List MongoTask := []
  query : Option MongoTask := none
  deriving DecidableEq, Repr

namespace MongoConnection

def pushTask (conn : MongoConnection) (task : MongoTask) : MongoConnection :=
  { conn with queryList := conn.queryList ++ [task] }

def ping (conn : MongoConnection) : MongoConnection :=
  conn.pushTask { taskType := .commandSimple }

/-- `query_list_.pop(query)` -/
def pop (conn : MongoConnection) : Option MongoConnection :=
  match conn.query, conn.queryList with
  | none, query :: rest => some { queryList := rest, query := some query }
  | _, _ => none

/-- The result of the request, which is then deleted. -/
def finish (conn : MongoConnection) (outcome : Outcome) : Option (MongoDBTask × MongoConnection) :=
  conn.query.map fun query => (query.dispatch outcome, { conn with query := none })

end MongoConnection

structure MongoDatabase where
  connectLists : List MongoConnection
  nextConnIdx : Nat := 0
  deriving DecidableEq, Repr

namespace MongoDatabase

/-- What `Initialize` leaves with every connection established. -/
def initialized (connCount : Nat) : MongoDatabase where
  connectLists := List.replicate connCount {}

def getNextConnect (db : MongoDatabase) : Nat × MongoDatabase :=
  (db.nextConnIdx, { db with nextConnIdx := (db.nextConnIdx + 1) % db.connectLists.length })

/-- A connection index that leads nowhere takes the task with it. -/
def pushTask (db : MongoDatabase) (task : MongoTask) (connIdx : UInt32) : MongoDatabase :=
  if connIdx = invalidIndex then
    let (next, turned) := db.getNextConnect
    { turned with connectLists := turned.connectLists.modify next (·.pushTask task) }
  else if connIdx.toNat ≥ db.connectLists.length then db
  else { db with connectLists := db.connectLists.modify connIdx.toNat (·.pushTask task) }

def ping (db : MongoDatabase) : MongoDatabase :=
  { db with connectLists := db.connectLists.map MongoConnection.ping }

/-- The thread of a connection takes up a request. -/
def pop (db : MongoDatabase) (index : Nat) : Option MongoDatabase :=
  (db.connectLists[index]?).bind fun conn => conn.pop.map fun popped =>
    { db with connectLists := db.connectLists.set index popped }

/-- The thread of a connection has worked on its request. -/
def finish (db : MongoDatabase) (index : Nat) (outcome : Outcome) :
    Option (MongoDBTask × MongoDatabase) :=
  (db.connectLists[index]?).bind fun conn => (conn.finish outcome).map fun finished =>
    (finished.1, { db with connectLists := db.connectLists.set index finished.2 })

end MongoDatabase

/-! ## The work thread -/

/-- What a callback gets: a success flag, a table, and its parameter if the
handler has one.  The values come out of the registry. -/
structure Callback (Value : Type) where
  function : Option Value
  isSuccess : Bool
  result : LuaValue
  param : Option (Option Value)

/-- `unpack_dict` at the start of a document -/
def unpack (rt : Bson.Runtime) (fuel : Nat) (doc : Bytes) : Option LuaValue :=
  match Bson.unpackDict rt fuel false { memory := doc, ptr := 0, size := doc.length } with
  | .ok (value, _) => some value
  | .error _ => none

/-- The table of all documents, from index 1 on. -/
def numbered (from_ : Int) : List LuaValue → List Entry
  | [] => []
  | value :: rest => (.integer (.ofInt from_), value) :: numbered (from_ + 1) rest

namespace MongoDBTask

variable (rt : Bson.Runtime) (fuel : Nat) {Value : Type}

/-- The table for the callback; `none` is an error raised outside of a protected call. -/
def buildResult (task : MongoDBTask) : Option LuaValue :=
  if task.isOneTable then
    match task.rs.docList with
    | [doc] => unpack rt fuel doc
    | [] => some (.table none 0 [])
    | _ => none
  else
    (task.rs.docList.mapM (unpack rt fuel)).map fun values =>
      .table none values.length (numbered 1 values)

def process (task : MongoDBTask) (r : Registry Value) : Option (List (Callback Value)) :=
  if task.handle.funId > 0 then
    (task.buildResult rt fuel).map fun result =>
      [{ function := r.functions.get task.handle.funId
         isSuccess := task.rs.isSuccess
         result := result
         param :=
           if task.handle.paramId > 0 then some (r.params.get task.handle.paramId) else none }]
  else some []

end MongoDBTask

/-! ## Every request has one result -/

@[simp]
theorem MongoTask.dispatch_handle (query : MongoTask) (outcome : Outcome) :
    (query.dispatch outcome).handle = query.handler := by
  unfold MongoTask.dispatch
  cases query.taskType <;> rfl

/-- The table of a single document never stands for several. -/
def MongoDBTask.Single (task : MongoDBTask) : Prop :=
  task.isOneTable = true → task.rs.docList.length ≤ 1

theorem MongoTask.dispatch_single (query : MongoTask) (outcome : Outcome) :
    (query.dispatch outcome).Single := by
  unfold MongoTask.dispatch
  cases query.taskType with
  | commandSimple =>
      intro _
      unfold processCommandSimple
      dsimp only
      split <;> simp
  | findOne =>
      intro _
      exact (List.length_take ..).trans_le (min_le_left ..)
  | findAndModify =>
      intro _
      unfold processFindAndModify
      dsimp only
      split
      · cases outcome.value <;> simp
      · simp
  | _ => exact fun oneTable => absurd oneTable Bool.false_ne_true

/-- Documents that `unpack_dict` knows are handed over. -/
theorem MongoDBTask.buildResult_isSome {rt : Bson.Runtime} {fuel : Nat} {task : MongoDBTask}
    (single : task.Single) (readable : ∀ doc ∈ task.rs.docList, (unpack rt fuel doc).isSome) :
    (task.buildResult rt fuel).isSome := by
  unfold buildResult
  split
  · next oneTable =>
      have few := single oneTable
      match docs : task.rs.docList with
      | [] => rfl
      | [doc] => exact readable doc (by rw [docs]; exact List.mem_cons_self)
      | _ :: _ :: _ =>
          rw [docs, List.length_cons, List.length_cons] at few
          omega
  · have all : ∀ docs : List Bytes, (∀ doc ∈ docs, (unpack rt fuel doc).isSome) →
        (docs.mapM (unpack rt fuel)).isSome := by
      intro docs known
      induction docs with
      | nil => rfl
      | cons doc rest inductionHypothesis =>
          obtain ⟨value, unpacked⟩ := Option.isSome_iff_exists.mp (known doc List.mem_cons_self)
          obtain ⟨values, others⟩ := Option.isSome_iff_exists.mp
            (inductionHypothesis fun other membership =>
              known other (List.mem_cons_of_mem _ membership))
          rw [List.mapM_cons, unpacked, others]
          rfl
    rw [Option.isSome_map]
    exact all _ readable

/-- What changes in one place of a list changes in one place of the whole. -/
theorem flatMap_set {Slot Item : Type} (items : Slot → List Item) {slots : List Slot}
    {index : Nat} {slot : Slot} (found : slots[index]? = some slot) :
    ∃ rest, (slots.flatMap items).Perm (items slot ++ rest) ∧
      ∀ changed, ((slots.set index changed).flatMap items).Perm (items changed ++ rest) := by
  induction slots generalizing index with
  | nil => cases found
  | cons first others inductionHypothesis =>
      cases index with
      | zero =>
          obtain rfl := Option.some.inj found
          exact ⟨others.flatMap items, .rfl, fun _ => .rfl⟩
      | succ index =>
          obtain ⟨rest, before, after⟩ := inductionHypothesis found
          have around : ∀ part : List Item,
              (items first ++ (part ++ rest)).Perm (part ++ (items first ++ rest)) := by
            intro part
            rw [← List.append_assoc, ← List.append_assoc]
            exact List.perm_append_comm.append_right rest
          exact ⟨items first ++ rest, (before.append_left _).trans (around _),
            fun changed => ((after changed).append_left _).trans (around _)⟩

def MongoConnection.held (conn : MongoConnection) : List HandleInfo :=
  (conn.query.toList ++ conn.queryList).map MongoTask.handler

namespace MongoDatabase

/-- The handlers of the requests whose task is still to come. -/
def queued (db : MongoDatabase) : List HandleInfo := db.connectLists.flatMap MongoConnection.held

def Turned (db : MongoDatabase) : Prop := db.nextConnIdx < db.connectLists.length

variable {db db' : MongoDatabase} {task : MongoTask} {index : Nat}

theorem modify_queued (inside : index < db.connectLists.length) :
    ((db.connectLists.modify index (·.pushTask task)).flatMap MongoConnection.held).Perm
      (task.handler :: db.queued) := by
  have found : db.connectLists[index]? = some db.connectLists[index] :=
    List.getElem?_eq_getElem inside
  obtain ⟨rest, before, after⟩ := flatMap_set MongoConnection.held found
  have changed := after (db.connectLists[index].pushTask task)
  rw [List.modify_eq_set_getElem?, found]
  refine changed.trans (.trans ?_ (before.symm.cons _))
  unfold MongoConnection.held MongoConnection.pushTask
  rw [← List.append_assoc, List.map_append, List.append_assoc]
  exact List.perm_middle

theorem pushTask_spec (task : MongoTask) {connIdx : UInt32} (turned : db.Turned)
    (reaches : connIdx = invalidIndex ∨ connIdx.toNat < db.connectLists.length) :
    (db.pushTask task connIdx).queued.Perm (task.handler :: db.queued) ∧
      (db.pushTask task connIdx).connectLists.length = db.connectLists.length ∧
      (db.pushTask task connIdx).Turned := by
  unfold pushTask
  split
  · refine ⟨modify_queued turned, List.length_modify .., ?_⟩
    change (db.nextConnIdx + 1) % db.connectLists.length < (db.connectLists.modify _ _).length
    rw [List.length_modify]
    exact Nat.mod_lt _ (Nat.zero_lt_of_lt turned)
  · next other =>
      have inside := reaches.resolve_left other
      rw [if_neg (Nat.not_le.mpr inside)]
      refine ⟨modify_queued inside, List.length_modify .., ?_⟩
      change db.nextConnIdx < (db.connectLists.modify _ _).length
      rw [List.length_modify]
      exact turned

theorem ping_spec (db : MongoDatabase) :
    db.ping.queued.Perm (List.replicate db.connectLists.length ({} : HandleInfo) ++ db.queued) := by
  unfold ping queued
  dsimp only
  induction db.connectLists with
  | nil => exact .nil
  | cons conn rest inductionHypothesis =>
      have first : conn.ping.held = conn.held ++ [({} : HandleInfo)] := by
        unfold MongoConnection.ping MongoConnection.pushTask MongoConnection.held
        rw [← List.append_assoc, List.map_append]
        rfl
      rw [List.map_cons, List.flatMap_cons, List.flatMap_cons, first, List.length_cons,
        List.replicate_succ]
      refine (inductionHypothesis.append_left _).trans ?_
      rw [List.append_assoc, List.singleton_append, List.cons_append]
      refine List.perm_middle.trans (.cons _ ?_)
      rw [← List.append_assoc, ← List.append_assoc]
      exact List.perm_append_comm.append_right _

theorem pop_spec (popped : db.pop index = some db') :
    db'.queued.Perm db.queued ∧ db'.connectLists.length = db.connectLists.length ∧
      db'.nextConnIdx = db.nextConnIdx := by
  obtain ⟨conn, found, popped⟩ := Option.bind_eq_some_iff.mp popped
  obtain ⟨conn', taken, rfl⟩ := Option.map_eq_some_iff.mp popped
  obtain ⟨rest, before, after⟩ := flatMap_set MongoConnection.held found
  have same : conn'.held = conn.held := by
    unfold MongoConnection.pop at taken
    split at taken
    · next idle queue =>
        obtain rfl := Option.some.inj taken
        unfold MongoConnection.held
        rw [idle, queue]
        rfl
    · cases taken
  exact ⟨(after conn').trans (by rw [same]; exact before.symm), List.length_set .., rfl⟩

theorem finish_spec {outcome : Outcome} {made : MongoDBTask}
    (finished : db.finish index outcome = some (made, db')) :
    db.queued.Perm (made.handle :: db'.queued) ∧ made.Single ∧
      db'.connectLists.length = db.connectLists.length ∧ db'.nextConnIdx = db.nextConnIdx := by
  obtain ⟨conn, found, finished⟩ := Option.bind_eq_some_iff.mp finished
  obtain ⟨⟨task, conn'⟩, ended, rest⟩ := Option.map_eq_some_iff.mp finished
  cases rest
  obtain ⟨query, working, rest⟩ := Option.map_eq_some_iff.mp ended
  cases rest
  obtain ⟨rest, before, after⟩ := flatMap_set MongoConnection.held found
  refine ⟨?_, query.dispatch_single outcome, List.length_set .., rfl⟩
  have first : conn.held = query.handler :: { conn with query := none : MongoConnection }.held := by
    unfold MongoConnection.held
    rw [working]
    rfl
  rw [MongoTask.dispatch_handle]
  refine before.trans ?_
  rw [first]
  exact ((after _).symm.cons _)

end MongoDatabase

end CrossOver.Engine.Mongo
