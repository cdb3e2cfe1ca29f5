import CrossOver.Binding.Entries
import Mathlib.Data.List.Perm.Basic

/-!
# Which mongo requests are answered

Lua calls, the threads of the connections and the work thread take steps in any
order, and other parts of the engine register and remove handlers of their own.
Beside the state stand the accepted calls with what they were given, and what
has become of them: the tasks, the callbacks and the released ids.

`Answering` sorts the requests into those that wait for their callback, the one
that the work thread is busy with, and those that are done.
-/

namespace CrossOver.Binding.Mongo

open CrossOver.Lib CrossOver.Lua
open CrossOver.Engine.Network (HandleInfo)
open CrossOver.Engine.LuaFix
open CrossOver.Engine.Mongo

variable {Value : Type}

/-- An accepted call: the handler made for it, and what the caller handed over. -/
structure Request (Value : Type) where
  handler : HandleInfo
  function : Arg Value
  param : Option (Arg Value)

def ids (handler : HandleInfo) : List (Kind × UInt32) :=
  (if handler.funId > 0 then [(.function, handler.funId)] else []) ++
    (if handler.paramId > 0 then [(.param, handler.paramId)] else [])

theorem funId_mem_ids {handler : HandleInfo} (positive : handler.funId > 0) :
    (.function, handler.funId) ∈ ids handler := by
  rw [ids, if_pos positive]
  exact List.mem_append_left _ List.mem_cons_self

theorem paramId_mem_ids {handler : HandleInfo} (positive : handler.paramId > 0) :
    (.param, handler.paramId) ∈ ids handler := by
  rw [ids, if_pos positive]
  exact List.mem_append_right _ List.mem_cons_self

structure World (Value : Type) where
  db : MongoDatabase
  /-- the tasks that the scheduler holds for the work thread -/
  pending : List MongoDBTask := []
  working : Option MongoDBTask := none
  registry : Registry (Arg Value) := .initial
  panicked : Bool := false
  requests : List (Request Value) := []
  pings : Nat := 0
  produced : List MongoDBTask := []
  callbacks : List (Callback (Arg Value)) := []
  released : List (Kind × UInt32) := []

inductive Action (Value : Type) where
  /-- `packs` tells whether `pack_dict` takes the tables without an error -/
  | call (operation : MongoTaskType) (args : List (Arg Value)) (packs : Bool)
  | getNextConnect
  | ping
  | pop (conn : Nat)
  | finish (conn : Nat) (outcome : Outcome)
  | process
  | destroy
  | registerElsewhere (values : List (Arg Value × Option (Arg Value)))
  | removeElsewhere (handles : List HandleInfo)

namespace World

def initialized (connCount : Nat) : World Value where
  db := .initialized connCount

/-- What the caller put in the places of the operation. -/
def requestOf (operation : MongoTaskType) (args : List (Arg Value)) (handler : HandleInfo) :
    Request Value where
  handler := handler
  function := (argAt args (mongoPlace operation).function).getD .nil
  param := (mongoPlace operation).param.bind (argAt args)

/-- `t->db->PushTask(query, conn_idx)` -/
def accept (w : World Value) (operation : MongoTaskType) (args : List (Arg Value))
    (handler : HandleInfo) (connIdx : UInt32) : World Value :=
  { w with
    db := w.db.pushTask { taskType := operation, handler := handler } connIdx
    requests := w.requests ++ [requestOf operation args handler] }

/-- An error in the checks or in `pack_dict` goes back to the caller; the ids
are registered by then. -/
def call (w : World Value) (operation : MongoTaskType) (args : List (Arg Value)) (packs : Bool) :
    Option (World Value) :=
  match (mongoEntryPoint operation).call args w.registry with
  | .error _ => some w
  | .ok none => none
  | .ok (some passed) =>
      let registered := { w with registry := passed.registry }
      if packs then
        match passed.handlers with
        | [handler] => some (registered.accept operation args handler passed.connIdx)
        | _ => none
      else some registered

/-- The thread of the connection hands the task to `Scheduler::PushTask`. -/
def finish (w : World Value) (conn : Nat) (outcome : Outcome) : Option (World Value) :=
  (w.db.finish conn outcome).map fun finished =>
    { w with
      db := finished.2
      pending := w.pending ++ [finished.1]
      produced := w.produced ++ [finished.1] }

variable (rt : Bson.Runtime) (fuel : Nat)

def process (w : World Value) : Option (World Value) :=
  match w.working, w.pending with
  | none, task :: rest =>
      match task.process rt fuel w.registry with
      | none => some { w with panicked := true }
      | some made =>
          some { w with pending := rest, working := some task, callbacks := w.callbacks ++ made }
  | _, _ => none

/-- `MongoDBTask::~MongoDBTask` -/
def destroy (w : World Value) : Option (World Value) :=
  w.working.map fun task =>
    { w with
      working := none
      registry := w.registry.removeHandlers [task.handle]
      released := w.released ++ ids task.handle }

def exec (w : World Value) : Action Value → Option (World Value)
  | .call operation args packs => w.call operation args packs
  | .getNextConnect => some { w with db := w.db.getNextConnect.2 }
  | .ping => some { w with db := w.db.ping, pings := w.pings + w.db.connectLists.length }
  | .pop conn => (w.db.pop conn).map fun db => { w with db := db }
  | .finish conn outcome => w.finish conn outcome
  | .process => w.process rt fuel
  | .destroy => w.destroy
  | .registerElsewhere values =>
      (w.registry.register values).map fun made => { w with registry := made.2 }
  | .removeElsewhere handles => some { w with registry := w.registry.removeHandlers handles }

/-- The handlers that are on their way. -/
def flight (w : World Value) : List HandleInfo :=
  w.db.queued ++ w.pending.map MongoDBTask.handle ++ w.working.toList.map MongoDBTask.handle

end World

/-- Other parts of the engine remove only what they have registered. -/
def Action.OwnIds (w : World Value) : Action Value → Prop
  | .removeElsewhere handles => ∀ handler ∈ handles, ∀ id ∈ ids handler,
      id ∉ w.flight.flatMap ids
  | _ => True

/-- The calls and the threads of a database with at least one connection. -/
def requests (Value : Type) (rt : Bson.Runtime) (fuel : Nat) :
    System (World Value) (Action Value) where
  initial w := ∃ connCount, 0 < connCount ∧ w = .initialized connCount
  step w action w' := w.panicked = false ∧ action.OwnIds w ∧ w.exec rt fuel action = some w'

/-- An accepted call is not `update_many` and its connection exists; a document
that goes to a callback can be unpacked. -/
def Action.Careful (rt : Bson.Runtime) (fuel : Nat) (w : World Value) : Action Value → Prop
  | .call operation args packs =>
      packs = true → (mongoEntryPoint operation).checkArgs args = .ok () →
        operation ≠ .updateMany ∧
          ((mongoEntryPoint operation).connIdx.read args = invalidIndex ∨
            ((mongoEntryPoint operation).connIdx.read args).toNat < w.db.connectLists.length)
  | .process => ∀ task ∈ w.pending.head?, task.handle.funId > 0 →
      ∀ doc ∈ task.rs.docList, (unpack rt fuel doc).isSome
  | _ => True

/-! ## The requests on their way -/

def Request.registration (q : Request Value) : Registration (Arg Value) where
  handles := [q.handler]
  values := [(q.function, q.param)]

/-- There is an id for the function, and one for the parameter if it was supplied. -/
structure Request.Complete (q : Request Value) : Prop where
  function : 0 < q.handler.funId
  param : 0 < q.handler.paramId ↔ q.param.isSome = true

def Request.expected (q : Request Value) : Option (Arg Value) × Option (Option (Arg Value)) :=
  (some q.function, q.param.map some)

def given (made : Callback (Arg Value)) : Option (Arg Value) × Option (Option (Arg Value)) :=
  (made.function, made.param)

/-- No party of the registry but the requests is looked at. -/
def nobody (_ : Unit) (_ : List HandleInfo) : Prop := False

/-- The tasks of pings have no handler. -/
def blank (count : Nat) : List HandleInfo := List.replicate count ({} : HandleInfo)

structure Answering (w : World Value) (waiting busy closed : List (Request Value))
    (idle free : Nat) : Prop where
  calm : w.panicked = false
  turned : w.db.Turned
  requests : w.requests.Perm (waiting ++ busy ++ closed)
  produced : (w.db.queued ++ w.produced.map MongoDBTask.handle).Perm
    (w.requests.map Request.handler ++ blank w.pings)
  flight : (w.db.queued ++ w.pending.map MongoDBTask.handle).Perm
    (waiting.map Request.handler ++ blank idle)
  working : w.working.toList.map MongoDBTask.handle =
    busy.map Request.handler ++ blank free
  fresh : ∀ kind, (w.registry.table kind).Fresh
  sound : w.registry.Sound nobody ((busy ++ waiting).map Request.registration)
  complete : ∀ q ∈ waiting, q.Complete
  single : ∀ task ∈ w.pending, task.Single
  callbacks : (w.callbacks.map given).Perm ((busy ++ closed).map Request.expected)
  released : w.released.Perm (closed.flatMap fun q => ids q.handler)

namespace Answering

variable {w w' : World Value} {waiting busy closed : List (Request Value)} {idle free : Nat}

theorem initialized {connCount : Nat} (some_ : 0 < connCount) :
    Answering (World.initialized connCount : World Value) [] [] [] 0 0 := by
  have nothing : (MongoDatabase.initialized connCount).queued = [] := by
    unfold MongoDatabase.queued MongoDatabase.initialized
    rw [List.flatMap_replicate]
    exact List.flatten_replicate_nil
  refine ⟨rfl, ?_, .nil, ?_, ?_, rfl, ?_, ?_, ?_, ?_, .nil, .nil⟩
  · change 0 < (List.replicate connCount _).length
    rw [List.length_replicate]
    exact some_
  · change ((MongoDatabase.initialized connCount).queued ++ []).Perm _
    rw [nothing]
    exact .nil
  · change ((MongoDatabase.initialized connCount).queued ++ []).Perm _
    rw [nothing]
    exact .nil
  · intro kind
    cases kind with
    | function => exact .initial
    | param => exact .initial
  · exact .initial fun _ _ => id
  · exact fun q membership => absurd membership List.not_mem_nil
  · exact fun task membership => absurd membership List.not_mem_nil

/-- The place of an accepted operation holds what the request says. -/
theorem register_request {operation : MongoTaskType} {args : List (Arg Value)}
    {r : Registry (Arg Value)} {passed : Passed Value} {handler : HandleInfo}
    (other : operation ≠ .updateMany) (fresh : ∀ kind, (r.table kind).Fresh)
    (called : (mongoEntryPoint operation).call args r = .ok (some passed))
    (one : passed.handlers = [handler]) :
    (World.requestOf operation args handler).Complete ∧
      r.register [((World.requestOf operation args handler).function,
        (World.requestOf operation args handler).param)] = some ([handler], passed.registry) := by
  obtain ⟨accepted, registered⟩ := EntryPoint.call_ok called
  have refs := mongo_refs_eq other
  obtain ⟨value, found⟩ := mongo_callback_function accepted
  have function : (World.requestOf operation args handler).function = .function value := by
    unfold World.requestOf
    rw [found, Option.getD_some]
  have functionIn : (mongoPlace operation).functionIn args = some (.function value) := by
    rw [Place.functionIn, found, Option.filter_some]
    rfl
  have paramIn : (mongoPlace operation).paramIn args =
      (World.requestOf operation args handler).param :=
    mongo_paramIn accepted (by rw [refs]; exact List.mem_cons_self)
  constructor
  · have given := (EntryPoint.register_spec fresh registered).2
    rw [refs, one, List.forall₂_cons, functionIn, paramIn] at given
    refine ⟨given.1.1.1, ?_⟩
    have param := given.1.2
    cases supplied : (World.requestOf operation args handler).param with
    | none =>
        rw [supplied] at param
        have absent : handler.paramId = 0 := param
        refine iff_of_false ?_ Bool.false_ne_true
        change ¬0 < handler.paramId
        rw [absent]
        exact lt_irrefl 0
    | some arg =>
        rw [supplied] at param
        exact iff_of_true param.1 rfl
  · obtain ⟨funIds, paramIds, first, second, handlers, -⟩ := EntryPoint.register_refs registered
    rw [refs, List.map_singleton, functionIn] at first
    rw [refs, List.map_singleton, paramIn] at second
    rw [function, Registry.register, List.map_singleton, List.map_singleton, first,
      Option.bind_some, second, Option.map_some, ← one, handlers]

theorem call {operation : MongoTaskType} {args : List (Arg Value)} {packs : Bool}
    {rt : Bson.Runtime} {fuel : Nat} (answering : Answering w waiting busy closed idle free)
    (careful : Action.Careful rt fuel w (.call operation args packs))
    (called : w.call operation args packs = some w') :
    ∃ waiting', Answering w' waiting' busy closed idle free := by
  unfold World.call at called
  rcases entered : (mongoEntryPoint operation).call args w.registry with failure | none | passed
  · rw [entered] at called
    obtain rfl := Option.some.inj called
    exact ⟨waiting, answering⟩
  · rw [entered] at called
    cases called
  · rw [entered] at called
    dsimp only at called
    obtain ⟨accepted, registered⟩ := EntryPoint.call_ok entered
    obtain ⟨fresh, -⟩ := EntryPoint.register_spec answering.fresh registered
    obtain ⟨funIds, paramIds, functions, params, -, connIdx⟩ := EntryPoint.register_refs registered
    split at called
    · next packed =>
        split at called
        · next handler one =>
            obtain rfl := Option.some.inj called
            obtain ⟨other, reaches⟩ := careful packed accepted
            obtain ⟨complete, made⟩ := register_request other answering.fresh entered one
            rw [← connIdx] at reaches
            obtain ⟨queued, -, turned⟩ := MongoDatabase.pushTask_spec
              { taskType := operation, handler := handler } answering.turned reaches
            refine ⟨World.requestOf operation args handler :: waiting, answering.calm, turned, ?_,
              ?_, ?_, answering.working, fresh, ?_, ?_, answering.single, answering.callbacks,
              answering.released⟩
            · exact (answering.requests.append_right _).trans
                (List.perm_append_singleton _ _)
            · refine (queued.append_right _).trans ((answering.produced.cons _).trans ?_)
              rw [World.accept, List.map_append, List.append_assoc]
              exact List.perm_middle.symm
            · exact (queued.append_right _).trans (answering.flight.cons _)
            · have sound := answering.sound.register made
              refine sound.perm ?_
              rw [List.map_append, List.map_cons, List.map_append]
              exact List.perm_middle
            · intro q membership
              rcases List.mem_cons.mp membership with rfl | old
              · exact complete
              · exact answering.complete q old
        · cases called
    · obtain rfl := Option.some.inj called
      refine ⟨waiting, { answering with fresh := fresh, sound := ?_ }⟩
      exact ⟨(answering.sound.functions.refAll functions).forget,
        (answering.sound.params.refAll params).forget, answering.sound.complete⟩

theorem getNextConnect (answering : Answering w waiting busy closed idle free) :
    Answering { w with db := w.db.getNextConnect.2 } waiting busy closed idle free :=
  { answering with turned := Nat.mod_lt _ (Nat.zero_lt_of_lt answering.turned) }

theorem ping (answering : Answering w waiting busy closed idle free) :
    Answering { w with db := w.db.ping, pings := w.pings + w.db.connectLists.length }
      waiting busy closed (idle + w.db.connectLists.length) free := by
  have more : ∀ count, blank (count + w.db.connectLists.length) =
      blank w.db.connectLists.length ++ blank count := by
    intro count
    rw [Nat.add_comm]
    exact List.replicate_add ..
  have around : ∀ {held tasks handlers : List HandleInfo} {count : Nat},
      (held ++ tasks).Perm (handlers ++ blank count) →
      (blank w.db.connectLists.length ++ held ++ tasks).Perm
        (handlers ++ blank (count + w.db.connectLists.length)) := by
    intro held tasks handlers count same
    rw [more, List.append_assoc, ← List.append_assoc handlers]
    exact (same.append_left _).trans (by
      rw [← List.append_assoc]
      exact List.perm_append_comm.append_right _)
  have queued := MongoDatabase.ping_spec w.db
  refine { answering with turned := ?_, produced := ?_, flight := ?_ }
  · change w.db.nextConnIdx < (w.db.connectLists.map _).length
    rw [List.length_map]
    exact answering.turned
  · exact (queued.append_right _).trans (around answering.produced)
  · exact (queued.append_right _).trans (around answering.flight)

theorem pop {db : MongoDatabase} {conn : Nat}
    (answering : Answering w waiting busy closed idle free) (popped : w.db.pop conn = some db) :
    Answering { w with db := db } waiting busy closed idle free := by
  obtain ⟨queued, length, next⟩ := MongoDatabase.pop_spec popped
  refine { answering with turned := ?_, produced := ?_, flight := ?_ }
  · change db.nextConnIdx < db.connectLists.length
    rw [next, length]
    exact answering.turned
  · exact (queued.append_right _).trans answering.produced
  · exact (queued.append_right _).trans answering.flight

theorem finish {conn : Nat} {outcome : Outcome}
    (answering : Answering w waiting busy closed idle free)
    (finished : w.finish conn outcome = some w') : Answering w' waiting busy closed idle free := by
  obtain ⟨⟨made, db⟩, ended, rest⟩ := Option.map_eq_some_iff.mp finished
  subst rest
  obtain ⟨queued, single, length, next⟩ := MongoDatabase.finish_spec ended
  have moved : ∀ tasks : List MongoDBTask,
      (db.queued ++ (tasks ++ [made]).map MongoDBTask.handle).Perm
        (w.db.queued ++ tasks.map MongoDBTask.handle) := by
    intro tasks
    rw [List.map_append, ← List.append_assoc]
    exact (List.perm_append_singleton _ _).trans (queued.symm.append_right _)
  refine { answering with turned := ?_, produced := ?_, flight := ?_, single := ?_ }
  · change db.nextConnIdx < db.connectLists.length
    rw [next, length]
    exact answering.turned
  · exact (moved _).trans answering.produced
  · exact (moved _).trans answering.flight
  · intro task membership
    rcases List.mem_append.mp membership with old | new
    · exact answering.single task old
    · obtain rfl := List.mem_singleton.mp new
      exact single

theorem task_cases {task : MongoDBTask} {rest : List MongoDBTask}
    (answering : Answering w waiting busy closed idle free) (pending : w.pending = task :: rest) :
    (∃ q before after, waiting = before ++ q :: after ∧ task.handle = q.handler ∧
      (w.db.queued ++ rest.map MongoDBTask.handle).Perm
        ((before ++ after).map Request.handler ++ blank idle)) ∨
    (∃ fewer, idle = fewer + 1 ∧ task.handle = {} ∧
      (w.db.queued ++ rest.map MongoDBTask.handle).Perm
        (waiting.map Request.handler ++ blank fewer)) := by
  have flight := answering.flight
  rw [pending, List.map_cons] at flight
  have moved := List.perm_middle.symm.trans flight
  have membership := moved.subset List.mem_cons_self
  rcases List.mem_append.mp membership with waits | idles
  · obtain ⟨q, among, same⟩ := List.mem_map.mp waits
    obtain ⟨before, after, rfl⟩ := List.append_of_mem among
    refine Or.inl ⟨q, before, after, rfl, same.symm, ?_⟩
    rw [List.map_append, List.map_cons, same, List.append_assoc, List.cons_append] at moved
    have others := (moved.trans List.perm_middle).cons_inv
    rw [List.map_append, List.append_assoc]
    exact others
  · obtain ⟨positive, same⟩ := List.mem_replicate.mp idles
    obtain ⟨fewer, rfl⟩ := Nat.exists_eq_succ_of_ne_zero positive
    refine Or.inr ⟨fewer, rfl, same, ?_⟩
    rw [same, blank, List.replicate_succ] at moved
    exact (moved.trans List.perm_middle).cons_inv

/-- The work thread is not busy with anything. -/
theorem idle_of_none (answering : Answering w waiting busy closed idle free)
    (resting : w.working = none) : busy = [] ∧ free = 0 := by
  have working := answering.working
  rw [resting] at working
  obtain ⟨none, nothing⟩ := List.append_eq_nil_iff.mp working.symm
  exact ⟨List.map_eq_nil_iff.mp none, (List.replicate_eq_nil_iff _).mp nothing⟩

theorem process_request {rt : Bson.Runtime} {fuel : Nat} {task : MongoDBTask}
    {r : Registry (Arg Value)} {q : Request Value} (same : task.handle = q.handler)
    (complete : q.Complete) (stands : q.registration.Stands r) (single : task.Single)
    (readable : ∀ doc ∈ task.rs.docList, (unpack rt fuel doc).isSome) :
    ∃ made, task.process rt fuel r = some [made] ∧ given made = q.expected := by
  obtain ⟨result, built⟩ := Option.isSome_iff_exists.mp
    (MongoDBTask.buildResult_isSome single readable)
  unfold MongoDBTask.process
  rw [same, if_pos complete.function, built, Option.map_some]
  refine ⟨_, rfl, ?_⟩
  have function : r.functions.get q.handler.funId = some q.function :=
    stands.1 (q.handler.funId, q.function) List.mem_cons_self
  unfold given Request.expected
  dsimp only
  rw [function]
  refine congrArg (Prod.mk _) ?_
  cases supplied : q.param with
  | none =>
      have absent : ¬q.handler.paramId > 0 := fun positive => by
        have isSome := complete.param.mp positive
        rw [supplied] at isSome
        cases isSome
      rw [if_neg absent, Option.map_none]
  | some param =>
      have positive : q.handler.paramId > 0 := complete.param.mpr (by rw [supplied]; rfl)
      have leads : r.params.get q.handler.paramId = some param := by
        refine stands.2 (q.handler.paramId, param) ?_
        unfold Registration.params Request.registration
        rw [List.map_singleton, List.map_singleton, supplied]
        exact List.mem_cons_self
      rw [if_pos positive, leads, Option.map_some]

theorem process {rt : Bson.Runtime} {fuel : Nat}
    (answering : Answering w waiting busy closed idle free)
    (careful : Action.Careful rt fuel w .process) (processed : w.process rt fuel = some w') :
    ∃ waiting' busy' idle' free', Answering w' waiting' busy' closed idle' free' := by
  unfold World.process at processed
  split at processed
  · next task rest resting pending =>
      obtain ⟨rfl, rfl⟩ := answering.idle_of_none resting
      have single := answering.single task (by rw [pending]; exact List.mem_cons_self)
      have others : ∀ other ∈ rest, other.Single := fun other membership =>
        answering.single other (by rw [pending]; exact List.mem_cons_of_mem _ membership)
      rcases answering.task_cases pending with
        ⟨q, before, after, rfl, same, flight⟩ | ⟨fewer, rfl, same, flight⟩
      · have waits : q ∈ before ++ q :: after := List.mem_append_right _ List.mem_cons_self
        have complete := answering.complete q waits
        have stands : q.registration.Stands w.registry :=
          answering.sound.stands (List.mem_map_of_mem waits)
        have readable := careful task (by rw [pending]; rfl) (by rw [same]; exact complete.function)
        obtain ⟨made, called, expected⟩ := process_request same complete stands single readable
        rw [called] at processed
        obtain rfl := Option.some.inj processed
        refine ⟨before ++ after, [q], idle, 0,
          { answering with
            requests := ?_
            flight := flight
            working := congrArg (· :: []) same
            sound := answering.sound.perm ?_
            complete := ?_
            single := others
            callbacks := ?_ }⟩
        · refine answering.requests.trans ?_
          rw [List.append_nil]
          refine List.Perm.append_right _ ?_
          exact List.perm_middle.trans (List.perm_append_singleton _ _).symm
        · have moved : (q :: (before ++ after)).Perm (before ++ q :: after) :=
            List.perm_middle.symm
          exact moved.map _
        · intro other membership
          refine answering.complete other ?_
          rcases List.mem_append.mp membership with left | right
          · exact List.mem_append_left _ left
          · exact List.mem_append_right _ (List.mem_cons_of_mem _ right)
        · dsimp only
          rw [List.map_append, List.map_singleton, expected]
          exact (List.perm_append_singleton _ _).trans (answering.callbacks.cons _)
      · have called : task.process rt fuel w.registry = some [] := by
          unfold MongoDBTask.process
          rw [same]
          rfl
        rw [called] at processed
        obtain rfl := Option.some.inj processed
        refine ⟨waiting, [], fewer, 1,
          { answering with
            flight := flight
            working := congrArg (· :: []) same
            single := others
            callbacks := ?_ }⟩
        dsimp only
        rw [List.append_nil]
        exact answering.callbacks
  · cases processed

theorem destroy (answering : Answering w waiting busy closed idle free)
    (destroyed : w.destroy = some w') :
    ∃ closed', Answering w' waiting [] closed' idle 0 := by
  obtain ⟨task, working, rest⟩ := Option.map_eq_some_iff.mp destroyed
  subst rest
  have fresh := Registry.removeHandlers_fresh answering.fresh [task.handle]
  have same := answering.working
  rw [working] at same
  cases busy with
  | nil =>
      have blankHandle : task.handle = {} := by
        have among : task.handle ∈ blank free := by
          have whole : [task.handle] = blank free := same
          rw [← whole]
          exact List.mem_cons_self
        exact (List.mem_replicate.mp among).2
      refine ⟨closed,
        { answering with working := rfl, fresh := fresh, sound := ?_, released := ?_ }⟩
      · dsimp only
        rw [blankHandle]
        exact answering.sound
      · dsimp only
        rw [blankHandle]
        have none : ids ({} : HandleInfo) = [] := rfl
        rw [none, List.append_nil]
        exact answering.released
  | cons q others =>
      obtain ⟨handle, nothing⟩ := List.cons.inj same
      obtain ⟨noOthers, -⟩ := List.append_eq_nil_iff.mp nothing.symm
      obtain rfl := List.map_eq_nil_iff.mp noOthers
      refine ⟨q :: closed,
        { answering with
          requests := ?_
          working := rfl
          fresh := fresh
          sound := ?_
          callbacks := answering.callbacks
          released := ?_ }⟩
      · refine answering.requests.trans ?_
        rw [List.append_nil, List.append_assoc]
        rfl
      · have handled : task.handle = q.handler := handle
        dsimp only
        rw [handled]
        exact answering.sound.release
      · have handled : task.handle = q.handler := handle
        dsimp only
        rw [handled, List.flatMap_cons]
        exact (answering.released.append_right _).trans List.perm_append_comm

theorem registerElsewhere {values : List (Arg Value × Option (Arg Value))}
    {handles : List HandleInfo} {r : Registry (Arg Value)}
    (answering : Answering w waiting busy closed idle free)
    (made : w.registry.register values = some (handles, r)) :
    Answering { w with registry := r } waiting busy closed idle free :=
  { answering with
    fresh := Registry.register_fresh answering.fresh made
    sound := (answering.sound.register made).forget }

theorem flight_of_request (answering : Answering w waiting busy closed idle free)
    {q : Request Value} (among : q ∈ busy ++ waiting) : q.handler ∈ w.flight := by
  unfold World.flight
  rcases List.mem_append.mp among with working | waits
  · refine List.mem_append_right _ ?_
    rw [answering.working]
    exact List.mem_append_left _ (List.mem_map_of_mem working)
  · refine List.mem_append_left _ (answering.flight.symm.subset ?_)
    exact List.mem_append_left _ (List.mem_map_of_mem waits)

theorem removeElsewhere {handles : List HandleInfo}
    (answering : Answering w waiting busy closed idle free)
    (own : (Action.removeElsewhere handles : Action Value).OwnIds w) :
    Answering { w with registry := w.registry.removeHandlers handles }
      waiting busy closed idle free := by
  have inFlight : ∀ q ∈ busy ++ waiting, ∀ id ∈ ids q.handler, id ∈ w.flight.flatMap ids :=
    fun q among id membership =>
      List.mem_flatMap.mpr ⟨q.handler, answering.flight_of_request among, membership⟩
  refine
    { answering with
      fresh := Registry.removeHandlers_fresh answering.fresh handles
      sound := answering.sound.removeOthers (fun _ _ => id) ?_ ?_ }
  · intro handle membership positive bound
    obtain ⟨entry, entered, same⟩ := List.mem_map.mp bound
    obtain ⟨holder, held, entered⟩ := List.mem_flatMap.mp entered
    obtain ⟨q, among, rfl⟩ := List.mem_map.mp held
    obtain rfl := List.mem_singleton.mp entered
    have shared : q.handler.funId = handle.funId := same
    have theirs : (.function, handle.funId) ∈ ids q.handler :=
      shared ▸ funId_mem_ids (shared.symm ▸ positive)
    exact own handle membership _ (funId_mem_ids positive) (inFlight q among _ theirs)
  · intro handle membership positive bound
    obtain ⟨entry, entered, same⟩ := List.mem_map.mp bound
    obtain ⟨holder, held, entered⟩ := List.mem_flatMap.mp entered
    obtain ⟨q, among, rfl⟩ := List.mem_map.mp held
    have entryId : entry.1 = q.handler.paramId := by
      unfold Registration.params Request.registration at entered
      rw [List.map_singleton, List.map_singleton] at entered
      cases supplied : q.param with
      | none =>
          rw [supplied] at entered
          cases entered
      | some param =>
          rw [supplied] at entered
          rw [List.mem_singleton.mp entered]
    have shared : q.handler.paramId = handle.paramId := entryId.symm.trans same
    have theirs : (.param, handle.paramId) ∈ ids q.handler :=
      shared ▸ paramId_mem_ids (shared.symm ▸ positive)
    exact own handle membership _ (paramId_mem_ids positive) (inFlight q among _ theirs)

end Answering

variable {rt : Bson.Runtime} {fuel : Nat}

/-- One step of the system, whatever it is. -/
theorem Answering.step {w w' : World Value} {action : Action Value}
    {waiting busy closed : List (Request Value)} {idle free : Nat}
    (answering : Answering w waiting busy closed idle free) (careful : action.Careful rt fuel w)
    (own : action.OwnIds w) (executed : w.exec rt fuel action = some w') :
    ∃ waiting' busy' closed' idle' free', Answering w' waiting' busy' closed' idle' free' := by
  cases action with
  | call operation args packs =>
      obtain ⟨waiting', after⟩ := answering.call careful executed
      exact ⟨_, _, _, _, _, after⟩
  | getNextConnect =>
      obtain rfl := Option.some.inj executed
      exact ⟨_, _, _, _, _, answering.getNextConnect⟩
  | ping =>
      obtain rfl := Option.some.inj executed
      exact ⟨_, _, _, _, _, answering.ping⟩
  | pop conn =>
      obtain ⟨db, popped, rfl⟩ := Option.map_eq_some_iff.mp executed
      exact ⟨_, _, _, _, _, answering.pop popped⟩
  | finish conn outcome => exact ⟨_, _, _, _, _, answering.finish executed⟩
  | process =>
      obtain ⟨_, _, _, _, after⟩ := answering.process careful executed
      exact ⟨_, _, _, _, _, after⟩
  | destroy =>
      obtain ⟨_, after⟩ := answering.destroy executed
      exact ⟨_, _, _, _, _, after⟩
  | registerElsewhere values =>
      obtain ⟨made, registered, rfl⟩ := Option.map_eq_some_iff.mp executed
      exact ⟨_, _, _, _, _, answering.registerElsewhere registered⟩
  | removeElsewhere handles =>
      obtain rfl := Option.some.inj executed
      exact ⟨_, _, _, _, _, answering.removeElsewhere own⟩

theorem answering_of_reachable {w : World Value}
    (reached : ((requests Value rt fuel).restrict fun w action =>
      action.Careful rt fuel w).Reachable w) :
    ∃ waiting busy closed idle free, Answering w waiting busy closed idle free := by
  induction reached with
  | start initially =>
      obtain ⟨connCount, some_, rfl⟩ := initially
      exact ⟨_, _, _, _, _, .initialized some_⟩
  | next _ stepped inductionHypothesis =>
      obtain ⟨careful, -, own, executed⟩ := stepped
      obtain ⟨_, _, _, _, _, answering⟩ := inductionHypothesis
      exact answering.step careful own executed

/-- In every run of careful steps, when the queues are empty every request has
one task with its handler; when the tasks are done as well, every callback has
run once with what was handed over, and every id has been released once. -/
theorem answered_once {w : World Value}
    (reached : ((requests Value rt fuel).restrict fun w action =>
      action.Careful rt fuel w).Reachable w) :
    w.panicked = false ∧
      (w.db.queued = [] → (w.produced.map MongoDBTask.handle).Perm
        (w.requests.map Request.handler ++ blank w.pings)) ∧
      (w.db.queued = [] → w.pending = [] → w.working = none →
        (w.callbacks.map given).Perm (w.requests.map Request.expected) ∧
          w.released.Perm (w.requests.flatMap fun q => ids q.handler)) := by
  obtain ⟨waiting, busy, closed, idle, free, answering⟩ := answering_of_reachable reached
  refine ⟨answering.calm, fun drained => ?_, fun drained done resting => ?_⟩
  · have produced := answering.produced
    rw [drained] at produced
    exact produced
  · obtain ⟨rfl, rfl⟩ := answering.idle_of_none resting
    have flight := answering.flight
    rw [drained, done] at flight
    obtain ⟨none, -⟩ := List.append_eq_nil_iff.mp (List.nil_perm.mp flight)
    obtain rfl := List.map_eq_nil_iff.mp none
    exact ⟨answering.callbacks.trans (answering.requests.symm.map _),
      answering.released.trans (answering.requests.symm.flatMap_right _)⟩

def plainRuntime : Bson.Runtime where
  formatNumber _ := []
  userdata _ := []
  rawlen := List.length

def inserted : Outcome where
  ret := true
  reply := []
  cursor := []
  value := none

/-- A careful step goes on. -/
theorem Reachable.action {w w' : World Value}
    (reached : ((requests Value rt fuel).restrict fun w action =>
      action.Careful rt fuel w).Reachable w) (action : Action Value)
    (careful : action.Careful rt fuel w) (calm : w.panicked = false) (own : action.OwnIds w)
    (executed : w.exec rt fuel action = some w') :
    ((requests Value rt fuel).restrict fun w action => action.Careful rt fuel w).Reachable w' :=
  .next reached ⟨careful, calm, own, executed⟩

/-- One `insert_one` from the call to the end of its task. -/
theorem answered_once_insertOne : ∃ w : World Nat,
    (w.requests.map fun q => q.handler) = [⟨1, 1⟩] ∧
      w.released.Perm [(.function, 1), (.param, 1)] := by
  have start : ((requests Nat plainRuntime 0).restrict fun w action =>
      action.Careful plainRuntime 0 w).Reachable (World.initialized 1) := .start ⟨1, by decide, rfl⟩
  have called := Reachable.action start (.call .insertOne Entry.insertOneArgs true)
    (fun _ _ => ⟨by decide, Or.inl (by decide)⟩) rfl trivial rfl
  have popped := Reachable.action called (.pop 0) trivial rfl trivial rfl
  have finished := Reachable.action popped (.finish 0 inserted) trivial rfl trivial rfl
  have readable : ∀ doc ∈ ([] : List Bytes), (unpack plainRuntime 0 doc).isSome :=
    fun doc membership => absurd membership List.not_mem_nil
  have processed := Reachable.action finished .process
    (fun task head _ => by cases head; exact readable) rfl trivial rfl
  have destroyed := Reachable.action processed .destroy trivial rfl trivial rfl
  exact ⟨_, rfl, ((answered_once destroyed).2.2 rfl rfl rfl).2⟩

/-- `db:insert_one("player", {…}, fun_callback, {…}, 5)` -/
def fifthConnectionArgs : List (Arg Nat) := Entry.insertOneArgs ++ [.number (.ofInt 5)]

/-- With one connection the request is gone, and no task will come of it. -/
theorem fifth_connection_unanswered : ∃ w : World Nat, (requests Nat plainRuntime 0).Reachable w ∧
    w.requests.length = 1 ∧ w.db.queued = [] ∧
      ¬(w.produced.map MongoDBTask.handle).Perm
        (w.requests.map Request.handler ++ blank w.pings) := by
  have start : (requests Nat plainRuntime 0).Reachable (World.initialized 1) :=
    .start ⟨1, by decide, rfl⟩
  have accepted : (World.initialized 1 : World Nat).exec plainRuntime 0
      (.call .insertOne fifthConnectionArgs true) = some _ := rfl
  have called := start.next (show (requests Nat plainRuntime 0).step (World.initialized 1)
    (.call .insertOne fifthConnectionArgs true) _ from ⟨rfl, trivial, accepted⟩)
  exact ⟨_, called, rfl, rfl, fun same => absurd same.length_eq (by decide)⟩

end CrossOver.Binding.Mongo
