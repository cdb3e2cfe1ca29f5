import CrossOver.Binding.MongoRequests
import CrossOver.Lua.Bson.Encode

/-!
# Mongo calls that fail

The functions of `lua_mongo.cpp` from `check_param` to `PushTask`.  The handler is
registered as soon as the arguments are checked; the tables are packed behind
that, and an error of `pack_dict` jumps out of the function.  Nothing takes the
ids back.

Tables are values here: a table that is given twice does not see the `_id` that
`find` and `find_one` put into the second one.
-/

namespace CrossOver.Binding.Mongo

open CrossOver.Lib CrossOver.Lua
open CrossOver.Engine.LuaFix
open CrossOver.Engine.Mongo

inductive CallFailure where
  | check (failure : Failure)
  | encode (failure : Bson.Failure)
  deriving DecidableEq

/-- Lua sees an error, and goes on. -/
def CallFailure.Raised : CallFailure → Prop
  | check failure => failure ≠ .assertion
  | encode failure => ∃ message, failure = .luaError message

/-- An argument that is packed, in the order of packing. -/
inductive Document where
  | dict (lo : Nat)
  /-- the fields of `find` and `find_one`, without the `_id` -/
  | fields (lo : Nat)
  /-- one document for each element -/
  | list (lo : Nat)

def documents : MongoTaskType → List Document
  | .dropIndex | .drop => []
  | .commandSimple => [.dict 2]
  | .createIndex | .insertOne | .deleteOne => [.dict 3]
  | .insertMany | .deleteMany => [.list 3]
  | .findOne | .find => [.fields 4, .dict 3]
  | .updateOne | .updateMany | .findAndModify => [.dict 4, .dict 3]

/-- `"_id"` -/
def idKey : Bytes := [95, 105, 100]

/-- `lua_pushboolean(L, false); lua_settable(L, -3)` -/
def withoutId : LuaValue → LuaValue
  | .table metapairs border entries =>
      .table metapairs border (setSlot entries (.string idKey) (.boolean false))
  | value => value

/-- `lua_next` does not look at what it is given, so a value that is no table
is read as if it were one. -/
def packDocument (rt : Bson.Runtime) : LuaValue → Except Bson.Failure Bytes
  | .table metapairs _ entries =>
      Bson.written (Bson.packDict rt (Bson.maxDepth + 1) false metapairs entries)
  | _ => .error .outOfBounds

section Packing

-- `stringIs` tells whether the number that a string spells is an index
variable (rt : Bson.Runtime) (stringIs : Bytes → Nat → Bool)

/-- `lua_isnumber(L, -2)` and `lua_tonumber(L, -2) == lua_index` -/
def keyIs (luaIndex : Nat) : LuaValue → Bool
  | .integer i => i.value = luaIndex
  | .number bits => floatToInteger bits = some (.ofInt luaIndex)
  | .string bytes => stringIs bytes luaIndex
  | _ => false

def packDocuments (luaIndex : Nat) : List Lua.Entry → Except Bson.Failure (List Bytes)
  | [] => .ok []
  | (key, value) :: rest =>
      if keyIs stringIs luaIndex key then do
        let doc ← packDocument rt value
        let docs ← packDocuments (luaIndex + 1) rest
        return doc :: docs
      else .error (.luaError "lua_mongo_insert_many ---- table param is error!")

def tableAt (args : List (Arg LuaValue)) (lo : Nat) : LuaValue :=
  match argAt args lo with
  | some (.table value) => value
  | _ => .nil

def Document.pack (args : List (Arg LuaValue)) : Document → Except Bson.Failure (List Bytes)
  | dict lo => return [← packDocument rt (tableAt args lo)]
  | fields lo => return [← packDocument rt (withoutId (tableAt args lo))]
  | list lo =>
      match tableAt args lo with
      | .table _ _ entries => packDocuments rt stringIs 1 entries
      | _ => .error .outOfBounds

def packAll (operation : MongoTaskType) (args : List (Arg LuaValue)) :
    Except Bson.Failure (List (List Bytes)) :=
  (documents operation).mapM (Document.pack rt stringIs args)

end Packing

/-- The functions that are given to Lua.  `established` are the connections
that `MongoConnection::Init` has set up. -/
inductive Method where
  | new
  | initializeConnections (established : Nat)
  | shutdown
  | getNextConnect
  | getFreeConnect
  | addConnectRef
  | removeConnectRef
  | destroy
  | ping
  | request (operation : MongoTaskType)
  deriving DecidableEq

/-- A function that takes no callback. -/
def luaMongoPlain (count : Nat) (s : String) : EntryPoint where
  metatable := "mongo"
  check _ := some (count, s)
  refs := []
  connIdx := .invalid

/-- `lua_mongo_new` has no entry point: it does not look at its arguments. -/
def Method.entryPoint : Method → Option EntryPoint
  | new => none
  | initializeConnections _ => luaMongoPlain 4 "ussn"
  | addConnectRef | removeConnectRef => luaMongoPlain 2 "un"
  | shutdown | getNextConnect | getFreeConnect | destroy | ping => luaMongoPlain 1 "u"
  | request operation => mongoEntryPoint operation

namespace World

/-- What a function without a callback does behind its checks. -/
def plain (w : World LuaValue) : Method → World LuaValue
  | .initializeConnections established =>
      { w with db := { w.db with
          connectLists := w.db.connectLists ++ List.replicate established {} } }
  | .getNextConnect => { w with db := w.db.getNextConnect.2 }
  | .destroy => { w with db := { w.db with connectLists := [] } }
  | .ping => { w with db := w.db.ping, pings := w.pings + w.db.connectLists.length }
  | _ => w

variable (rt : Bson.Runtime) (stringIs : Bytes → Nat → Bool)

def requestCall (w : World LuaValue) (operation : MongoTaskType) (args : List (Arg LuaValue)) :
    Option (Except CallFailure Unit × World LuaValue) :=
  match (mongoEntryPoint operation).call args w.registry with
  | .error failure => some (.error (.check failure), w)
  | .ok none => none
  | .ok (some passed) =>
      match packAll rt stringIs operation args with
      | .error failure => some (.error (.encode failure), { w with registry := passed.registry })
      | .ok _ => (w.call operation args true).map fun accepted => (.ok (), accepted)

def luaCall (w : World LuaValue) (method : Method) (args : List (Arg LuaValue)) :
    Option (Except CallFailure Unit × World LuaValue) :=
  match method, method.entryPoint with
  | .request operation, _ => w.requestCall rt stringIs operation args
  | _, none => some (.ok (), w)
  | method, some entryPoint =>
      match entryPoint.call args w.registry with
      | .error failure => some (.error (.check failure), w)
      | .ok _ => some (.ok (), w.plain method)

end World

/-- The steps of `requests` say with `packs` what the packing decides here. -/
theorem World.requestCall_world (rt : Bson.Runtime) (stringIs : Bytes → Nat → Bool)
    (w : World LuaValue) (operation : MongoTaskType) (args : List (Arg LuaValue)) :
    (w.requestCall rt stringIs operation args).map Prod.snd =
      w.call operation args (packAll rt stringIs operation args).isOk := by
  unfold World.requestCall World.call
  rcases entered : (mongoEntryPoint operation).call args w.registry with failure | none | passed
  · rfl
  · rfl
  · cases packAll rt stringIs operation args with
    | error failure => rfl
    | ok packed =>
        dsimp only
        rw [Option.map_map]
        exact Option.map_id'

/-- The ids in use, the two tables in the Lua registry and the queues of the
connections are those from before the call. -/
structure Untouched (before after : World LuaValue) : Prop where
  ids : ∀ kind, (after.registry.table kind).idMap = (before.registry.table kind).idMap
  mappings : ∀ kind, (after.registry.table kind).mapping = (before.registry.table kind).mapping
  queues : after.db.connectLists = before.db.connectLists

theorem Untouched.refl (w : World LuaValue) : Untouched w w := ⟨fun _ => rfl, fun _ => rfl, rfl⟩

/-- `check_param` or `luaL_checkudata` does not take the arguments. -/
def Refused (method : Method) (args : List (Arg LuaValue)) : Prop :=
  ∃ entryPoint ∈ method.entryPoint,
    entryPoint.checkArgs args ≠ .ok () ∨ checkUdata args entryPoint.metatable ≠ .ok ()

section Registering

variable {Value : Type} {e : EntryPoint} {args : List (Arg Value)} {r : Registry (Arg Value)}

theorem call_error_iff : (∃ failure, e.call args r = .error failure) ↔
    e.checkArgs args ≠ .ok () ∨ checkUdata args e.metatable ≠ .ok () := by
  unfold EntryPoint.call
  cases accepted : e.checkArgs args with
  | error failure => exact iff_of_true ⟨failure, rfl⟩ (Or.inl nofun)
  | ok checked =>
      cases typed : checkUdata args e.metatable with
      | error failure => exact iff_of_true ⟨failure, rfl⟩ (Or.inr nofun)
      | ok looked =>
          refine iff_of_false (fun failed => ?_) (fun wrong => ?_)
          · obtain ⟨failure, failed⟩ := failed
            cases failed
          · exact wrong.elim (· rfl) (· rfl)

/-- One value is registered under an id that was not in use. -/
theorem refAll_singleton {t t' : RefTable Value} {value : Option Value} {ids : List UInt32}
    (fresh : t.Fresh) (made : t.refAll [value] = some (ids, t')) :
    (value = none → t' = t) ∧ (t'.idMap = t.idMap → value = none) := by
  obtain ⟨⟨id, registered⟩, first, made⟩ := Option.bind_eq_some_iff.mp made
  cases made
  cases value with
  | none =>
      cases first
      exact ⟨fun _ => rfl, fun _ => rfl⟩
  | some value =>
      refine ⟨nofun, fun same => ?_⟩
      obtain ⟨rfl, -, ids, -⟩ := RefTable.ref_spec first
      refine absurd ?_ fresh.free
      rw [← same]
      exact ids ▸ List.mem_insert_self

end Registering

theorem Untouched.register_iff {e : EntryPoint} {args : List (Arg LuaValue)} {w : World LuaValue}
    {passed : Passed LuaValue} {place : Place} (refs : e.refs = [place])
    (fresh : ∀ kind, (w.registry.table kind).Fresh)
    (registered : e.register args w.registry = some passed) :
    Untouched w { w with registry := passed.registry } ↔
      place.functionIn args = none ∧ place.paramIn args = none := by
  obtain ⟨funIds, paramIds, functions, params, -⟩ := EntryPoint.register_refs registered
  rw [refs, List.map_singleton] at functions params
  have function := refAll_singleton (fresh .function) functions
  have param := refAll_singleton (fresh .param) params
  constructor
  · intro untouched
    exact ⟨function.2 (untouched.ids .function), param.2 (untouched.ids .param)⟩
  · rintro ⟨noFunction, noParam⟩
    have same : passed.registry = w.registry := by
      cases passed with
      | mk handlers connIdx registry =>
          cases registry with
          | mk functionTable paramTable =>
              have first : functionTable = w.registry.functions := function.1 noFunction
              have second : paramTable = w.registry.params := param.1 noParam
              rw [first, second]
    rw [same]
    exact Untouched.refl w

/-- What an accepted call registers; `update_many` looks for its function in
front of the callback, and has a parameter from six arguments on. -/
theorem request_untouched_iff {operation : MongoTaskType} {args : List (Arg LuaValue)}
    {w : World LuaValue} {passed : Passed LuaValue}
    (fresh : ∀ kind, (w.registry.table kind).Fresh)
    (called : (mongoEntryPoint operation).call args w.registry = .ok (some passed)) :
    Untouched w { w with registry := passed.registry } ↔
      operation = .updateMany ∧ args.length = 5 := by
  obtain ⟨accepted, registered⟩ := EntryPoint.call_ok called
  obtain ⟨value, found⟩ := mongo_callback_function accepted
  by_cases updateMany : operation = .updateMany
  · subst updateMany
    have enough : 4 < args.length := (List.getElem?_eq_some_iff.mp found).1
    have noFunction := Entry.updateMany_unregistered accepted
    have param : Place.paramIn args ⟨4, some 6⟩ = argAt args 6 :=
      mongo_paramIn accepted List.mem_cons_self
    have five : argAt args 6 = none ↔ args.length = 5 := by
      change args[5]? = none ↔ _
      rw [List.getElem?_eq_none_iff]
      omega
    rw [Untouched.register_iff rfl fresh registered, param, five]
    exact ⟨fun untouched => ⟨rfl, untouched.2⟩, fun five => ⟨noFunction, five.2⟩⟩
  · have isFunction : (mongoPlace operation).functionIn args = some (.function value) := by
      rw [Place.functionIn, found, Option.filter_some]
      rfl
    rw [Untouched.register_iff (mongo_refs_eq updateMany) fresh registered, isFunction]
    exact iff_of_false (fun untouched => Option.some_ne_none _ untouched.1)
      fun other => updateMany other.1

/-- A call that fails has left its ids behind, unless the arguments were turned
down or `update_many` has looked for them in the wrong place. -/
theorem failed_call_untouched_iff (rt : Bson.Runtime) (stringIs : Bytes → Nat → Bool)
    {w w' : World LuaValue} {method : Method} {args : List (Arg LuaValue)} {failure : CallFailure}
    (reached : (Registry.calls (Arg LuaValue)).Reachable w.registry)
    (failed : w.luaCall rt stringIs method args = some (.error failure, w')) :
    Untouched w w' ↔
      Refused method args ∨ method = .request .updateMany ∧ args.length = 5 := by
  have refused : ∀ entryPoint ∈ method.entryPoint,
      (∃ reason, entryPoint.call args w.registry = .error reason) → Refused method args :=
    fun entryPoint is turnedDown => ⟨entryPoint, is, call_error_iff.mp turnedDown⟩
  unfold World.luaCall at failed
  split at failed
  · next operation =>
      unfold World.requestCall at failed
      split at failed
      · next reason turnedDown =>
          cases failed
          exact iff_of_true (.refl w) (Or.inl (refused _ rfl ⟨reason, turnedDown⟩))
      · cases failed
      · next passed called =>
          have accepted : ¬Refused (.request operation) args := by
            rintro ⟨entryPoint, is, wrong⟩
            cases is
            obtain ⟨reason, turnedDown⟩ := call_error_iff.mpr wrong
            rw [called] at turnedDown
            cases turnedDown
          split at failed
          · cases failed
            rw [request_untouched_iff (Registry.fresh_of_reachable reached) called]
            constructor
            · rintro ⟨rfl, five⟩
              exact Or.inr ⟨rfl, five⟩
            · intro condition
              obtain ⟨same, five⟩ := condition.resolve_left accepted
              exact ⟨Method.request.inj same, five⟩
          · obtain ⟨accepted, -, ends⟩ := Option.map_eq_some_iff.mp failed
            cases ends
  · cases failed
  · next entryPoint is =>
      split at failed
      · next reason turnedDown =>
          cases failed
          exact iff_of_true (.refl w) (Or.inl (refused _ is ⟨reason, turnedDown⟩))
      · cases failed

def noNumerals (_ : Bytes) (_ : Nat) : Bool := false

/-- `{a = function() end}` -/
def unencodable : LuaValue := .table none 0 [(.string [97], .unsupported "function")]

/-- `db:insert_one("player", {a = function() end}, fun_callback)` -/
def unencodableArgs : List (Arg LuaValue) :=
  [.userdata "mongo", .string (.ofInt 0), .table unencodable, .function .nil]

theorem failed_call_untouched_updateMany : ∃ w' : World LuaValue,
    (World.initialized 1).luaCall plainRuntime noNumerals (.request .updateMany)
        [.userdata "mongo", .string (.ofInt 0), .table unencodable, .table unencodable,
          .function .nil] =
      some (.error (.encode (.luaError "Invalid value type : function")), w') ∧
    Untouched (World.initialized 1) w' := by
  have failed : (World.initialized 1).luaCall plainRuntime noNumerals (.request .updateMany)
      [.userdata "mongo", .string (.ofInt 0), .table unencodable, .table unencodable,
        .function .nil] =
    some (.error (.encode (.luaError "Invalid value type : function")), World.initialized 1) := rfl
  have reached : (Registry.calls (Arg LuaValue)).Reachable
      (World.initialized 1 : World LuaValue).registry := .start rfl
  exact ⟨_, failed, (failed_call_untouched_iff _ _ reached failed).mpr (Or.inr ⟨rfl, rfl⟩)⟩

/-- The callback of a call that raised an error stays registered. -/
theorem failed_insertOne_registered : ∃ (failure : CallFailure) (w' : World LuaValue),
    (World.initialized 1).luaCall plainRuntime noNumerals (.request .insertOne) unencodableArgs =
        some (.error failure, w') ∧
      failure.Raised ∧ ¬Untouched (World.initialized 1) w' := by
  refine ⟨.encode (.luaError "Invalid value type : function"), _, rfl, ⟨_, rfl⟩, fun untouched => ?_⟩
  have ids : ([1] : List UInt32) = [] := untouched.ids .function
  cases ids

end CrossOver.Binding.Mongo
