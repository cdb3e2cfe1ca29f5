import CrossOver.Binding.EntryPoint

/-!
# The functions that take callbacks

`lua_network.cpp`, `lua_mysql.cpp` and `lua_mongo.cpp`: the entry points as they
are, and where the callers put the callbacks and their parameters.

The two agree but for `lua_mongo_update_many`, which registers the argument in
front of the callback.  Elsewhere only the type of a parameter can be wrong:
`lua_tcpserver_start` and `lua_udpserver_start` ask for functions there, and
`lua_mysql_insert_first_query` does not check more than six arguments.
-/

namespace CrossOver.Binding

open CrossOver.Engine.Network (HandleInfo)
open CrossOver.Engine.LuaFix
open CrossOver.Engine.Mongo (MongoTaskType)

def luaTcpserverStart : EntryPoint where
  metatable := "tcpserver"
  check
    | 8 => some (8, "usnfffnn")
    | 9 => some (9, "usnfffnnb")
    | 10 => some (10, "usnfffnnbf")
    | 11 => some (11, "usnfffnnbff")
    | _ => some (12, "usnfffnnbfff")
  refs := [⟨4, some 10⟩, ⟨5, some 11⟩, ⟨6, some 12⟩]
  connIdx := .invalid

def luaTcpclientConnectex : EntryPoint where
  metatable := "tcpclient"
  check
    | 8 => some (8, "usnfffnn")
    | 9 => some (9, "usnfffnnb")
    | 10 => some (10, "usnfffnnbt")
    | 11 => some (11, "usnfffnnbtt")
    | _ => some (12, "usnfffnnbttt")
  refs := [⟨4, some 10⟩, ⟨5, some 11⟩, ⟨6, some 12⟩]
  connIdx := .invalid

def luaUdpserverStart : EntryPoint where
  metatable := "udpserver"
  check
    | 8 => some (8, "usnfffnn")
    | 9 => some (9, "usnfffnnf")
    | 10 => some (10, "usnfffnnff")
    | _ => some (11, "usnfffnnfff")
  refs := [⟨4, some 9⟩, ⟨5, some 10⟩, ⟨6, some 11⟩]
  connIdx := .invalid

def luaUdpclientConnect : EntryPoint where
  metatable := "udpclient"
  check
    | 8 => some (8, "usnfffnn")
    | 9 => some (9, "usnfffnnt")
    | 10 => some (10, "usnfffnntt")
    | _ => some (11, "usnfffnnttt")
  refs := [⟨4, some 9⟩, ⟨5, some 10⟩, ⟨6, some 11⟩]
  connIdx := .invalid

def luaMysqlAddQuery : EntryPoint where
  metatable := "mysql"
  check
    | 3 => some (3, "usf")
    | 4 => some (4, "usft")
    | 5 => some (5, "usftn")
    | 6 => some (6, "usftnt")
    | _ => some (7, "usftntn")
  refs := [⟨3, some 6⟩]
  connIdx := .readAt 5

def luaMysqlInsertFirstQuery : EntryPoint where
  metatable := "mysql"
  check
    | 3 => some (3, "ufs")
    | 4 => some (4, "ufst")
    | 5 => some (5, "ufstn")
    | 6 => some (6, "ufstnt")
    | _ => none
  refs := [⟨2, some 6⟩]
  connIdx := .readAt 5

/-- Every operation of `lua_mongo.cpp` that takes a callback. -/
def luaMongo (check : Nat → Option (Nat × String)) (place : Place) (connIdx : ConnIdx) :
    EntryPoint where
  metatable := "mongo"
  check := check
  refs := [place]
  connIdx := connIdx

def ustfChecks : Nat → Option (Nat × String)
  | 4 => some (4, "ustf")
  | 5 => some (5, "ustft")
  | _ => some (6, "ustftn")

def usttfChecks : Nat → Option (Nat × String)
  | 5 => some (5, "usttf")
  | 6 => some (6, "usttft")
  | _ => some (7, "usttftn")

def luaMongoCommandSimple : EntryPoint :=
  luaMongo
    (fun
      | 3 => some (3, "utf")
      | 4 => some (4, "utft")
      | _ => some (5, "utftn"))
    ⟨3, some 4⟩ (.readAt 5)

def luaMongoCreateIndex : EntryPoint :=
  luaMongo (fun _ => some (4, "ustf")) ⟨4, none⟩ (.fixed 0)

def luaMongoDropIndex : EntryPoint :=
  luaMongo (fun _ => some (4, "ussf")) ⟨4, none⟩ (.fixed 0)

def luaMongoDrop : EntryPoint :=
  luaMongo (fun _ => some (3, "usf")) ⟨3, none⟩ (.fixed 0)

def luaMongoFindOne : EntryPoint := luaMongo usttfChecks ⟨5, some 6⟩ (.readAt 7)

def luaMongoFind : EntryPoint :=
  luaMongo
    (fun
      | 5 => some (5, "usttf")
      | 6 => some (6, "usttft")
      | 7 => some (7, "usttftn")
      | _ => some (8, "usttftnn"))
    ⟨5, some 6⟩ (.readAt 7)

def luaMongoUpdateOne : EntryPoint := luaMongo usttfChecks ⟨5, some 6⟩ (.readAt 7)

/-- `toluafix_ref_function(L, 4)` -/
def luaMongoUpdateMany : EntryPoint := luaMongo usttfChecks ⟨4, some 6⟩ (.readAt 7)

def luaMongoInsertOne : EntryPoint := luaMongo ustfChecks ⟨4, some 5⟩ (.readAt 6)
def luaMongoInsertMany : EntryPoint := luaMongo ustfChecks ⟨4, some 5⟩ (.readAt 6)
def luaMongoDeleteOne : EntryPoint := luaMongo ustfChecks ⟨4, some 5⟩ (.readAt 6)
def luaMongoDeleteMany : EntryPoint := luaMongo ustfChecks ⟨4, some 5⟩ (.readAt 6)
def luaMongoFindAndModify : EntryPoint := luaMongo usttfChecks ⟨5, some 6⟩ (.readAt 7)

inductive Entry where
  | tcpserverStart
  | tcpclientConnectex
  | udpserverStart
  | udpclientConnect
  | mysqlAddQuery
  | mysqlInsertFirstQuery
  | mongo (operation : MongoTaskType)
  deriving DecidableEq, Repr

def mongoEntryPoint : MongoTaskType → EntryPoint
  | .commandSimple => luaMongoCommandSimple
  | .createIndex => luaMongoCreateIndex
  | .dropIndex => luaMongoDropIndex
  | .drop => luaMongoDrop
  | .findOne => luaMongoFindOne
  | .find => luaMongoFind
  | .updateOne => luaMongoUpdateOne
  | .updateMany => luaMongoUpdateMany
  | .insertOne => luaMongoInsertOne
  | .insertMany => luaMongoInsertMany
  | .deleteOne => luaMongoDeleteOne
  | .deleteMany => luaMongoDeleteMany
  | .findAndModify => luaMongoFindAndModify

/-- Where the samples in the source have the callback and its parameter. -/
def mongoPlace : MongoTaskType → Place
  | .commandSimple => ⟨3, some 4⟩
  | .createIndex | .dropIndex => ⟨4, none⟩
  | .drop => ⟨3, none⟩
  | .insertOne | .insertMany | .deleteOne | .deleteMany => ⟨4, some 5⟩
  | .findOne | .find | .updateOne | .updateMany | .findAndModify => ⟨5, some 6⟩

namespace Entry

def entryPoint : Entry → EntryPoint
  | tcpserverStart => luaTcpserverStart
  | tcpclientConnectex => luaTcpclientConnectex
  | udpserverStart => luaUdpserverStart
  | udpclientConnect => luaUdpclientConnect
  | mysqlAddQuery => luaMysqlAddQuery
  | mysqlInsertFirstQuery => luaMysqlInsertFirstQuery
  | mongo operation => mongoEntryPoint operation

/-- Where the caller puts its callbacks, each with an optional parameter. -/
def places : Entry → List Place
  | tcpserverStart | tcpclientConnectex => [⟨4, some 10⟩, ⟨5, some 11⟩, ⟨6, some 12⟩]
  | udpserverStart | udpclientConnect => [⟨4, some 9⟩, ⟨5, some 10⟩, ⟨6, some 11⟩]
  | mysqlAddQuery => [⟨3, some 6⟩]
  | mysqlInsertFirstQuery => [⟨2, some 6⟩]
  | mongo operation => [mongoPlace operation]

/-- The condition on the arguments under which all they hold is registered. -/
def Careful {Value : Type} (entry : Entry) (args : List (Arg Value)) : Prop :=
  match entry with
  | tcpserverStart => args.length ≤ 9
  | udpserverStart => args.length ≤ 8
  | mysqlInsertFirstQuery =>
      args.length ≤ 6 ∨ ∀ arg, argAt args 6 = some arg → arg = .nil ∨ arg.isTable = true
  | mongo .updateMany => False
  | _ => True

end Entry

variable {Value : Type} {args : List (Arg Value)}

theorem EntryPoint.checkArgs_ok {e : EntryPoint} (accepted : e.checkArgs args = .ok ()) :
    e.check args.length = none ∨
      ∃ s, e.check args.length = some (args.length, s) ∧ checkParam args args.length s = .ok () := by
  unfold EntryPoint.checkArgs at accepted
  split at accepted
  · exact Or.inl (by assumption)
  · next count s found =>
      obtain rfl := (checkParam_ok.mp accepted).2.1
      exact Or.inr ⟨s, found, accepted⟩

theorem EntryPoint.tablesOnly {e : EntryPoint}
    (checked : ∀ n, ∃ call, e.check n = some call ∧ ParamsChecked e.refs call.2)
    (accepted : e.checkArgs args = .ok ()) : ∀ place ∈ e.refs, EntryPoint.TableOnly args place := by
  obtain ⟨call, found, good⟩ := checked args.length
  rcases e.checkArgs_ok accepted with missing | ⟨s, same, accepted⟩
  · rw [found] at missing
    cases missing
  · rw [found] at same
    cases same
    exact (tablesOnly_iff accepted).mpr good

theorem usttfChecks_checked (n : Nat) :
    ∃ call, usttfChecks n = some call ∧ ParamsChecked [⟨5, some 6⟩] call.2 := by
  unfold usttfChecks
  split <;> exact ⟨_, rfl, by decide⟩

theorem updateMany_checked (n : Nat) :
    ∃ call, usttfChecks n = some call ∧ ParamsChecked [⟨4, some 6⟩] call.2 := by
  unfold usttfChecks
  split <;> exact ⟨_, rfl, by decide⟩

theorem ustfChecks_checked (n : Nat) :
    ∃ call, ustfChecks n = some call ∧ ParamsChecked [⟨4, some 5⟩] call.2 := by
  unfold ustfChecks
  split <;> exact ⟨_, rfl, by decide⟩

theorem commandSimple_checked (n : Nat) :
    ∃ call, luaMongoCommandSimple.check n = some call ∧ ParamsChecked [⟨3, some 4⟩] call.2 := by
  unfold luaMongoCommandSimple luaMongo
  dsimp only
  split <;> exact ⟨_, rfl, by decide⟩

theorem find_checked (n : Nat) :
    ∃ call, luaMongoFind.check n = some call ∧ ParamsChecked [⟨5, some 6⟩] call.2 := by
  unfold luaMongoFind luaMongo
  dsimp only
  split <;> exact ⟨_, rfl, by decide⟩

theorem mongo_checked (operation : MongoTaskType) : ∀ n, ∃ call,
    (mongoEntryPoint operation).check n = some call ∧
      ParamsChecked (mongoEntryPoint operation).refs call.2 := by
  cases operation with
  | commandSimple => exact commandSimple_checked
  | createIndex | dropIndex | drop => exact fun n => ⟨_, rfl, by decide⟩
  | find => exact find_checked
  | findOne | updateOne | findAndModify => exact usttfChecks_checked
  | updateMany => exact updateMany_checked
  | insertOne | insertMany | deleteOne | deleteMany => exact ustfChecks_checked

theorem mongo_accepted {operation : MongoTaskType}
    (accepted : (mongoEntryPoint operation).checkArgs args = .ok ()) :
    ∃ s, (mongoEntryPoint operation).check args.length = some (args.length, s) ∧
      checkParam args args.length s = .ok () := by
  obtain ⟨call, found, -⟩ := mongo_checked operation args.length
  refine (EntryPoint.checkArgs_ok accepted).resolve_left fun missing => ?_
  rw [found] at missing
  cases missing

/-- All operations but one register the callback where the caller puts it. -/
theorem mongo_refs_eq {operation : MongoTaskType} (other : operation ≠ .updateMany) :
    (mongoEntryPoint operation).refs = [mongoPlace operation] := by
  cases operation <;> first | rfl | exact absurd rfl other

theorem mongo_callback_function {operation : MongoTaskType}
    (accepted : (mongoEntryPoint operation).checkArgs args = .ok ()) :
    ∃ value, argAt args (mongoPlace operation).function = some (.function value) := by
  have letters : ∀ n, ∃ call, (mongoEntryPoint operation).check n = some call ∧
      call.2.toList[(mongoPlace operation).function - 1]? = some 'f' := by
    intro n
    cases operation <;>
      simp only [mongoEntryPoint, luaMongoCommandSimple, luaMongoCreateIndex, luaMongoDropIndex,
        luaMongoDrop, luaMongoFindOne, luaMongoFind, luaMongoUpdateOne, luaMongoUpdateMany,
        luaMongoInsertOne, luaMongoInsertMany, luaMongoDeleteOne, luaMongoDeleteMany,
        luaMongoFindAndModify, luaMongo, usttfChecks, ustfChecks, mongoPlace] <;>
      (first | exact ⟨_, rfl, by decide⟩ | (split <;> exact ⟨_, rfl, by decide⟩))
  obtain ⟨call, found, letter⟩ := letters args.length
  obtain ⟨s, same, accepted⟩ := mongo_accepted accepted
  rw [found] at same
  cases same
  obtain ⟨arg, argFound, fits⟩ := (fits_at (checkParam_ok.mp accepted).2.2 _).2 _ letter
  cases arg with
  | function value => exact ⟨value, argFound⟩
  | _ => cases fits

theorem mongo_paramIn {operation : MongoTaskType}
    (accepted : (mongoEntryPoint operation).checkArgs args = .ok ()) {place : Place}
    (among : place ∈ (mongoEntryPoint operation).refs) :
    place.paramIn args = place.param.bind (argAt args) := by
  unfold Place.paramIn
  cases position : place.param with
  | none => rfl
  | some lo =>
      rw [Option.bind_some, Option.bind_some]
      cases found : argAt args lo with
      | none => rw [Option.filter_none, ite_self]
      | some arg =>
          have inside : lo - 1 < args.length := (List.getElem?_eq_some_iff.mp found).1
          have supplied : arg ≠ .nil := by
            obtain ⟨s, -, checked⟩ := mongo_accepted accepted
            obtain ⟨letter, -, fits⟩ := (fits_at (checkParam_ok.mp checked).2.2 _).1 arg found
            exact fits.supplied
          have isTable := EntryPoint.tablesOnly (mongo_checked operation) accepted place among
            lo position arg found supplied
          have enough : args.length ≥ lo := by omega
          rw [if_pos enough, Option.filter_some, if_pos isTable]

namespace Entry

theorem tcpserverStart_checked {n : Nat} {s : String}
    (found : luaTcpserverStart.check n = some (n, s)) :
    ParamsChecked luaTcpserverStart.refs s ↔ n ≤ 9 := by
  unfold luaTcpserverStart at found
  dsimp only at found
  split at found <;> cases found <;> decide

theorem udpserverStart_checked {n : Nat} {s : String}
    (found : luaUdpserverStart.check n = some (n, s)) :
    ParamsChecked luaUdpserverStart.refs s ↔ n ≤ 8 := by
  unfold luaUdpserverStart at found
  dsimp only at found
  split at found <;> cases found <;> decide

theorem tcpclientConnectex_checked (n : Nat) : ∃ call, luaTcpclientConnectex.check n = some call ∧
    ParamsChecked luaTcpclientConnectex.refs call.2 := by
  unfold luaTcpclientConnectex
  dsimp only
  split <;> exact ⟨_, rfl, by decide⟩

theorem udpclientConnect_checked (n : Nat) : ∃ call, luaUdpclientConnect.check n = some call ∧
    ParamsChecked luaUdpclientConnect.refs call.2 := by
  unfold luaUdpclientConnect
  dsimp only
  split <;> exact ⟨_, rfl, by decide⟩

theorem mysqlAddQuery_checked (n : Nat) : ∃ call, luaMysqlAddQuery.check n = some call ∧
    ParamsChecked luaMysqlAddQuery.refs call.2 := by
  unfold luaMysqlAddQuery
  dsimp only
  split <;> exact ⟨_, rfl, by decide⟩

/-- With at most six arguments the parameter is a table; with more there is no check. -/
theorem mysqlInsertFirstQuery_tablesOnly
    (accepted : luaMysqlInsertFirstQuery.checkArgs args = .ok ()) :
    (∀ place ∈ luaMysqlInsertFirstQuery.refs, EntryPoint.TableOnly args place) ↔
      mysqlInsertFirstQuery.Careful args := by
  have checked : ∀ n s, luaMysqlInsertFirstQuery.check n = some (n, s) →
      ParamsChecked luaMysqlInsertFirstQuery.refs s ∧ n ≤ 6 := by
    intro n s found
    unfold luaMysqlInsertFirstQuery at found
    dsimp only at found
    split at found <;> cases found <;> decide
  have unfolded : (∀ place ∈ luaMysqlInsertFirstQuery.refs, EntryPoint.TableOnly args place) ↔
      ∀ arg, argAt args 6 = some arg → arg = .nil ∨ arg.isTable = true := by
    constructor
    · intro tables arg found
      by_cases supplied : arg = .nil
      · exact Or.inl supplied
      · exact Or.inr (tables ⟨2, some 6⟩ List.mem_cons_self 6 rfl arg found supplied)
    · intro tables place among lo atLo arg found supplied
      obtain rfl := List.mem_singleton.mp among
      cases atLo
      exact (tables arg found).resolve_left supplied
  rw [unfolded]
  refine ⟨Or.inr, fun careful => ?_⟩
  rcases careful with few | tables
  · rcases EntryPoint.checkArgs_ok accepted with missing | ⟨s, found, accepted⟩
    · intro arg found
      -- six arguments are checked, and with fewer there is no sixth
      have inside : 5 < args.length := (List.getElem?_eq_some_iff.mp found).1
      have six : args.length = 6 := by omega
      rw [six] at missing
      cases missing
    · exact unfolded.mp ((tablesOnly_iff accepted).mpr (checked _ _ found).1)
  · exact tables

theorem tablesOnly_iff_careful {entry : Entry} (other : entry ≠ .mongo .updateMany)
    (accepted : entry.entryPoint.checkArgs args = .ok ()) :
    (∀ place ∈ entry.entryPoint.refs, EntryPoint.TableOnly args place) ↔ entry.Careful args := by
  cases entry with
  | tcpserverStart =>
      rcases EntryPoint.checkArgs_ok accepted with missing | ⟨s, found, accepted⟩
      · unfold Entry.entryPoint luaTcpserverStart at missing
        dsimp only at missing
        split at missing <;> cases missing
      · exact (tablesOnly_iff accepted).trans (tcpserverStart_checked found)
  | udpserverStart =>
      rcases EntryPoint.checkArgs_ok accepted with missing | ⟨s, found, accepted⟩
      · unfold Entry.entryPoint luaUdpserverStart at missing
        dsimp only at missing
        split at missing <;> cases missing
      · exact (tablesOnly_iff accepted).trans (udpserverStart_checked found)
  | tcpclientConnectex =>
      exact iff_of_true (EntryPoint.tablesOnly tcpclientConnectex_checked accepted) trivial
  | udpclientConnect =>
      exact iff_of_true (EntryPoint.tablesOnly udpclientConnect_checked accepted) trivial
  | mysqlAddQuery =>
      exact iff_of_true (EntryPoint.tablesOnly mysqlAddQuery_checked accepted) trivial
  | mysqlInsertFirstQuery => exact mysqlInsertFirstQuery_tablesOnly accepted
  | mongo operation =>
      refine iff_of_true (EntryPoint.tablesOnly (mongo_checked operation) accepted) ?_
      cases operation <;> trivial

theorem refs_eq {entry : Entry} (other : entry ≠ .mongo .updateMany) :
    entry.entryPoint.refs = entry.places := by
  cases entry with
  | mongo operation => exact mongo_refs_eq fun same => other (congrArg Entry.mongo same)
  | _ => rfl

/-- Where `lua_mongo_update_many` looks for its function there is a table. -/
theorem updateMany_unregistered (accepted : luaMongoUpdateMany.checkArgs args = .ok ()) :
    Place.functionIn args ⟨4, some 6⟩ = none := by
  have letters : ∀ n, ∃ call, luaMongoUpdateMany.check n = some call ∧
      call.2.toList[3]? = some 't' := by
    intro n
    unfold luaMongoUpdateMany luaMongo usttfChecks
    dsimp only
    split <;> exact ⟨_, rfl, by decide⟩
  obtain ⟨call, found, letter⟩ := letters args.length
  have checked : (mongoEntryPoint .updateMany).checkArgs args = .ok () := accepted
  obtain ⟨s, same, accepted⟩ := mongo_accepted checked
  obtain rfl : call = (args.length, s) := Option.some.inj (found.symm.trans same)
  obtain ⟨arg, argFound, fits⟩ := (fits_at (checkParam_ok.mp accepted).2.2 3).2 _ letter
  have isTable := (Arg.isTable_iff fits).mpr rfl
  have notFunction : arg.isFunction = false := by
    cases arg <;> first | rfl | cases isTable
  change (args[3]?).filter Arg.isFunction = none
  rw [argFound, Option.filter_some, notFunction]
  rfl

variable {r : Registry (Arg Value)}

/-- What the check accepts is registered and passed on, if and only if the
arguments are `Careful`. -/
theorem registered_iff_careful (entry : Entry)
    (reached : (Registry.calls (Arg Value)).Reachable r)
    (accepted : entry.entryPoint.checkArgs args = .ok ()) :
    (∀ passed, entry.entryPoint.call args r = .ok (some passed) →
      (List.Forall₂ (Registered args passed.registry) entry.places passed.handlers ↔
        entry.Careful args)) ∧
      (checkUdata args entry.entryPoint.metatable = .ok () →
        (∀ kind, (r.table kind).idMap.length ≤ 2 ^ 31 - 5) →
        ∃ passed, entry.entryPoint.call args r = .ok (some passed)) := by
  have fresh := Registry.fresh_of_reachable reached
  constructor
  · intro passed called
    obtain ⟨freshAfter, given⟩ := EntryPoint.register_spec fresh (EntryPoint.call_ok called).2
    by_cases updateMany : entry = .mongo .updateMany
    · subst updateMany
      refine iff_of_false (fun registered => ?_) id
      obtain ⟨value, function⟩ := @mongo_callback_function _ _ .updateMany accepted
      cases handlers : passed.handlers with
      | nil =>
          rw [handlers] at registered
          cases registered
      | cons handler rest =>
          rw [handlers] at registered given
          cases registered with
          | cons registered _ =>
              cases given with
              | cons given _ =>
                  have absent := given.1
                  rw [updateMany_unregistered accepted] at absent
                  have positive := (registered.function value function).1
                  rw [absent] at positive
                  exact absurd positive (lt_irrefl 0)
    · rw [← refs_eq updateMany, EntryPoint.allRegistered_iff freshAfter given]
      exact tablesOnly_iff_careful updateMany accepted
  · intro typed room
    refine EntryPoint.call_ends fresh (fun kind => ?_) accepted typed
    have few : entry.entryPoint.refs.length ≤ 3 := by
      cases entry with
      | mongo operation => cases operation <;> decide
      | _ => decide
    have bound := room kind
    omega

/-- `db:insert_one("player", {…}, fun_callback, {…})` -/
def insertOneArgs : List (Arg Nat) :=
  [.userdata "mongo", .string (.ofInt 0), .table 1, .function 2, .table 3]

theorem registered_iff_careful_insertOne : ∃ passed,
    luaMongoInsertOne.call insertOneArgs Registry.initial = .ok (some passed) ∧
      List.Forall₂ (Registered insertOneArgs passed.registry) [⟨4, some 5⟩] passed.handlers := by
  have reached : (Registry.calls (Arg Nat)).Reachable Registry.initial := .start rfl
  have accepted : luaMongoInsertOne.checkArgs insertOneArgs = .ok () := by decide
  obtain ⟨registers, ends⟩ := registered_iff_careful (.mongo .insertOne) reached accepted
  obtain ⟨passed, called⟩ := ends (by decide) (fun kind => by cases kind <;> decide)
  exact ⟨passed, called, (registers passed called).mpr trivial⟩

/-- `db:update_many("player", {…}, {…}, fun_callback)` -/
def updateManyArgs : List (Arg Nat) :=
  [.userdata "mongo", .string (.ofInt 0), .table 1, .table 2, .function 3]

/-- The callback is a function, and the handler that is passed on is empty. -/
theorem updateMany_loses_callback : luaMongoUpdateMany.checkArgs updateManyArgs = .ok () ∧
    ∃ passed, luaMongoUpdateMany.call updateManyArgs Registry.initial = .ok (some passed) ∧
      ¬List.Forall₂ (Registered updateManyArgs passed.registry) (Entry.mongo .updateMany).places
        passed.handlers := by
  refine ⟨by decide, ⟨[{}], Engine.Mongo.invalidIndex, Registry.initial⟩, rfl, fun registered => ?_⟩
  cases registered with
  | cons registered _ => exact absurd (registered.function 3 rfl).1 (lt_irrefl 0)

end Entry

end CrossOver.Binding
