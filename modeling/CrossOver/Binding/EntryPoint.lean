import CrossOver.Engine.LuaFix.Fresh
import CrossOver.Engine.Mongo.Database
import CrossOver.Lib.Result

/-!
# Functions that Lua calls with callbacks

`check_param` compares the arguments with a signature of one letter each.  The
`toluafix_ref_…` calls that follow read fixed positions and return `0` for a
value of another type, so an argument may pass the check and not be registered.

An `EntryPoint` is what differs between the bindings that take callbacks: the
signatures for each number of arguments, and the positions that are registered.
-/

namespace CrossOver.Binding

open CrossOver.Lib
open CrossOver.Lua (LuaInteger)
open CrossOver.Engine.Network (HandleInfo)
open CrossOver.Engine.LuaFix
open CrossOver.Engine.Mongo (invalidIndex)

/-- A value on the Lua stack.  A number and a string are what `lua_tointeger`
makes of them, a full userdata is the name of its metatable. -/
inductive Arg (Value : Type) where
  | nil
  | boolean (value : Bool)
  | lightuserdata
  | number (integer : LuaInteger)
  | string (integer : LuaInteger)
  | table (value : Value)
  | function (value : Value)
  | userdata (metatable : String)
  | thread

inductive Failure where
  | assertion
  | error (message : String)
  | argument (index : Nat) (expected : String)
  deriving DecidableEq

variable {Value : Type}

namespace Arg

/-- The letter and the name that `check_param` has for the type of an argument. -/
def kind : Arg Value → Option (Char × String)
  | .string _ => some ('s', "string")
  | .boolean _ => some ('b', "bool")
  | .number _ => some ('n', "member")
  | .userdata _ => some ('u', "userdata")
  | .table _ => some ('t', "table")
  | .function _ => some ('f', "fuction")
  | .nil | .lightuserdata | .thread => none

def isFunction : Arg Value → Bool
  | .function _ => true
  | _ => false

def isTable : Arg Value → Bool
  | .table _ => true
  | _ => false

def toInteger : Arg Value → LuaInteger
  | .number integer | .string integer => integer
  | _ => LuaInteger.ofInt 0

/-- One turn of the loop of `check_param`. -/
def check (i : Nat) (letter : Char) (arg : Arg Value) : Except Failure Unit :=
  match arg.kind with
  | none => .error (.error s!"param {i} is not define!")
  | some (wanted, name) =>
      if letter ≠ wanted then .error (.error s!"param {i} is not {name}!") else .ok ()

/-- The argument has the type that the letter stands for. -/
def Fits (arg : Arg Value) (letter : Char) : Prop :=
  arg.kind.map Prod.fst = some letter

end Arg

def checkFrom (i : Nat) : List (Arg Value) → List Char → Except Failure Unit
  | arg :: args, letter :: letters => do
      arg.check i letter
      checkFrom (i + 1) args letters
  | _, _ => .ok ()

def checkParam (args : List (Arg Value)) (count : Nat) (s : String) : Except Failure Unit :=
  if count ≠ s.length then .error .assertion
  else if args.length ≠ count then .error (.error "param is error!")
  else checkFrom 0 args s.toList

/-- `luaL_checkudata(L, 1, metatable)` -/
def checkUdata (args : List (Arg Value)) (metatable : String) : Except Failure Unit :=
  match args.head? with
  | some (.userdata name) =>
      if name = metatable then .ok () else .error (.argument 1 metatable)
  | _ => .error (.argument 1 metatable)

/-- What `lua_…(L, lo)` sees; `none` is a position above the top of the stack. -/
def argAt (args : List (Arg Value)) (lo : Nat) : Option (Arg Value) := args[lo - 1]?

inductive ConnIdx where
  | invalid
  | fixed (connIdx : UInt32)
  | readAt (lo : Nat)

/-- An argument that is not there leaves `INVALID_INDEX`. -/
def ConnIdx.read (args : List (Arg Value)) : ConnIdx → UInt32
  | .invalid => invalidIndex
  | .fixed connIdx => connIdx
  | .readAt lo =>
      if args.length ≥ lo then
        match argAt args lo with
        | some arg => UInt32.ofNat (arg.toInteger.value % 2 ^ 32).toNat
        | none => invalidIndex
      else invalidIndex

/-- The arguments of a handler: the function, and the parameter that is read
when there are enough arguments. -/
structure Place where
  function : Nat
  param : Option Nat
  deriving DecidableEq

structure EntryPoint where
  metatable : String
  /-- the `check_param` call for a number of arguments -/
  check : Nat → Option (Nat × String)
  /-- the arguments given to `toluafix_ref_function` and `toluafix_ref_param` -/
  refs : List Place
  connIdx : ConnIdx

/-- What goes on to the engine. -/
structure Passed (Value : Type) where
  handlers : List HandleInfo
  connIdx : UInt32
  registry : Registry (Arg Value)

namespace Place

def functionIn (args : List (Arg Value)) (place : Place) : Option (Arg Value) :=
  (argAt args place.function).filter Arg.isFunction

def paramIn (args : List (Arg Value)) (place : Place) : Option (Arg Value) :=
  place.param.bind fun lo =>
    if args.length ≥ lo then (argAt args lo).filter Arg.isTable else none

end Place

namespace EntryPoint

def checkArgs (e : EntryPoint) (args : List (Arg Value)) : Except Failure Unit :=
  match e.check args.length with
  | none => .ok ()
  | some (count, s) => checkParam args count s

def register (e : EntryPoint) (args : List (Arg Value)) (r : Registry (Arg Value)) :
    Option (Passed Value) :=
  (r.functions.refAll (e.refs.map (Place.functionIn args))).bind fun functions =>
    (r.params.refAll (e.refs.map (Place.paramIn args))).map fun params =>
      { handlers := (functions.1.zip params.1).map fun ids => { funId := ids.1, paramId := ids.2 }
        connIdx := e.connIdx.read args
        registry := { functions := functions.2, params := params.2 } }

/-- A call up to the point at which the handlers are passed on.  It does not get
there when an id is looked for in vain. -/
def call (e : EntryPoint) (args : List (Arg Value)) (r : Registry (Arg Value)) :
    Except Failure (Option (Passed Value)) := do
  e.checkArgs args
  checkUdata args e.metatable
  return e.register args r

end EntryPoint

/-! ## What the check accepts -/

theorem Arg.check_ok {i : Nat} {letter : Char} {arg : Arg Value} :
    arg.check i letter = .ok () ↔ arg.Fits letter := by
  unfold Arg.check Arg.Fits
  cases arg.kind with
  | none => simp
  | some kind =>
      obtain ⟨wanted, name⟩ := kind
      by_cases same : letter = wanted
      · simp [same]
      · simp [same, Ne.symm same]

theorem checkFrom_ok {i : Nat} {args : List (Arg Value)} {letters : List Char}
    (lengths : args.length = letters.length) :
    checkFrom i args letters = .ok () ↔ List.Forall₂ Arg.Fits args letters := by
  induction args generalizing i letters with
  | nil =>
      obtain rfl := List.length_eq_zero_iff.mp lengths.symm
      exact iff_of_true rfl .nil
  | cons arg args inductionHypothesis =>
      cases letters with
      | nil => cases lengths
      | cons letter letters =>
          have rest := inductionHypothesis (i := i + 1) (Nat.succ.inj lengths)
          rw [List.forall₂_cons, ← rest, ← Arg.check_ok (i := i), checkFrom]
          cases arg.check i letter with
          | error failure => simp [bind, Except.bind]
          | ok done => simp [bind, Except.bind]

theorem checkParam_ok {args : List (Arg Value)} {count : Nat} {s : String} :
    checkParam args count s = .ok () ↔
      count = s.length ∧ args.length = count ∧ List.Forall₂ Arg.Fits args s.toList := by
  unfold checkParam
  by_cases counted : count = s.length
  · by_cases lengths : args.length = count
    · have same : args.length = s.toList.length := by
        rw [lengths, counted, String.length_toList]
      simp only [ne_eq, counted, not_true, if_false, lengths, true_and]
      exact checkFrom_ok same
    · rw [if_neg (not_not.mpr counted), if_pos lengths]
      exact iff_of_false nofun fun accepted => lengths accepted.2.1
  · simp [counted]

/-! ## What gets registered -/

/-- An id that leads to a value until somebody removes it. -/
def Leads (r : Registry (Arg Value)) (kind : Kind) (id : UInt32) (value : Arg Value) : Prop :=
  0 < id ∧ ∀ later : Registry (Arg Value),
    (((Registry.calls (Arg Value)).startingAt r).restrict
      fun _ call => call ≠ .remove kind id).Reachable later →
    (later.table kind).get id = some value

/-- The handler carries the function and the parameter that were supplied. -/
structure Registered (args : List (Arg Value)) (r : Registry (Arg Value)) (place : Place)
    (handler : HandleInfo) : Prop where
  function : ∀ value, argAt args place.function = some (.function value) →
    Leads r .function handler.funId (.function value)
  param : ∀ lo ∈ place.param, ∀ arg, argAt args lo = some arg → arg ≠ .nil →
    Leads r .param handler.paramId arg

namespace EntryPoint

variable {e : EntryPoint} {args : List (Arg Value)} {r : Registry (Arg Value)}
  {passed : Passed Value}

theorem call_ok (called : e.call args r = .ok (some passed)) :
    e.checkArgs args = .ok () ∧ e.register args r = some passed := by
  obtain ⟨checked, accepted, rest⟩ := bind_eq_ok.mp called
  obtain ⟨typed, -, rest⟩ := bind_eq_ok.mp rest
  exact ⟨accepted, pure_eq_ok.mp rest⟩

/-- Handlers are put together from the two lists of ids. -/
theorem handlers_given {places : List Place} {hasFunction hasParam : Place → UInt32 → Prop}
    {funIds paramIds : List UInt32} (functions : List.Forall₂ hasFunction places funIds)
    (params : List.Forall₂ hasParam places paramIds) :
    List.Forall₂ (fun place (handler : HandleInfo) =>
        hasFunction place handler.funId ∧ hasParam place handler.paramId) places
      ((funIds.zip paramIds).map fun ids => { funId := ids.1, paramId := ids.2 }) := by
  induction functions generalizing paramIds with
  | nil => exact .nil
  | cons function _ inductionHypothesis =>
      cases params with
      | cons param params => exact .cons ⟨function, param⟩ (inductionHypothesis params)

theorem register_refs (made : e.register args r = some passed) : ∃ funIds paramIds,
    r.functions.refAll (e.refs.map (Place.functionIn args)) =
        some (funIds, passed.registry.functions) ∧
      r.params.refAll (e.refs.map (Place.paramIn args)) = some (paramIds, passed.registry.params) ∧
      passed.handlers = (funIds.zip paramIds).map (fun ids => { funId := ids.1, paramId := ids.2 }) ∧
      passed.connIdx = e.connIdx.read args := by
  obtain ⟨⟨funIds, functions⟩, first, made⟩ := Option.bind_eq_some_iff.mp made
  obtain ⟨⟨paramIds, params⟩, second, made⟩ := Option.map_eq_some_iff.mp made
  subst made
  exact ⟨funIds, paramIds, first, second, rfl, rfl⟩

/-- What becomes of each place, in whatever way the arguments were checked. -/
theorem register_spec (fresh : ∀ kind, (r.table kind).Fresh)
    (made : e.register args r = some passed) :
    (∀ kind, (passed.registry.table kind).Fresh) ∧
      List.Forall₂ (fun place handler =>
        passed.registry.functions.Given (place.functionIn args) handler.funId ∧
        passed.registry.params.Given (place.paramIn args) handler.paramId) e.refs passed.handlers := by
  obtain ⟨funIds, paramIds, first, second, handlers, -⟩ := register_refs made
  rw [handlers]
  obtain ⟨freshFunctions, -, givenFunctions⟩ := RefTable.refAll_given (fresh .function) first
  obtain ⟨freshParams, -, givenParams⟩ := RefTable.refAll_given (fresh .param) second
  constructor
  · intro kind
    cases kind with
    | function => exact freshFunctions
    | param => exact freshParams
  · exact handlers_given (List.forall₂_map_left_iff.mp givenFunctions)
      (List.forall₂_map_left_iff.mp givenParams)

theorem leads_of_given (fresh : ∀ kind, (r.table kind).Fresh) {kind : Kind} {id : UInt32}
    {value : Arg Value} (given : (r.table kind).Given (some value) id) : Leads r kind id value :=
  ⟨given.1, fun _ reached => Registry.get_until_removed fresh given.2 reached⟩

/-- The parameter is not supplied, or it is a table. -/
def TableOnly (args : List (Arg Value)) (place : Place) : Prop :=
  ∀ lo ∈ place.param, ∀ arg, argAt args lo = some arg → arg ≠ .nil → arg.isTable = true

theorem registered_iff (fresh : ∀ kind, (r.table kind).Fresh) {place : Place}
    {handler : HandleInfo} (function : r.functions.Given (place.functionIn args) handler.funId)
    (param : r.params.Given (place.paramIn args) handler.paramId) :
    Registered args r place handler ↔ TableOnly args place := by
  have read : ∀ lo ∈ place.param, ∀ arg, argAt args lo = some arg →
      place.paramIn args = if arg.isTable then some arg else none := by
    intro lo atLo arg found
    have inside : lo - 1 < args.length := (List.getElem?_eq_some_iff.mp found).1
    have enough : args.length ≥ lo := by omega
    rw [Place.paramIn, atLo, Option.bind_some, if_pos enough, found, Option.filter_some]
  constructor
  · intro registered lo atLo arg found supplied
    by_contra wrong
    rw [read lo atLo arg found, if_neg wrong] at param
    exact absurd (registered.param lo atLo arg found supplied).1 (by rw [param]; exact lt_irrefl 0)
  · intro tables
    refine ⟨fun value found => ?_, fun lo atLo arg found supplied => ?_⟩
    · rw [Place.functionIn, found, Option.filter_some, Arg.isFunction, if_pos rfl] at function
      exact leads_of_given fresh function
    · have isTable := tables lo atLo arg found supplied
      rw [read lo atLo arg found, if_pos isTable] at param
      exact leads_of_given fresh param

theorem allRegistered_iff (fresh : ∀ kind, (r.table kind).Fresh) {places : List Place}
    {handlers : List HandleInfo}
    (given : List.Forall₂ (fun place handler =>
      r.functions.Given (place.functionIn args) handler.funId ∧
        r.params.Given (place.paramIn args) handler.paramId) places handlers) :
    List.Forall₂ (Registered args r) places handlers ↔
      ∀ place ∈ places, TableOnly args place := by
  induction given with
  | nil => exact iff_of_true .nil fun _ membership => absurd membership List.not_mem_nil
  | cons first _ inductionHypothesis =>
      rw [List.forall₂_cons, inductionHypothesis, registered_iff fresh first.1 first.2,
        List.forall_mem_cons]

theorem call_ends (fresh : ∀ kind, (r.table kind).Fresh)
    (room : ∀ kind, (r.table kind).idMap.length + e.refs.length ≤ 2 ^ 31 - 2)
    (accepted : e.checkArgs args = .ok ()) (typed : checkUdata args e.metatable = .ok ()) :
    ∃ passed, e.call args r = .ok (some passed) := by
  have first : ∃ made, r.functions.refAll (e.refs.map (Place.functionIn args)) = some made :=
    RefTable.refAll_ends (fresh .function) (by rw [List.length_map]; exact room .function)
  have second : ∃ made, r.params.refAll (e.refs.map (Place.paramIn args)) = some made :=
    RefTable.refAll_ends (fresh .param) (by rw [List.length_map]; exact room .param)
  obtain ⟨functions, first⟩ := first
  obtain ⟨params, second⟩ := second
  have made : ∃ passed, e.register args r = some passed := by
    unfold register
    rw [first, Option.bind_some, second, Option.map_some]
    exact ⟨_, rfl⟩
  obtain ⟨passed, registered⟩ := made
  refine ⟨passed, ?_⟩
  rw [call, accepted, ok_bind, typed, ok_bind, registered]
  rfl

end EntryPoint

def ParamsChecked (places : List Place) (s : String) : Prop :=
  ∀ place ∈ places, ∀ lo ∈ place.param, ∀ letter ∈ s.toList[lo - 1]?, letter = 't'

instance (places : List Place) (s : String) : Decidable (ParamsChecked places s) :=
  -- the search could go through all characters instead
  let _ (lo : Nat) : Decidable (∀ letter ∈ s.toList[lo - 1]?, letter = 't') :=
    Option.decidableForallMem _
  inferInstanceAs (Decidable
    (∀ place ∈ places, ∀ lo ∈ place.param, ∀ letter ∈ s.toList[lo - 1]?, letter = 't'))

theorem Arg.isTable_iff {arg : Arg Value} {letter : Char} (fits : arg.Fits letter) :
    arg.isTable = true ↔ letter = 't' := by
  unfold Arg.Fits at fits
  cases arg <;> cases fits <;> simp [Arg.isTable]

theorem Arg.Fits.supplied {arg : Arg Value} {letter : Char} (fits : arg.Fits letter) :
    arg ≠ .nil := by
  rintro rfl
  cases fits

theorem fits_at {args : List (Arg Value)} {letters : List Char}
    (fits : List.Forall₂ Arg.Fits args letters) (index : Nat) :
    (∀ arg, args[index]? = some arg → ∃ letter, letters[index]? = some letter ∧ arg.Fits letter) ∧
      ∀ letter, letters[index]? = some letter → ∃ arg, args[index]? = some arg ∧ arg.Fits letter := by
  induction fits generalizing index with
  | nil => exact ⟨fun _ found => absurd found (by simp), fun _ found => absurd found (by simp)⟩
  | cons first _ inductionHypothesis =>
      cases index with
      | zero =>
          refine ⟨fun arg found => ?_, fun letter found => ?_⟩
          · obtain rfl := Option.some.inj found
            exact ⟨_, rfl, first⟩
          · obtain rfl := Option.some.inj found
            exact ⟨_, rfl, first⟩
      | succ index => exact inductionHypothesis index

/-- What a signature says about the parameters is all there is to check. -/
theorem tablesOnly_iff {args : List (Arg Value)} {count : Nat} {s : String} {places : List Place}
    (accepted : checkParam args count s = .ok ()) :
    (∀ place ∈ places, EntryPoint.TableOnly args place) ↔ ParamsChecked places s := by
  have fits := (checkParam_ok.mp accepted).2.2
  constructor
  · intro tables place among lo atLo letter found
    obtain ⟨arg, argFound, argFits⟩ := (fits_at fits (lo - 1)).2 letter found
    exact (Arg.isTable_iff argFits).mp (tables place among lo atLo arg argFound argFits.supplied)
  · intro checked place among lo atLo arg found _
    obtain ⟨letter, letterFound, argFits⟩ := (fits_at fits (lo - 1)).1 arg found
    exact (Arg.isTable_iff argFits).mpr (checked place among lo atLo letter letterFound)

end CrossOver.Binding
