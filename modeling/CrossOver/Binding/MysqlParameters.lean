import CrossOver.Binding.Entries
import CrossOver.Engine.Mysql.Statement
import CrossOver.Lua.Value

/-!
# SQL parameters on the way to a statement

`lua_mysql_add_query` and `lua_mysql_insert_first_query` read the array in their
fourth argument and give its numbers to `SetInt64` and its strings to `SetString`.
What `lua_tointeger` cannot convert becomes `0`.
-/

namespace CrossOver.Binding

open CrossOver.Lib
open CrossOver.Lua
open CrossOver.Engine.Mysql (StatementMysql ParamBind SqlValue Fault)
open CrossOver.Engine.LuaFix

/-- `lua_tointeger` of a number. -/
def floatTointeger (bits : UInt64) : Int :=
  match floatToInteger bits with
  | some integer => integer.value
  | none => 0

/-- The body of the loop over the parameters. -/
def bindValue (stmt : StatementMysql) (index : Nat) : Lua.LuaValue → Except Failure StatementMysql
  | .integer value => (stmt.setInt64 index value.value).mapError fun _ => .assertion
  | .number bits => (stmt.setInt64 index (floatTointeger bits)).mapError fun _ => .assertion
  | .string bytes => (stmt.setString index bytes).mapError fun _ => .assertion
  | _ => .error .assertion

/-- The loop; `remaining` parameters are to come, from the key `index + 1` on. -/
def bindFrom (entries : List Lua.Entry) :
    (remaining index : Nat) → StatementMysql → Except Failure StatementMysql
  | 0, _, stmt => .ok stmt
  | remaining + 1, index, stmt => do
      let stmt ← bindValue stmt index (rawgeti entries (index + 1 : Nat))
      bindFrom entries remaining (index + 1) stmt

/-- How often the loop runs: what `lua_rawlen` returns is taken as an `int`. -/
def loopCount (rawlen : Nat) : Nat := if rawlen % 2 ^ 32 < 2 ^ 31 then rawlen % 2 ^ 32 else 0

/-- The parameter table of a call: what `lua_rawlen` returns for it, and its entries.
Without a table there are no parameters. -/
def paramTable (args : List (Arg Lua.LuaValue)) : Nat × List Lua.Entry :=
  match argAt args 4 with
  | some (.table (.table _ border entries)) => (border, entries)
  | _ => (0, [])

def buildStatement (sql : Bytes) (rawlen : Nat) (entries : List Lua.Entry) :
    Except Failure StatementMysql :=
  (StatementMysql.prepare sql).elim (.error (.error "bad array new length"))
    fun stmt => bindFrom entries (loopCount rawlen) 0 stmt

/-- What a call hands to `AddQuery` or `InsertFristQuery`. -/
structure Queried where
  passed : Passed Lua.LuaValue
  stmt : StatementMysql

inductive QueryFunction where
  | addQuery
  | insertFirstQuery
  deriving DecidableEq, Repr

def QueryFunction.entryPoint : QueryFunction → EntryPoint
  | .addQuery => luaMysqlAddQuery
  | .insertFirstQuery => luaMysqlInsertFirstQuery

/-- A call of one of the two functions.  The arguments behind the fourth are removed,
which leaves that one on top of the stack. -/
def QueryFunction.query (function : QueryFunction) (sql : Bytes) (args : List (Arg Lua.LuaValue))
    (r : Registry (Arg Lua.LuaValue)) : Except Failure (Option Queried) := do
  match ← function.entryPoint.call args r with
  | none => pure none
  | some passed =>
      let stmt ← buildStatement sql (paramTable args).1 (paramTable args).2
      pure (some { passed, stmt })

/-- The value of a number or a string; a float that has an integer value is that
integer. -/
def sqlValue : Lua.LuaValue → Option SqlValue
  | .integer value => some (.integer value.value)
  | .number bits =>
      match floatToInteger bits with
      | some integer => some (.integer integer.value)
      | none => some (.double bits.toNat)
  | .string bytes => some (.text bytes)
  | _ => none

/-- An integer, a float that has an integer value, or a string without zero bytes. -/
def Survives : Lua.LuaValue → Prop
  | .integer _ => True
  | .number bits => (floatToInteger bits).isSome = true
  | .string bytes => 0 ∉ bytes ∧ bytes.length < 2 ^ 32
  | _ => False

structure IsArray (array : Lua.LuaValue) (params : List Lua.LuaValue) : Prop where
  entries : ∃ metapairs entries, array = .table metapairs params.length entries ∧
    ∀ index (inside : index < params.length),
      rawgeti entries (index + 1 : Nat) = params[index]
  typed : ∀ param ∈ params, (sqlValue param).isSome = true

/-- How a number or a string is bound. -/
def fillWith : Lua.LuaValue → ParamBind → ParamBind
  | .integer value, bind => bind.withInt64 value.value
  | .number bits, bind => bind.withInt64 (floatTointeger bits)
  | .string bytes, bind => bind.withString bytes
  | _, bind => bind

theorem fillWith_value_iff {param : Lua.LuaValue} (typed : (sqlValue param).isSome = true)
    (bind : ParamBind) : (fillWith param bind).value = sqlValue param ↔ Survives param := by
  cases param with
  | integer value =>
      exact iff_of_true (bind.withInt64_value value.lower value.upper) trivial
  | number bits =>
      cases whole : floatToInteger bits with
      | none =>
          have zero : (bind.withInt64 0).value = some (.integer 0) :=
            bind.withInt64_value (by decide) (by decide)
          simp only [fillWith, floatTointeger, sqlValue, Survives, whole, zero]
          simp
      | some integer =>
          have converted := bind.withInt64_value integer.lower integer.upper
          simp only [fillWith, floatTointeger, sqlValue, Survives, whole, converted]
          simp
  | string bytes => exact bind.withString_value_iff bytes
  | _ => cases typed

theorem bindValue_spec {stmt : StatementMysql} {index : Nat} {param : Lua.LuaValue}
    (typed : (sqlValue param).isSome = true) (inside : index < stmt.paramBind.length) :
    ∃ stmt', bindValue stmt index param = .ok stmt' ∧
      stmt'.paramBind.length = stmt.paramBind.length ∧
      stmt'.paramBind[index]? = (stmt.paramBind[index]?).map (fillWith param) ∧
      ∀ other, other ≠ index → stmt'.paramBind[other]? = stmt.paramBind[other]? := by
  have filled : ∀ fill, ∃ stmt', (stmt.setBind index fill).mapError (fun _ => Failure.assertion) =
      .ok stmt' ∧ stmt'.paramBind.length = stmt.paramBind.length ∧
      stmt'.paramBind[index]? = (stmt.paramBind[index]?).map fill ∧
      ∀ other, other ≠ index → stmt'.paramBind[other]? = stmt.paramBind[other]? := by
    intro fill
    obtain ⟨stmt', set, length, -, here, others⟩ := StatementMysql.setBind_spec inside
    exact ⟨stmt', by rw [set]; rfl, length, here, others⟩
  cases param with
  | integer value => exact filled _
  | number bits => exact filled _
  | string bytes => exact filled _
  | _ => cases typed

/-- The loop binds each parameter that is left and no other. -/
theorem bindFrom_spec {entries : List Lua.Entry} {remaining index : Nat} {stmt : StatementMysql}
    (typed : ∀ later, index ≤ later → later < index + remaining →
      (sqlValue (rawgeti entries (later + 1 : Nat))).isSome = true)
    (room : index + remaining ≤ stmt.paramBind.length) :
    ∃ stmt', bindFrom entries remaining index stmt = .ok stmt' ∧
      stmt'.paramBind.length = stmt.paramBind.length ∧
      ∀ other, stmt'.paramBind[other]? =
        if index ≤ other ∧ other < index + remaining then
          (stmt.paramBind[other]?).map (fillWith (rawgeti entries (other + 1 : Nat)))
        else stmt.paramBind[other]? := by
  induction remaining generalizing index stmt with
  | zero => exact ⟨stmt, rfl, rfl, fun other => by rw [if_neg (by omega)]⟩
  | succ remaining inductionHypothesis =>
      have inside : index < stmt.paramBind.length := by omega
      obtain ⟨next, bound, length, here, others⟩ :=
        bindValue_spec (typed index (le_refl _) (by omega)) inside
      have room' : index + 1 + remaining ≤ next.paramBind.length := by omega
      obtain ⟨last, rest, lengthLast, behind⟩ := inductionHypothesis
        (fun later lower upper => typed later (by omega) (by omega)) room'
      refine ⟨last, ?_, lengthLast.trans length, fun other => ?_⟩
      · rw [bindFrom, bound]
        exact rest
      · rw [behind]
        by_cases first : other = index
        · have done : ¬(index + 1 ≤ other ∧ other < index + 1 + remaining) := by omega
          have bindsHere : index ≤ other ∧ other < index + (remaining + 1) := by omega
          rw [if_neg done, if_pos bindsHere, first, here]
        · rw [others other first]
          exact if_congr (by omega) rfl rfl

theorem IsArray.bindFrom {array : Lua.LuaValue} {params : List Lua.LuaValue}
    (isArray : IsArray array params) {stmt : StatementMysql}
    (room : stmt.paramBind.length = params.length) : ∃ metapairs entries stmt',
      array = .table metapairs params.length entries ∧
      Binding.bindFrom entries params.length 0 stmt = .ok stmt' ∧
      stmt'.paramBind = List.zipWith fillWith params stmt.paramBind := by
  obtain ⟨⟨metapairs, entries, array, elements⟩, typed⟩ := isArray
  obtain ⟨stmt', bound, length, each⟩ := @bindFrom_spec entries params.length 0 stmt
    (fun later _ upper => by
      rw [elements later (by omega)]
      exact typed _ (List.getElem_mem _))
    (by omega)
  refine ⟨metapairs, entries, stmt', array, bound, List.ext_getElem? fun index => ?_⟩
  rw [each, List.getElem?_zipWith]
  by_cases inside : index < params.length
  · rw [if_pos (by omega), elements index inside, List.getElem?_eq_getElem inside,
      List.getElem?_eq_getElem (by omega)]
    rfl
  · rw [if_neg (by omega), List.getElem?_eq_none (by omega), List.getElem?_eq_none (by omega)]

section Query

variable (function : QueryFunction) {sql : Bytes} {args : List (Arg Lua.LuaValue)}
  {r : Registry (Arg Lua.LuaValue)} {passed : Passed Lua.LuaValue}
  (accepted : function.entryPoint.call args r = .ok (some passed))
  {array : Lua.LuaValue} {params : List Lua.LuaValue}
  (fourth : argAt args 4 = some (.table array)) (isArray : IsArray array params)
  (counted : Engine.Mysql.countChar sql 63 = params.length)
include accepted fourth isArray counted

theorem query_binds : ∃ stmt, function.query sql args r = .ok (some { passed, stmt }) ∧
    stmt.paramBind = List.zipWith fillWith params (List.replicate params.length .zero) := by
  have count : loopCount params.length = params.length := by
    have range := Engine.Mysql.toInt_countChar sql 63
    have upper := Engine.Mysql.toInt_lt (Engine.Mysql.countChar sql 63)
    rw [range, counted] at upper
    rw [loopCount, Nat.mod_eq_of_lt (by omega), if_pos (by omega)]
  have prepared : StatementMysql.prepare sql = some {
      strSql := Engine.Mysql.cString sql
      paramBind := List.replicate params.length .zero } := by
    rw [StatementMysql.prepare, counted, if_neg (by omega), Int.toNat_natCast]
  have blank : ({ strSql := Engine.Mysql.cString sql, paramBind := List.replicate params.length .zero }
      : StatementMysql).paramBind.length = params.length := List.length_replicate
  obtain ⟨metapairs, entries, stmt, rfl, bound, binds⟩ := isArray.bindFrom blank
  have built : buildStatement sql params.length entries = .ok stmt := by
    rw [buildStatement, prepared, Option.elim_some, count, bound]
  have queried : function.query sql args r = .ok (some { passed, stmt }) := by
    simp only [QueryFunction.query, accepted, ok_bind, paramTable, fourth, built]
    rfl
  exact ⟨stmt, queried, binds⟩

/-- When the text has as many question marks as the array has elements, every
element gets its own binding, and the binding stands for the element exactly if
it is an integer, a float with an integer value or a string without zero bytes. -/
theorem parameters_bound_iff : ∃ stmt, function.query sql args r = .ok (some { passed, stmt }) ∧
    stmt.paramBind.length = params.length ∧
    ∀ index (inside : index < params.length), ∃ bind, stmt.paramBind[index]? = some bind ∧
      (bind.value = sqlValue params[index] ↔ Survives params[index]) := by
  obtain ⟨stmt, queried, binds⟩ := query_binds function accepted fourth isArray counted
  refine ⟨stmt, queried, ?_, fun index inside => ⟨fillWith params[index] .zero, ?_, ?_⟩⟩
  · rw [binds, List.length_zipWith, List.length_replicate, min_self]
  · rw [binds, List.getElem?_zipWith, List.getElem?_eq_getElem inside,
      List.getElem?_replicate_of_lt inside]
  · exact fillWith_value_iff (isArray.typed _ (List.getElem_mem inside)) .zero

end Query

/-- `db:add_query("?,?", fun_callback, array)` -/
def pairArgs (array : Lua.LuaValue) : List (Arg Lua.LuaValue) :=
  [.userdata "mysql", .string (.ofInt 0), .function .nil, .table array]

def pairTable (first second : Lua.LuaValue) : Lua.LuaValue :=
  .table none 2 [(.integer (.ofInt 1), first), (.integer (.ofInt 2), second)]

theorem pairTable_isArray {first second : Lua.LuaValue}
    (typed : ∀ param ∈ [first, second], (sqlValue param).isSome = true) :
    IsArray (pairTable first second) [first, second] := by
  refine ⟨⟨none, _, rfl, fun index inside => ?_⟩, typed⟩
  match index, inside with
  | 0, _ => rfl
  | 1, _ => rfl

theorem pairArgs_accepted (array : Lua.LuaValue) : ∃ passed,
    luaMysqlAddQuery.call (pairArgs array) Registry.initial = .ok (some passed) := by
  have fresh := Registry.fresh_of_reachable
    (show (Registry.calls (Arg Lua.LuaValue)).Reachable Registry.initial from .start rfl)
  exact EntryPoint.call_ends fresh (fun kind => by cases kind <;> decide) rfl rfl

/-- The array `{7, "k"}` -/
theorem parameters_bound_pair : ∃ passed stmt,
    QueryFunction.addQuery.query [63, 44, 63] (pairArgs (pairTable (.integer (.ofInt 7))
      (.string [107]))) Registry.initial = .ok (some { passed, stmt }) ∧
      ∃ bind, stmt.paramBind[1]? = some bind ∧ bind.value = some (.text [107]) := by
  obtain ⟨passed, accepted⟩ :=
    pairArgs_accepted (pairTable (.integer (.ofInt 7)) (.string [107]))
  have counted : Engine.Mysql.countChar [63, 44, 63] 63 = 2 := by decide
  obtain ⟨stmt, queried, -, each⟩ := parameters_bound_iff .addQuery accepted rfl
    (pairTable_isArray (by decide)) counted
  obtain ⟨bind, found, survives⟩ := each 1 (by decide)
  exact ⟨passed, stmt, queried, bind, found, survives.mpr ⟨by decide, by decide⟩⟩

/-- The array `{2.5, "a\0b"}` is bound as `0` and `"a"`. -/
theorem float_and_zero_byte_lost : ∃ passed stmt,
    QueryFunction.addQuery.query [63, 44, 63] (pairArgs (pairTable (.number 0x4004000000000000)
      (.string [97, 0, 98]))) Registry.initial = .ok (some { passed, stmt }) ∧
      stmt.paramBind.map ParamBind.value = [some (.integer 0), some (.text [97])] ∧
      [.number 0x4004000000000000, .string [97, 0, 98]].map sqlValue =
        [some (.double 0x4004000000000000), some (.text [97, 0, 98])] := by
  obtain ⟨passed, accepted⟩ := pairArgs_accepted
    (pairTable (.number 0x4004000000000000) (.string [97, 0, 98]))
  have counted : Engine.Mysql.countChar [63, 44, 63] 63 = 2 := by decide
  obtain ⟨stmt, queried, binds⟩ := query_binds .addQuery accepted rfl
    (pairTable_isArray (by decide)) counted
  exact ⟨passed, stmt, queried, by rw [binds]; decide, by decide⟩

end CrossOver.Binding
