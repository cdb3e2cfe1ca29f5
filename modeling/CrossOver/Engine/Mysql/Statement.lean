import CrossOver.Engine.Mysql.Serial
import Mathlib.Data.List.TakeWhile

/-!
# The parameters of a statement

`StatementMysql::Prepare` makes one zeroed binding for each `?` of the SQL text,
and the setters fill in the binding of their index.  A text handed over as a C
string ends at its first zero byte.
-/

namespace CrossOver.Engine.Mysql

open CrossOver.Lib

def cString (text : Bytes) : Bytes := text.takeWhile fun byte => byte != 0

/-- `CountChar`; the count is an `int`. -/
def countChar (sql : Bytes) (c : UInt8) : Int := toInt ((cString sql).count c)

/-- An entry of `param_bind_` with the memory it points to; `none` is `NULL`. -/
structure ParamBind where
  bufferType : FieldType
  buffer : Option Bytes
  bufferLength : Nat
  isUnsigned : Bool
  deriving DecidableEq, Repr

structure StatementMysql where
  strSql : Bytes
  paramBind : List ParamBind
  deriving DecidableEq, Repr

inductive SqlValue where
  | integer (value : Int)
  | double (bits : Nat)
  | text (bytes : Bytes)
  deriving DecidableEq, Repr

namespace ParamBind

/-- `memset(param_bind_, 0, …)`; the type with the number 0 is `MYSQL_TYPE_DECIMAL`. -/
def zero : ParamBind :=
  { bufferType := .decimal, buffer := none, bufferLength := 0, isUnsigned := false }

def withInt64 (bind : ParamBind) (value : Int) : ParamBind :=
  { bind with
    bufferType := .longlong
    buffer := some (leBytes 8 (value % 2 ^ 64).toNat)
    bufferLength := 8
    isUnsigned := false }

def withString (bind : ParamBind) (value : Bytes) : ParamBind :=
  let len := (cString value).length % 2 ^ 32
  { bind with
    bufferType := .string
    buffer := some ((cString value).take len)
    bufferLength := len }

/-- What the binding stands for. -/
def value (bind : ParamBind) : Option SqlValue :=
  bind.buffer.bind fun data =>
    match bind.bufferType with
    | .longlong =>
        let word := leValue (data.take 8)
        some (.integer (if bind.isUnsigned then word else (word : Int).bmod (2 ^ 64)))
    | .double => some (.double (leValue (data.take 8)))
    | .string => some (.text (data.take bind.bufferLength))
    | _ => none

end ParamBind

namespace StatementMysql

/-- `StatementMysql::Prepare`; an array of negative length cannot be allocated. -/
def prepare (sql : Bytes) : Option StatementMysql :=
  if countChar sql 63 < 0 then none
  else some {
    strSql := cString sql
    paramBind := List.replicate (countChar sql 63).toNat .zero }

def setBind (stmt : StatementMysql) (index : Nat) (fill : ParamBind → ParamBind) :
    Except Fault StatementMysql :=
  if index < stmt.paramBind.length then
    .ok { stmt with paramBind := stmt.paramBind.modify index fill }
  else .error .assertFailed

def setInt64 (stmt : StatementMysql) (index : Nat) (value : Int) : Except Fault StatementMysql :=
  stmt.setBind index fun bind => bind.withInt64 value

def setString (stmt : StatementMysql) (index : Nat) (value : Bytes) :
    Except Fault StatementMysql :=
  stmt.setBind index fun bind => bind.withString value

end StatementMysql

theorem toInt_countChar (sql : Bytes) (c : UInt8) : toInt (countChar sql c) = countChar sql c := by
  simp only [countChar, toInt, Int.bmod_bmod]

theorem cString_eq_self_iff {text : Bytes} : cString text = text ↔ 0 ∉ text := by
  rw [cString, List.takeWhile_eq_self_iff]
  simp only [bne_iff_ne, ne_eq]
  exact ⟨fun each membership => each 0 membership rfl, fun none byte membership isZero =>
    none (isZero ▸ membership)⟩

namespace ParamBind

theorem withInt64_value (bind : ParamBind) {value : Int} (lower : -2 ^ 63 ≤ value)
    (upper : value < 2 ^ 63) : (bind.withInt64 value).value = some (.integer value) := by
  have word : (value % 2 ^ 64).toNat < 256 ^ 8 := by omega
  have data : (leBytes 8 (value % 2 ^ 64).toNat).take 8 = leBytes 8 (value % 2 ^ 64).toNat :=
    List.take_of_length_le (by simp)
  have signed : (((value % 2 ^ 64).toNat : Nat) : Int).bmod (2 ^ 64) = value := by
    rw [Int.toNat_of_nonneg (by omega), Int.bmod_def]
    split <;> omega
  simp only [ParamBind.value, withInt64, Option.bind_some, data, leValue_leBytes word,
    Bool.false_eq_true, if_false, signed]

/-- A string is bound up to its first zero byte, and its length is 32 bits wide. -/
theorem withString_value_iff (bind : ParamBind) (text : Bytes) :
    (bind.withString text).value = some (.text text) ↔ 0 ∉ text ∧ text.length < 2 ^ 32 := by
  rw [← cString_eq_self_iff]
  simp only [ParamBind.value, withString, Option.bind_some, List.take_take, min_self,
    Option.some.injEq, SqlValue.text.injEq]
  constructor
  · intro whole
    have prefixed : cString text <+: text := List.takeWhile_prefix _
    have shorter := prefixed.length_le
    have length := congrArg List.length whole
    rw [List.length_take] at length
    have low := min_le_left ((cString text).length % 2 ^ 32) (cString text).length
    have high := min_le_right ((cString text).length % 2 ^ 32) (cString text).length
    exact ⟨prefixed.eq_of_length (by omega), by omega⟩
  · rintro ⟨same, short⟩
    rw [same, Nat.mod_eq_of_lt short, List.take_length]

end ParamBind

namespace StatementMysql

variable {stmt : StatementMysql} {index : Nat} {fill : ParamBind → ParamBind}

/-- A setter fills in the binding of its index and leaves the others. -/
theorem setBind_spec (inside : index < stmt.paramBind.length) : ∃ stmt',
    stmt.setBind index fill = .ok stmt' ∧ stmt'.paramBind.length = stmt.paramBind.length ∧
      stmt'.strSql = stmt.strSql ∧
      stmt'.paramBind[index]? = (stmt.paramBind[index]?).map fill ∧
      ∀ other, other ≠ index → stmt'.paramBind[other]? = stmt.paramBind[other]? := by
  refine ⟨_, if_pos inside, List.length_modify .., rfl, ?_, fun other apart => ?_⟩
  · simp
  · simp [apart.symm]

end StatementMysql

end CrossOver.Engine.Mysql
