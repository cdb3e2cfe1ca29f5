import CrossOver.Lib.Memory
import CrossOver.Lib.Result

/-!
# Result sets

`ResultSetMysql::Init` binds a buffer to every column.  The connection thread
then fetches row after row and serialises the bound buffers into one block
(`BuildBinResult`); the work thread reads the block back and pushes a Lua table
of rows (`BuildLuaResult`).  Code that fetches by itself uses the typed getters.

The rows that the statement has stored are a list; `none` is a NULL.  The memory
that `new` returns has an arbitrary content, `fresh`.
-/

namespace CrossOver.Engine.Mysql

open CrossOver.Lib

/-- `enum_field_types` -/
inductive FieldType where
  | decimal | tiny | short | long | float | double | null | timestamp | longlong | int24
  | date | time | datetime | year | newdate | varchar | bit | timestamp2 | datetime2 | time2
  | json | newdecimal | enum | set | tinyBlob | mediumBlob | longBlob | blob
  | varString | string | geometry
  deriving DecidableEq, Repr

namespace FieldType

/-- The types that are serialised with their length in front. -/
def isString : FieldType → Bool
  | .string | .varString | .json => true
  | _ => false

end FieldType

/-- `MYSQL_FIELD` -/
structure Field where
  name : String
  type : FieldType
  length : Nat
  isUnsigned : Bool
  deriving DecidableEq, Repr

/-- `MYSQL_BIND` -/
structure Bind where
  bufferType : FieldType
  isUnsigned : Bool
  bufferLength : Nat
  deriving DecidableEq, Repr

structure BindMemInfo where
  data : Bytes
  len : Nat
  isNull : Bool
  columnName : String
  deriving DecidableEq, Repr

/-- The entries of `result_bind_` and `result_bind_mem_infos_` for one column. -/
structure Column where
  bind : Bind
  memInfo : BindMemInfo
  deriving DecidableEq, Repr

abbrev Row := List (Option Bytes)

/-- What ends a call: an assertion, or an access outside an allocated block. -/
inductive Fault where
  | assertFailed
  | outOfBounds
  deriving DecidableEq, Repr

def sizeofMysqlTime : Nat := 40

/-- The switch of `AllocateResultBuffer`. -/
def resultBufferLength (field : Field) : Except Fault Nat :=
  match field.type with
  | .tiny => .ok 1
  | .year | .short => .ok 2
  | .int24 | .long => .ok 4
  | .longlong => .ok 8
  | .float => .ok 4
  | .double => .ok 8
  | .newdecimal => .ok 67
  | .time | .date | .datetime | .timestamp => .ok sizeofMysqlTime
  | .string | .varString => .ok field.length
  | .json => .ok field.length
  | .tinyBlob | .blob | .mediumBlob | .longBlob => .ok 1
  | .bit => .ok 1
  | _ => .error .assertFailed

def allocateResultBuffer (fresh : Nat → UInt8) (field : Field) : Except Fault Column := do
  let bufferLength ← resultBufferLength field
  pure {
    bind := { bufferType := field.type, isUnsigned := field.isUnsigned, bufferLength }
    memInfo := {
      data := (List.range bufferLength).map fresh
      len := 0
      isNull := false
      columnName := field.name
    }
  }

/-- The loop of `Init` over the fields; `index` numbers the allocations. -/
def allocateColumns (fresh : Nat → Nat → UInt8) : Nat → List Field → Except Fault (List Column)
  | _, [] => pure []
  | index, field :: rest => do
      let column ← allocateResultBuffer (fresh index) field
      let columns ← allocateColumns fresh (index + 1) rest
      pure (column :: columns)

/-- What a column adds to `row_size_`. -/
def Column.rowBytes (column : Column) : Nat :=
  (if column.bind.bufferType.isString then 4 else 0) + column.bind.bufferLength

structure ResultSetMysql where
  columns : List Column
  /-- The rows that `stmt_` has stored and not yet returned. -/
  stmt : List Row
  rowCount : Nat
  rowSize : Nat
  data : Bytes
  deriving DecidableEq, Repr

/-- `mysql_stmt_bind_result` may write the length of a column at once. -/
def Column.bound (boundLength : FieldType → Nat) (column : Column) : Column :=
  { column with memInfo := { column.memInfo with len := boundLength column.bind.bufferType } }

/-- `ResultSetMysql::Init` of a statement with a result set. -/
def ResultSetMysql.init (boundLength : FieldType → Nat) (fresh : Nat → Nat → UInt8)
    (fields : List Field) (rows : List Row) : Except Fault ResultSetMysql := do
  let columns ← allocateColumns fresh 0 fields
  pure {
    columns := columns.map (Column.bound boundLength)
    stmt := rows
    rowCount := rows.length % 2 ^ 32
    rowSize := columns.foldl (fun size column => (size + column.rowBytes) % 2 ^ 32) 0
    data := []
  }

namespace Column

/-- What `mysql_stmt_fetch` stores for one column.  A NULL sets `is_null` only. -/
def fetch (column : Column) : Option Bytes → Column
  | none => { column with memInfo := { column.memInfo with isNull := true } }
  | some value =>
      { column with
        memInfo := { column.memInfo with
          data := memcpy column.memInfo.data 0 value
          len := value.length
          isNull := false } }

/-- The value is longer than the bound buffer. -/
def truncates (column : Column) (value : Option Bytes) : Bool :=
  value.any fun bytes => column.bind.bufferLength < bytes.length

end Column

def fetchRow (columns : List Column) (row : Row) : List Column :=
  List.zipWith Column.fetch columns row

def nextRow (columns : List Column) (row : Row) : Except Fault (List Column) :=
  -- MYSQL_DATA_TRUNCATED
  if (columns.zip row).any fun cell => cell.1.truncates cell.2 then .error .assertFailed
  else .ok (fetchRow columns row)

/-- A value as it reaches Lua; the floating point numbers by their bits. -/
inductive LuaValue where
  | number (value : Int)
  | single (bits : Nat)
  | double (bits : Nat)
  | string (bytes : Bytes)
  deriving DecidableEq, Repr

def integerOf (isUnsigned : Bool) (bytes : Bytes) : LuaValue :=
  .number (if isUnsigned then leValue bytes else (leValue bytes : Int).bmod (256 ^ bytes.length))

namespace Column

/-- A getter that reads the first `width` bytes of the bound buffer. -/
def getFixed (column : Column) (width : Nat) (zero : LuaValue) (read : Bytes → LuaValue) :
    LuaValue :=
  if column.memInfo.isNull then zero else read (column.memInfo.data.take width)

def getInt8 (column : Column) : LuaValue := column.getFixed 1 (.number 0) (integerOf false)
def getInt16 (column : Column) : LuaValue := column.getFixed 2 (.number 0) (integerOf false)
def getInt32 (column : Column) : LuaValue := column.getFixed 4 (.number 0) (integerOf false)
def getUInt8 (column : Column) : LuaValue := column.getFixed 1 (.number 0) (integerOf true)
def getUInt16 (column : Column) : LuaValue := column.getFixed 2 (.number 0) (integerOf true)
def getUInt32 (column : Column) : LuaValue := column.getFixed 4 (.number 0) (integerOf true)

def getFloat (column : Column) : LuaValue :=
  column.getFixed 4 (.single 0) fun bytes => .single (leValue bytes)

def getString (column : Column) : LuaValue :=
  if column.memInfo.isNull then .string []
  else .string (column.memInfo.data.take column.memInfo.len)

end Column

/-- An access outside a block ends the call. -/
def inBounds {Result : Type} : Option Result → Except Fault Result
  | none => .error .outOfBounds
  | some result => .ok result

def toInt (value : Int) : Int := value.bmod (2 ^ 32)

/-- The block under construction, and the offsets reached after each column. -/
structure Written where
  data : Bytes
  offset : Int
  ends : List Int
  deriving DecidableEq, Repr

/-- The body of the inner loop of `BuildBinResult`. -/
def writeColumn (written : Written) (column : Column) : Except Fault Written := do
  let info := column.memInfo
  let contents ← inBounds (load info.data 0 info.len)
  if column.bind.bufferType.isString then
    let data ← inBounds (store written.data written.offset (leBytes 4 info.len))
    let offset := toInt (written.offset + 4)
    let data ← inBounds (store data offset contents)
    let offset := toInt (offset + info.len)
    pure { data, offset, ends := written.ends ++ [offset] }
  else
    let data ← inBounds (store written.data written.offset contents)
    let offset := toInt (written.offset + info.len)
    pure { data, offset, ends := written.ends ++ [offset] }

/-- `while (NextRow())` -/
def writeRows : List Row → List Column → Written → Except Fault (List Column × Written)
  | [], columns, written => pure (columns, written)
  | row :: rest, columns, written => do
      let columns ← nextRow columns row
      let written ← columns.foldlM writeColumn written
      writeRows rest columns written

def ResultSetMysql.buildBinResult (fresh : Nat → UInt8) (rs : ResultSetMysql) :
    Except Fault (ResultSetMysql × List Int) :=
  if rs.rowCount = 0 then pure (rs, [])
  else do
    let block := (List.range (rs.rowSize * rs.rowCount % 2 ^ 32)).map fresh
    let (columns, written) ← writeRows rs.stmt rs.columns { data := block, offset := 0, ends := [] }
    pure ({ rs with columns, stmt := [], data := written.data }, written.ends)

/-- The row being pushed, and the offsets reached after each column. -/
structure Pushed where
  offset : Int
  ends : List Int
  fields : List (String × LuaValue)
  deriving DecidableEq, Repr

def readFixed (data : Bytes) (offset : Int) (width : Nat) (read : Bytes → LuaValue) :
    Except Fault (LuaValue × Int) := do
  let bytes ← inBounds (load data offset width)
  pure (read bytes, toInt (offset + width))

/-- The switch of `BuildLuaResult`. -/
def readValue (data : Bytes) (offset : Int) (bind : Bind) : Except Fault (LuaValue × Int) :=
  match bind.bufferType with
  | .string | .varString | .json => do
      let header ← inBounds (load data offset 4)
      let offset := toInt (offset + 4)
      let bytes ← inBounds (load data offset (leValue header))
      pure (.string bytes, toInt (offset + leValue header))
  | .tiny => readFixed data offset 1 (integerOf bind.isUnsigned)
  | .short => readFixed data offset 2 (integerOf bind.isUnsigned)
  | .long => readFixed data offset 4 (integerOf bind.isUnsigned)
  | .float => readFixed data offset 4 fun bytes => .single (leValue bytes)
  | .double => readFixed data offset 8 fun bytes => .double (leValue bytes)
  | _ => .error .assertFailed

/-- The pair for `lua_settable`, which overwrites that of an earlier column with the same name. -/
def readColumn (data : Bytes) (pushed : Pushed) (column : Column) : Except Fault Pushed := do
  let (value, offset) ← readValue data pushed.offset column.bind
  pure {
    offset
    ends := pushed.ends ++ [offset]
    fields := pushed.fields ++ [(column.memInfo.columnName, value)]
  }

/-- The table of `BuildLuaResult`: a row for each key. -/
abbrev LuaRows := List (Nat × List (String × LuaValue))

/-- The loop over the rows; `remaining` are to come, `row` are done. -/
def readRows (data : Bytes) (columns : List Column) :
    (remaining row : Nat) → (offset : Int) → Except Fault (LuaRows × List Int)
  | 0, _, _ => pure ([], [])
  | remaining + 1, row, offset => do
      let pushed ← columns.foldlM (readColumn data) { offset, ends := [], fields := [] }
      let (rows, ends) ← readRows data columns remaining (row + 1) pushed.offset
      pure ((row + 1, pushed.fields) :: rows, pushed.ends ++ ends)

/-- The table, and the offsets after each column read. -/
def ResultSetMysql.buildLuaResult (rs : ResultSetMysql) : Except Fault (LuaRows × List Int) :=
  readRows rs.data rs.columns (toInt rs.rowCount).toNat 0 0

/-- What the connection thread and then the work thread do with a statement. -/
def deliver (boundLength : FieldType → Nat) (fresh : Nat → Nat → UInt8) (fields : List Field)
    (rows : List Row) : Except Fault ((LuaRows × List Int) × List Int) := do
  let rs ← ResultSetMysql.init boundLength fresh fields rows
  let (rs, written) ← rs.buildBinResult (fresh fields.length)
  let read ← rs.buildLuaResult
  pure (read, written)

end CrossOver.Engine.Mysql
