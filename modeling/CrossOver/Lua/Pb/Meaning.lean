import CrossOver.Lua.Pb.Decode

/-!
# What a message comes back as

The table that a value becomes when it is encoded and decoded, said without the bytes: every
value is cut to the type of its field, the zeros that proto3 leaves out are not assigned, and
the assignments happen in the order of the entries.  The only failure of its own is a key
that a table cannot have.
-/

namespace CrossOver.Lua.Pb

open CrossOver.Lib

def FieldType.cut (type : FieldType) (v : UInt64) : LuaInteger :=
  match type with
  | .int32 | .sint32 | .sfixed32 => lowInteger 32 true v.toNat
  | .uint32 | .fixed32 => lowInteger 32 false v.toNat
  | _ => lowInteger 64 true v.toNat

namespace Meaning

variable (conv : Conversions) (db : Database) (opts : Options)
  (nested : Ty → List Entry → List Entry → Except Failure (List Entry))

/-- The value of a field that is neither an enumeration nor a message. -/
def scalar (type : FieldType) (value : LuaValue) : LuaValue :=
  match type with
  | .bool => .boolean (toboolean value)
  | .double => ((conv.tonumberx value).map .number).getD .nil
  | .float =>
      ((conv.tonumberx value).map fun v => .number (conv.decodeFloat (conv.encodeFloat v))).getD .nil
  | .bytes | .string => value
  | type =>
      match tointegerx conv value with
      | .ok (some v) => pushinteger opts.int64Mode (type.cut v)
      | _ => .nil

/-- The value is one that `lpb_addtype` would leave out. -/
def isZero (type : FieldType) (value : LuaValue) : Bool :=
  match type with
  | .enum | .message => false
  | type =>
      match addtype conv type value with
      | .ok (some (_, zero)) => zero
      | _ => false

/-- The number of an enumeration, as it is written. -/
def enumNumber (f : Field) (value : LuaValue) : UInt64 :=
  match value with
  | .integer _ | .number _ => conv.toUint64 ((conv.tonumberx value).getD 0)
  | .string s =>
      match (db.typeOf f).bind (·.fname s) with
      | some ev => ev.number.toUInt32.toUInt64
      | none => 0
  | _ => 0

def enum (f : Field) (value : LuaValue) : LuaValue :=
  let v := enumNumber conv db f value
  let ev := if opts.enumAsValue then none else (db.typeOf f).bind (·.field v.toUInt32.toInt32)
  match ev with
  | some ev => .string ev.name
  | none => pushinteger opts.int64Mode (signed64 v)

def value (f : Field) (value : LuaValue) : Except Failure LuaValue :=
  match f.typeId with
  | .enum => .ok (enum conv db opts f value)
  | .message =>
      match value with
      | .table _ _ entries =>
          match db.typeOf f with
          | none => .ok .nil
          | some type =>
              if type.isDead then .ok .nil
              else do
                let inner ← nested type entries (pushtypetable conv db opts type)
                return newTable conv inner
      | _ => .ok .nil
  | type => .ok (scalar conv opts type value)

/-- A part of a map entry; the zero that is not written is the default of the field. -/
def mapPart (f : Field) (part : LuaValue) : Except Failure (Option LuaValue) :=
  if isZero conv f.typeId part then .ok (pushdefault conv db opts f true)
  else some <$> value conv db opts nested f part

/-- One pair of a map, assigned to the table that the field already has. -/
def mapEntry (f kf vf : Field) (entries : List Entry) (pair : Entry) :
    Except Failure (List Entry) := do
  let inner ← Decode.fetchtable f entries
  let key ← mapPart conv db opts nested kf pair.1
  let value ← mapPart conv db opts nested vf pair.2
  let inner ← Decode.assign inner key value
  return setSlot entries (.string f.name) (newTable conv inner)

def element (f : Field) (entries : List Entry) (item : LuaValue) :
    Except Failure (List Entry) := do
  let inner ← Decode.fetchtable f entries
  let made ← value conv db opts nested f item
  let inner := setSlot inner (.integer (.ofInt (conv.rawlen inner + 1))) made
  return setSlot entries (.string f.name) (newTable conv inner)

/-- The elements of a packed field, of which the table counts the length only once. -/
def packed (f : Field) (entries : List Entry) (items : List LuaValue) :
    Except Failure (List Entry) := do
  let inner ← Decode.fetchtable f entries
  let (inner, _) ← items.foldlM (fun (state : List Entry × Nat) item => do
    let made ← value conv db opts nested f item
    return (setSlot state.1 (.integer (.ofInt (state.2 + 1))) made, state.2 + 1))
    (inner, conv.rawlen inner)
  return setSlot entries (.string f.name) (newTable conv inner)

def entriesOf : LuaValue → List Entry
  | .table _ _ entries => entries
  | _ => []

def single (f : Field) (ignorezero : Bool) (entries : List Entry) (item : LuaValue) :
    Except Failure (List Entry) :=
  if ignorezero ∧ isZero conv f.typeId item then .ok entries
  else do
    let made ← value conv db opts nested f item
    return setSlot entries (.string f.name) made

def entry (t : Ty) (entries : List Entry) : Entry → Except Failure (List Entry)
  | (.string name, item) =>
      match t.fname name with
      | none => .ok entries
      | some f =>
          if (db.typeOf f).any (·.isMap) then
            match (db.typeOf f).bind (·.field 1), (db.typeOf f).bind (·.field 2) with
            | some kf, some vf =>
                (entriesOf item).foldlM (mapEntry conv db opts nested f kf vf) entries
            | _, _ => .ok entries
          else if f.repeated then
            let items := elements (entriesOf item) (entriesOf item).length 1
            if f.packed then packed conv db opts nested f entries items
            else items.foldlM (element conv db opts nested f) entries
          else if (db.typeOf f).all fun type => !type.isDead then
            single conv db opts nested f (t.isProto3 && f.oneofIdx == 0) entries item
          else .ok entries
  | _ => .ok entries

def message (t : Ty) (items entries : List Entry) : Except Failure (List Entry) :=
  items.foldlM (entry conv db opts nested t) entries

end Meaning

/-- What a table of the type comes back as, assigned to a table that is already there, with
messages less than `depth` deep. -/
def meaning (conv : Conversions) (db : Database) (opts : Options) :
    Nat → Ty → List Entry → List Entry → Except Failure (List Entry)
  | 0, _, _, _ => .error .stack
  | depth + 1, t, items, entries =>
      Meaning.message conv db opts (meaning conv db opts depth) t items entries

end CrossOver.Lua.Pb
