import CrossOver.Lua.Pb.Integers

/-!
# `lua_pb`: encoding messages

The functions append to a buffer, whose memory is taken to suffice; `pb_addlength` puts the
length of a part in front of it, and the zero values of proto3 are taken off again.

`nested` encodes the messages inside, which are less than `depth` deep.  Only the encoder asks
for more of the Lua stack, and for less than `lpbE_map` takes; both recursions stay in what
is free at the start, four slots for each message that another one is in.
-/

namespace CrossOver.Lua.Pb

open CrossOver.Lib

/-- `v.lnum != 0.0` -/
def isZero (bits : UInt64) : Bool := bits == 0 || bits == 0x8000000000000000

def toboolean : LuaValue → Bool
  | .nil => false
  | .boolean value => value
  | _ => true

def addbytes (s : Bytes) : Bytes := write32 (UInt32.ofNat s.length) ++ s

def addlength (b : Bytes) (len : Nat) : Bytes :=
  b.take len ++ write64 (UInt64.ofNat (b.length - len)) ++ b.drop len

/-- What `lpb_addtype` appends for an integer. -/
def integerBytes (type : FieldType) (v : UInt64) : Bytes :=
  match type with
  | .fixed32 | .sfixed32 => leBytes 4 v.toUInt32.toNat
  | .int32 => write64 (expandsig v.toUInt32)
  | .uint32 => write32 v.toUInt32
  | .sint32 => write32 (encodeSint32 v.toUInt32)
  | .fixed64 | .sfixed64 => leBytes 8 v.toNat
  | .sint64 => write64 (encodeSint64 v)
  | _ => write64 v

def FieldType.isInteger : FieldType → Bool
  | .fixed32 | .sfixed32 | .int32 | .uint32 | .sint32 => true
  | .fixed64 | .sfixed64 | .int64 | .uint64 | .sint64 => true
  | _ => false

/-- `expected` of `lpb_addtype` -/
def FieldType.expected : FieldType → Bytes
  | .bytes | .string => text "string"
  | _ => text "number"

/-- `lpb_addtype`: what is appended, and whether it may be left out; `none` is a value of
another type. -/
def addtype (conv : Conversions) (type : FieldType) (value : LuaValue) :
    Except Failure (Option (Bytes × Bool)) :=
  match type with
  | .bool =>
      let ret := toboolean value
      .ok (some (write32 (if ret then 1 else 0), !ret))
  | .double => .ok ((conv.tonumberx value).map fun v => (leBytes 8 v.toNat, isZero v))
  | .float =>
      .ok ((conv.tonumberx value).map fun v => (leBytes 4 (conv.encodeFloat v).toNat, isZero v))
  | .bytes | .string =>
      match value with
      | .string s => .ok (some (addbytes s, s.isEmpty))
      | _ => .ok none
  | .group | .message | .enum => .error (.luaError (text "unknown type " ++ type.typename))
  | type => do
      let v ← tointegerx conv value
      return v.map fun v => (integerBytes type v, v == 0)

def elements (entries : List Entry) : Nat → Int → List LuaValue
  | 0, _ => []
  | room + 1, i =>
      match rawgeti entries i with
      | .nil => []
      | value => value :: elements entries room (i + 1)

def checktable (f : Field) : LuaValue → Except Failure (List Entry)
  | .table _ _ entries => .ok entries
  | value => .error (.argError 2
      (text "table expected at field '" ++ f.name ++ text "', got " ++ typename value))

namespace Encode

variable (conv : Conversions) (db : Database)
  (nested : Option Ty → List Entry → Bytes → Except Failure Bytes)

def enum (f : Field) (value : LuaValue) (b : Bytes) : Except Failure Bytes :=
  let number := match value with
    | .integer _ | .number _ => some (write64 (conv.toUint64 ((conv.tonumberx value).getD 0)))
    | .string s => ((db.typeOf f).bind (·.fname s)).map fun ev => write32 ev.number.toUInt32
    | _ => none
  match number with
  | some bytes => .ok (b ++ bytes)
  | none =>
      .error (.argError 2 (match value with
        | .string s =>
            text "can not encode unknown enum '" ++ cString s ++ text "' at field '" ++ f.name ++
              text "'"
        | _ => text "number/string expected at field '" ++ f.name ++ text "', got " ++
            typename value))

/-- `lpbE_field`: the buffer, and how much of it may be left out again. -/
def field (f : Field) (value : LuaValue) (b : Bytes) : Except Failure (Bytes × Nat) :=
  match f.typeId with
  | .enum => do
      let b ← enum conv db f value b
      return (b, 0)
  | .message => do
      let entries ← checktable f value
      let inner ← nested (db.typeOf f) entries b
      return (addlength inner b.length, 0)
  | type => do
      match ← addtype conv type value with
      | some (bytes, zero) => return (b ++ bytes, if zero then bytes.length else 0)
      | none =>
          .error (.argError 2 (type.expected ++ text " expected for field '" ++ f.name ++
            text "', got " ++ typename value))

/-- `pb_pair` of the field's number with a wire type, as a tag. -/
def tag (f : Field) (type : WireType) : Bytes := write32 (pair f.number.toUInt32 type)

def tagfield (f : Field) (ignorezero : Bool) (value : LuaValue) (b : Bytes) :
    Except Failure Bytes := do
  let head := tag f f.typeId.wtype
  let (b, ignoredlen) ← field conv db nested f value (b ++ head)
  return if ignoredlen ≠ 0 ∧ ignorezero then b.take (b.length - (ignoredlen + head.length)) else b

/-- One turn of the loop of `lpbE_map`. -/
def mapEntry (f kf vf : Field) (b : Bytes) (entry : Entry) : Except Failure Bytes := do
  let b := b ++ tag f .bytes
  let inner ← tagfield conv db nested kf true entry.1 b
  let inner ← tagfield conv db nested vf true entry.2 inner
  return addlength inner b.length

def map (f : Field) (value : LuaValue) (b : Bytes) : Except Failure Bytes :=
  match (db.typeOf f).bind (·.field 1), (db.typeOf f).bind (·.field 2) with
  | some kf, some vf => do
      let entries ← checktable f value
      entries.foldlM (mapEntry conv db nested f kf vf) b
  | _, _ => .ok b

def repeated (f : Field) (value : LuaValue) (b : Bytes) : Except Failure Bytes := do
  let entries ← checktable f value
  let values := elements entries entries.length 1
  if f.packed then
    let b := b ++ tag f .bytes
    let inner ← values.foldlM (fun inner value => do
      let (inner, _) ← field conv db nested f value inner
      return inner) b
    return addlength inner b.length
  else values.foldlM (fun b value => tagfield conv db nested f false value b) b

/-- One turn of the loop of `lpb_encode`. -/
def entry (t : Ty) (b : Bytes) : Entry → Except Failure Bytes
  | (.string name, value) =>
      match t.fname name with
      | none => .ok b
      | some f =>
          if (db.typeOf f).any (·.isMap) then map conv db nested f value b
          else if f.repeated then repeated conv db nested f value b
          else if (db.typeOf f).all fun type => !type.isDead then
            tagfield conv db nested f (t.isProto3 && f.oneofIdx == 0) value b
          else .ok b
  | _ => .ok b

/-- `lpb_encode` -/
def message (t : Option Ty) (entries : List Entry) (b : Bytes) : Except Failure Bytes :=
  match t with
  | none => .ok b
  | some t => entries.foldlM (entry conv db nested t) b

end Encode

/-- How deep messages may be in each other with so many free slots of the Lua stack. -/
def levels (slots : Nat) : Nat := (slots - 1) / 4

def encode (conv : Conversions) (db : Database) :
    Nat → Option Ty → List Entry → Bytes → Except Failure Bytes
  | 0, _, _, _ => .error .stack
  | depth + 1, t, entries, b => Encode.message conv db (encode conv db depth) t entries b

end CrossOver.Lua.Pb
