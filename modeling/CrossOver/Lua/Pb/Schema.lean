import CrossOver.Lua.Pb.Wire
import CrossOver.Lua.Value

/-!
# `lua_pb`: types and fields

A field points to its type by an index into the database.  The fields of a type are
listed in the order of `pb_nextfield`; names are C strings.
-/

namespace CrossOver.Lua.Pb

open CrossOver.Lib

/-- The characters of a message. -/
def text (characters : String) : Bytes := characters.toUTF8.toList

/-- The characters of a string up to a zero byte, all that a loop over them or `%s` sees. -/
def cString (s : Bytes) : Bytes := s.takeWhile fun ch => ch != 0

def decimal (value : Int) : Bytes := text (toString value)

inductive FieldType where
  | double | float | int64 | uint64 | int32 | fixed64 | fixed32 | bool | string | group
  | message | bytes | uint32 | enum | sfixed32 | sfixed64 | sint32 | sint64
  deriving DecidableEq, Repr

/-- `pb_wtypebytype` -/
def FieldType.wtype : FieldType → WireType
  | .double => .bit64
  | .float => .bit32
  | .int64 => .varint
  | .uint64 => .varint
  | .int32 => .varint
  | .fixed64 => .bit64
  | .fixed32 => .bit32
  | .bool => .varint
  | .string => .bytes
  | .group => .count
  | .message => .bytes
  | .bytes => .bytes
  | .uint32 => .varint
  | .enum => .varint
  | .sfixed32 => .bit32
  | .sfixed64 => .bit64
  | .sint32 => .varint
  | .sint64 => .varint

def FieldType.typename : FieldType → Bytes
  | .double => text "double"
  | .float => text "float"
  | .int64 => text "int64"
  | .uint64 => text "uint64"
  | .int32 => text "int32"
  | .fixed64 => text "fixed64"
  | .fixed32 => text "fixed32"
  | .bool => text "bool"
  | .string => text "string"
  | .group => text "group"
  | .message => text "message"
  | .bytes => text "bytes"
  | .uint32 => text "uint32"
  | .enum => text "enum"
  | .sfixed32 => text "sfixed32"
  | .sfixed64 => text "sfixed64"
  | .sint32 => text "sint32"
  | .sint64 => text "sint64"

def wtypename : WireType → Bytes
  | .varint => text "varint"
  | .bit64 => text "64bit"
  | .bytes => text "bytes"
  | .gstart => text "gstart"
  | .gend => text "gend"
  | .bit32 => text "32bit"
  | .count => text "<unknown>"
  | .seven => text "<unknown>"

structure Field where
  name : Bytes
  number : Int32
  typeId : FieldType
  /-- `type`, of messages and enumerations -/
  type : Option Nat
  defaultValue : Option Bytes
  oneofIdx : Nat
  repeated : Bool
  packed : Bool
  deriving DecidableEq, Repr

/-- `pb_Type` -/
structure Ty where
  name : Bytes
  fields : List Field
  isEnum : Bool
  isMap : Bool
  isProto3 : Bool
  isDead : Bool

def Ty.field (t : Ty) (number : Int32) : Option Field := t.fields.find? (·.number = number)

def Ty.fname (t : Ty) (name : Bytes) : Option Field := t.fields.find? (·.name = name)

theorem Ty.field_mem {t : Ty} {number : Int32} {f : Field} (found : t.field number = some f) :
    f ∈ t.fields ∧ f.number = number :=
  ⟨List.mem_of_find?_eq_some found, by simpa using List.find?_some found⟩

theorem Ty.fname_mem {t : Ty} {name : Bytes} {f : Field} (found : t.fname name = some f) :
    f ∈ t.fields ∧ f.name = name :=
  ⟨List.mem_of_find?_eq_some found, by simpa using List.find?_some found⟩

/-- The types of a state. -/
structure Database where
  types : Nat → Ty

/-- What `f->type` points to. -/
def Database.typeOf (db : Database) (f : Field) : Option Ty := f.type.map db.types

inductive Int64Mode where
  | number
  | string
  | hexstring
  deriving DecidableEq, Repr

inductive DefMode where
  | defdef
  | copydef
  | nodef
  deriving DecidableEq, Repr

/-- The options of `lpb_State`, without hooks and default metatables. -/
structure Options where
  enumAsValue : Bool
  defaultMode : DefMode
  int64Mode : Int64Mode

structure Conversions where
  /-- `lua_tointegerx` -/
  tointegerx : LuaValue → Option LuaInteger
  /-- `lua_tonumberx` -/
  tonumberx : LuaValue → Option UInt64
  /-- `lua_tostring` -/
  tostring : LuaValue → Option Bytes
  /-- `(uint64_t)` of a double -/
  toUint64 : UInt64 → UInt64
  /-- `pb_encode_float((float)v)` -/
  encodeFloat : UInt64 → UInt32
  /-- `(lua_Number)pb_decode_float(v)` -/
  decodeFloat : UInt32 → UInt64
  /-- `strtod`, if it gets anywhere -/
  strtod : Bytes → Option UInt64
  /-- `strtol` in base 10, if it gets anywhere -/
  strtol : Bytes → Option LuaInteger
  /-- `lua_rawlen` -/
  rawlen : List Entry → Nat

def signed64 (n : UInt64) : LuaInteger := LuaInteger.ofInt n.toNat

def expandsig (n : UInt32) : UInt64 := (n.toUInt64 ^^^ 0x80000000) - 0x80000000

def encodeSint32 (n : UInt32) : UInt32 :=
  n <<< 1 ^^^ (if n.toNat < 2 ^ 31 then 0 else 0xFFFFFFFF)

def decodeSint32 (n : UInt32) : UInt32 := n >>> 1 ^^^ (0 - (n &&& 1))

def encodeSint64 (n : UInt64) : UInt64 :=
  n <<< 1 ^^^ (if n.toNat < 2 ^ 63 then 0 else 0xFFFFFFFFFFFFFFFF)

def decodeSint64 (n : UInt64) : UInt64 := n >>> 1 ^^^ (0 - (n &&& 1))

def typename : LuaValue → Bytes
  | .nil => text "nil"
  | .boolean _ => text "boolean"
  | .integer _ => text "number"
  | .number _ => text "number"
  | .string _ => text "string"
  | .lightuserdata _ => text "userdata"
  | .table .. => text "table"
  | .unsupported name => text name

end CrossOver.Lua.Pb
