import CrossOver.Lua.Pb.Scalars

/-!
# `lua_pb`: the commands

`Lpb_encode` and `Lpb_decode`, and the two that have a command number in front of the message.
-/

namespace CrossOver.Lua.Pb

open CrossOver.Lib

/-- `pb_addfixed32(e.b, cmd)` of `Lpb_encode_cmd` -/
def cmdBytes : Option UInt32 → Bytes
  | none => []
  | some cmd => leBytes 4 cmd.toNat

/-- What the 31 bits of `pb_Buffer.size` count, with room for a zero of proto3 that is taken off
again. -/
def maxBuffer : Nat := 2 ^ 31 - 32

/-- `Lpb_encode` and `Lpb_encode_cmd`, behind the checks of their arguments. -/
def encodeMessage (conv : Conversions) (db : Database) (slots : Nat) (t : Ty)
    (cmd : Option UInt32) (entries : List Entry) : Except Failure Bytes := do
  let b ← encode conv db (levels slots) (some t) entries (cmdBytes cmd)
  if b.length ≤ maxBuffer then return b else .error .full

/-- `lpb_decode`, with the table at `start` if there is one. -/
def decodeMessage (conv : Conversions) (db : Database) (opts : Options) (slots : Nat) (t : Ty)
    (isHaveCmd : Bool) (data : Bytes) (start : Option (List Entry)) :
    Except Failure (List Entry) :=
  let s : Slice := ⟨0, data⟩
  let s := if isHaveCmd then ((readfixed32 s).map (·.2)).getD s else s
  decode conv db opts (levels slots) t s (start.getD (pushtypetable conv db opts t))

variable {conv : Conversions} {db : Database} {t : Ty} {slots : Nat}

theorem encodeMessage_eq_ok {cmd : Option UInt32} {entries : List Entry} {bytes : Bytes} :
    encodeMessage conv db slots t cmd entries = .ok bytes ↔
      encode conv db (levels slots) (some t) entries (cmdBytes cmd) = .ok bytes ∧
        bytes.length ≤ maxBuffer := by
  constructor
  · intro encoded
    rcases bind_eq_ok.mp encoded with ⟨b, written, checked⟩
    split at checked
    case isTrue fits =>
        cases checked
        exact ⟨written, fits⟩
    case isFalse => cases checked
  · rintro ⟨written, fits⟩
    exact bind_eq_ok.mpr ⟨bytes, written, if_pos fits⟩

theorem decodeMessage_cmdBytes (opts : Options) (cmd : Option UInt32) (data : Bytes)
    (start : Option (List Entry)) :
    decodeMessage conv db opts slots t cmd.isSome (cmdBytes cmd ++ data) start =
      decode conv db opts (levels slots) t ⟨(cmdBytes cmd).length, data⟩
        (start.getD (pushtypetable conv db opts t)) := by
  cases cmd with
  | none => rfl
  | some cmd =>
      rw [decodeMessage, Option.isSome_some, if_pos rfl, cmdBytes, readfixed32_leBytes,
        leBytes_length, Nat.zero_add]
      rfl

namespace Sample

def field (name : String) (number : Int32) (typeId : FieldType) : Field where
  name := text name
  number := number
  typeId := typeId
  type := none
  defaultValue := none
  oneofIdx := 0
  repeated := false
  packed := false

/-- A type with a field of every kind. -/
def person : Ty where
  name := text ".Person"
  fields := [field "id" 1 .int32, field "name" 2 .string,
    { field "scores" 3 .sint32 with repeated := true, packed := true },
    { field "tags" 4 .string with repeated := true },
    { field "boss" 5 .message with type := some 0 },
    { field "attrs" 6 .message with type := some 1, repeated := true },
    { field "mood" 7 .enum with type := some 2 }]
  isEnum := false
  isMap := false
  isProto3 := true
  isDead := false

def attrsEntry : Ty where
  name := text ".Person.AttrsEntry"
  fields := [field "key" 1 .string, field "value" 2 .int64]
  isEnum := false
  isMap := true
  isProto3 := true
  isDead := false

def mood : Ty where
  name := text ".Mood"
  fields := [field "GLOOMY" (-1) .enum, field "CALM" 0 .enum, field "GLAD" 1 .enum]
  isEnum := true
  isMap := false
  isProto3 := true
  isDead := false

def database : Database where
  types
    | 0 => person
    | 1 => attrsEntry
    | _ => mood

def options : Options where
  enumAsValue := false
  defaultMode := .nodef
  int64Mode := .number

def int32 (v : UInt64) : LuaValue := pushinteger .number (FieldType.int32.cut v)

def int64 (v : UInt64) : LuaValue := pushinteger .number (FieldType.int64.cut v)

def boss : List Entry := [(.string (text "id"), int32 1)]

/-- A person whose boss is a person. -/
def ann : List Entry :=
  [(.string (text "id"), int32 7),
    (.string (text "boss"), newTable plainConversions boss),
    (.string (text "tags"), newTable plainConversions
      [(.integer (.ofInt 1), .string (text "a")), (.integer (.ofInt 2), .string (text "b"))]),
    (.string (text "attrs"), newTable plainConversions [(.string (text "k"), int64 5)]),
    (.string (text "mood"), .string (text "GLAD"))]

end Sample

end CrossOver.Lua.Pb
