import CrossOver.Lib.Consuming
import CrossOver.Lua.Pb.Encode

/-!
# `lua_pb`: decoding messages

A message is a loop over tags that ends where no tag can be read; fields the type does not
have are skipped, as far as `pb_skipvalue` gets.  A table on the Lua stack is the list of
its entries, and every table is a new one.

`nested` decodes the messages inside, which are less than `depth` deep.  Nothing here asks for
more of the Lua stack: `lpbD_map` has four slots of it in use when it enters a message, and
the innermost message takes a fifth.
-/

namespace CrossOver.Lua.Pb

open CrossOver.Lib

/-- `luaL_error` with an offset at the end. -/
def offsetError {Result : Type} (message : String) (s : Slice) : Except Failure Result :=
  .error (.luaError (text message ++ decimal (s.pos + 1)))

/-- `PB_MAX_SIZET` -/
def maxSizet : Nat := 2 ^ 32 - 101

/-- `lpb_readbytes` -/
def lpbReadbytes (s : Slice) : Except Failure (Slice × Slice) := do
  let refused (len : Int) (s : Slice) := Except.error (ε := Failure) (.luaError
    (text "invalid bytes length: " ++ decimal len ++ text " (at offset " ++
      decimal (s.pos + 1) ++ text ")"))
  match ← readvarint64 s with
  | none => refused 0 s
  | some (len, t) =>
      if len.toNat > maxSizet then refused (len.toUInt32.toInt32.toInt) t
      else
        match readslice t len.toNat with
        | some found => return found
        | none => .error (.luaError (text "un-finished bytes (len " ++
            decimal len.toUInt32.toInt32.toInt ++ text " at offset " ++ decimal (t.pos + 1) ++
            text ")"))

def lowInteger (width : Nat) (isSigned : Bool) (v : Nat) : LuaInteger :=
  .ofInt (if isSigned then Int.bmod v (2 ^ width) else v % 2 ^ width)

/-- What `lpb_readtype` makes of the number on the wire, for the types that are integers. -/
def readInteger (type : FieldType) (v : UInt64) : LuaInteger :=
  match type with
  | .int32 | .sfixed32 => lowInteger 32 true v.toNat
  | .uint32 | .fixed32 => lowInteger 32 false v.toNat
  | .sint32 => lowInteger 32 true (decodeSint32 v.toUInt32).toNat
  | .sint64 => lowInteger 64 true (decodeSint64 v).toNat
  | _ => lowInteger 64 true v.toNat

def readtype (conv : Conversions) (opts : Options) (type : FieldType) (s : Slice) :
    Except Failure (LuaValue × Slice) :=
  match type with
  | .bool | .enum | .int32 | .uint32 | .sint32 | .int64 | .uint64 | .sint64 => do
      match ← readvarint64 s with
      | none => offsetError "invalid varint value at offset " s
      | some (v, t) =>
          return (if type = .bool then .boolean (v != 0)
            else pushinteger opts.int64Mode (readInteger type v), t)
  | .float | .fixed32 | .sfixed32 =>
      match readfixed32 s with
      | none => offsetError "invalid fixed32 value at offset " s
      | some (v, t) =>
          .ok (if type = .float then .number (conv.decodeFloat v)
            else pushinteger opts.int64Mode (readInteger type v.toUInt64), t)
  | .double | .fixed64 | .sfixed64 =>
      match readfixed64 s with
      | none => offsetError "invalid fixed64 value at offset " s
      | some (v, t) =>
          .ok (if type = .double then .number v
            else pushinteger opts.int64Mode (readInteger type v), t)
  | .bytes | .string | .message => do
      let (sv, t) ← lpbReadbytes s
      return (.string sv.data, t)
  | .group =>
      .error (.luaError (text "unknown type " ++ type.typename ++ text " (10)"))

/-- The field of a table with a string key. -/
def getfield (entries : List Entry) (name : Bytes) : LuaValue :=
  match entries with
  | [] => .nil
  | (.string key, value) :: rest => if key = name then value else getfield rest name
  | _ :: rest => getfield rest name

def newTable (conv : Conversions) (entries : List Entry) : LuaValue :=
  .table none (conv.rawlen entries) entries

/-- `lua_rawset` with the errors of the key. -/
def rawsetKey (entries : List Entry) (key value : LuaValue) : Except Failure (List Entry) :=
  match rawset entries key value with
  | .ok stored => .ok stored
  | .error message => .error (.luaError (text message))

def pushdefault (conv : Conversions) (db : Database) (opts : Options) (f : Field)
    (isProto3 : Bool) : Option LuaValue :=
  if isProto3 ∧ f.repeated then some (newTable conv [])
  else
    match f.typeId with
    | .bytes | .string =>
        match f.defaultValue with
        | some value => some (.string value)
        | none => if isProto3 then some (.string []) else none
    | .enum =>
        match db.typeOf f with
        | none => none
        | some type =>
            match f.defaultValue.bind type.fname with
            | some ev =>
                if opts.enumAsValue then
                  some (pushinteger opts.int64Mode (.ofInt ev.number.toInt))
                else some (.string ev.name)
            | none =>
                if isProto3 then
                  match type.field 0 with
                  | some ev => if opts.enumAsValue then some (.integer (.ofInt 0))
                      else some (.string ev.name)
                  | none => some (.integer (.ofInt 0))
                else none
    | .message => none
    | .bool =>
        match f.defaultValue with
        | some value =>
            if value = text "true" then some (.boolean true)
            else if value = text "false" then some (.boolean false)
            else none
        | none => if isProto3 then some (.boolean false) else none
    | .double | .float =>
        match f.defaultValue with
        | some value => (conv.strtod value).map .number
        | none => if isProto3 then some (.number 0) else none
    | _ =>
        match f.defaultValue with
        | some value => (conv.strtol value).map (pushinteger opts.int64Mode)
        | none => if isProto3 then some (.integer (.ofInt 0)) else none

/-- `t->is_proto3 && mode == LPB_DEFDEF ? LPB_COPYDEF : mode` is `LPB_COPYDEF`. -/
def copiesDefaults (opts : Options) (t : Ty) : Bool :=
  match opts.defaultMode with
  | .defdef => t.isProto3
  | .copydef => true
  | .nodef => false

def setDefault (conv : Conversions) (db : Database) (opts : Options) (isProto3 : Bool)
    (entries : List Entry) (f : Field) : List Entry :=
  if f.oneofIdx = 0 then
    match pushdefault conv db opts f isProto3 with
    | some value => setSlot entries (.string f.name) value
    | none => entries
  else entries

def pushtypetable (conv : Conversions) (db : Database) (opts : Options) (t : Ty) : List Entry :=
  if copiesDefaults opts t then t.fields.foldl (setDefault conv db opts t.isProto3) [] else []

namespace Decode

variable (conv : Conversions) (db : Database) (opts : Options)
  (nested : Ty → Slice → List Entry → Except Failure (List Entry))

def rawfield (f : Field) (s : Slice) : Except Failure (LuaValue × Slice) :=
  match f.typeId with
  | .enum => do
      match ← readvarint64 s with
      | none => offsetError "invalid varint value at offset " s
      | some (v, t) =>
          let ev := if opts.enumAsValue then none
            else (db.typeOf f).bind (·.field v.toUInt32.toInt32)
          return (match ev with
            | some ev => .string ev.name
            | none => pushinteger opts.int64Mode (signed64 v), t)
  | .message => do
      let (sv, t) ← lpbReadbytes s
      match db.typeOf f with
      | none => return (.nil, t)
      | some type =>
          if type.isDead then return (.nil, t)
          else
            let entries ← nested type sv (pushtypetable conv db opts type)
            return (newTable conv entries, t)
  | type => readtype conv opts type s

def field (f : Field) (tag : UInt32) (s : Slice) : Except Failure (LuaValue × Slice) :=
  if f.typeId.wtype = gettype tag then rawfield conv db opts nested f s
  else .error (.luaError (text "type mismatch for " ++
    (if f.packed then text "packed " else []) ++ (if f.repeated then text "repeated " else []) ++
    text "field '" ++ f.name ++ text "' at offset " ++ decimal (s.pos + 1) ++ text ", " ++
    wtypename f.typeId.wtype ++ text " expected for type " ++ f.typeId.typename ++
    text ", got " ++ wtypename (gettype tag)))

/-- `lpb_fetchtable`; no metatable is looked at. -/
def fetchtable (f : Field) (entries : List Entry) : Except Failure (List Entry) :=
  match getfield entries f.name with
  | .nil => .ok []
  | .table _ _ inner => .ok inner
  | _ => .error .notTable

/-- The key and the value of a map entry, as far as they have been read. -/
abbrev MapState := Option LuaValue × Option LuaValue

/-- One turn of the loop of `lpbD_map`. -/
def mapTurn (type : Ty) (p : Slice) (state : MapState) :
    Except Failure (Option (MapState × Slice)) := do
  match ← readvarint32 p with
  | none => return none
  | some (tag, t) =>
      if gettag tag = 1 then
        match type.field 1 with
        | none => .error .outside
        | some kf => do
            let (value, rest) ← field conv db opts nested kf tag t
            return some ((some value, state.2), rest)
      else if gettag tag = 2 then
        match type.field 2 with
        | none => .error .outside
        | some vf => do
            let (value, rest) ← field conv db opts nested vf tag t
            return some ((state.1, some value), rest)
      else return some (state, t)

def sliceSize (s : Slice) : Nat := s.data.length

def mapDefault (type : Ty) (number : Int32) : Option LuaValue :=
  (type.field number).bind fun f => pushdefault conv db opts f true

/-- `if (mask == 3) lua_rawset(L, -3)` -/
def assign (inner : List Entry) : Option LuaValue → Option LuaValue → Except Failure (List Entry)
  | some key, some value => rawsetKey inner key value
  | _, _ => .ok inner

def map (f : Field) (type : Ty) (entries : List Entry) (s : Slice) :
    Except Failure (List Entry × Slice) := do
  let inner ← fetchtable f entries
  let (p, t) ← lpbReadbytes s
  let (key, value) ← consume .fuel sliceSize (mapTurn conv db opts nested type) p (none, none)
  let inner ← assign inner (key.or (mapDefault conv db opts type 1))
    (value.or (mapDefault conv db opts type 2))
  return (setSlot entries (.string f.name) (newTable conv inner), t)

/-- One turn of the loop of `lpbD_repeated` over a packed field, with the length so far. -/
def packedTurn (f : Field) (p : Slice) (state : List Entry × Nat) :
    Except Failure (Option ((List Entry × Nat) × Slice)) :=
  if p.data = [] then .ok none
  else do
    let (value, rest) ← rawfield conv db opts nested f p
    return some ((setSlot state.1 (.integer (.ofInt (state.2 + 1))) value, state.2 + 1), rest)

def repeated (f : Field) (entries : List Entry) (tag : UInt32) (s : Slice) :
    Except Failure (List Entry × Slice) := do
  let inner ← fetchtable f entries
  if gettype tag ≠ .bytes ∨ (!f.packed ∧ f.typeId.wtype = .bytes) then
    let (value, t) ← field conv db opts nested f tag s
    let inner := setSlot inner (.integer (.ofInt (conv.rawlen inner + 1))) value
    return (setSlot entries (.string f.name) (newTable conv inner), t)
  else
    let (p, t) ← lpbReadbytes s
    let (inner, _) ← consume .fuel sliceSize (packedTurn conv db opts nested f) p
      (inner, conv.rawlen inner)
    return (setSlot entries (.string f.name) (newTable conv inner), t)

/-- One turn of the loop of `lpbD_message`. -/
def turn (t : Ty) (s : Slice) (entries : List Entry) :
    Except Failure (Option (List Entry × Slice)) := do
  match ← readvarint32 s with
  | none => return none
  | some (tag, u) =>
      match t.field (gettag tag).toInt32 with
      | none => do
          let after ← skipvalue (2 * u.data.length + 2) u tag
          return some (entries, after.getD u)
      | some f =>
          match (db.typeOf f).filter (·.isMap) with
          | some type => do
              let found ← map conv db opts nested f type entries u
              return some found
          | none =>
              if f.repeated then do
                let found ← repeated conv db opts nested f entries tag u
                return some found
              else do
                let (value, rest) ← field conv db opts nested f tag u
                return some (setSlot entries (.string f.name) value, rest)

def message (t : Ty) (s : Slice) (entries : List Entry) : Except Failure (List Entry) :=
  consume .fuel sliceSize (turn conv db opts nested t) s entries

end Decode

/-- `lpbD_message`, with the messages inside. -/
def decode (conv : Conversions) (db : Database) (opts : Options) :
    Nat → Ty → Slice → List Entry → Except Failure (List Entry)
  | 0, _, _, _ => .error .stack
  | depth + 1, t, s, entries => Decode.message conv db opts (decode conv db opts depth) t s entries

end CrossOver.Lua.Pb
