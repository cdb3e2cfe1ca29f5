import CrossOver.Lua.Bson.Encode

/-!
# `lua_bson`: decoding documents

A `bson_reader` is a position in memory and the number of bytes it may still
read.  Sizes in a document are signed and only compared with that number, so a
negative one moves the position back; a read that leaves the memory is a failure
of its own.

`fuel` bounds the nesting and the number of elements of each document.
-/

namespace CrossOver.Lua.Bson

open CrossOver.Lib

structure Reader where
  memory : Bytes
  ptr : Int
  size : Int
  deriving DecidableEq, Repr

abbrev Decoder := StateT Reader (Except Failure)

def readError {Result : Type} (message : String) : Decoder Result :=
  throw (.luaError message)

/-- The value of an `int` expression, which must not leave its type. -/
def intExpr (value : Int) : Decoder Int :=
  if -2 ^ 31 ≤ value ∧ value < 2 ^ 31 then pure value else throw .overflow

def bytesAt (ptr : Int) (sz : Nat) : Decoder Bytes := do
  let br ← get
  if 0 ≤ ptr ∧ ptr + sz ≤ br.memory.length then return (br.memory.drop ptr.toNat).take sz
  else throw .outOfBounds

def checkReader (sz : Int) : Decoder Unit := do
  let br ← get
  if br.size < sz then readError s!"Invalid bson block ({br.size}:{sz})"
  else pure ()

def advance (sz : Int) : Decoder Unit := do
  let br ← get
  let size ← intExpr (br.size - sz)
  set { br with ptr := br.ptr + sz, size := size }

def readWord (width : Nat) : Decoder Nat := do
  checkReader width
  let br ← get
  let bytes ← bytesAt br.ptr width
  advance width
  return leValue bytes

def readByte : Decoder UInt8 := do
  let value ← readWord 1
  return UInt8.ofNat value

def readInt32 : Decoder Int := do
  let value ← readWord 4
  return signed 4 value

def readInt64 : Decoder Int := do
  let value ← readWord 8
  return signed 8 value

def readDouble : Decoder UInt64 := do
  let value ← readWord 8
  return UInt64.ofNat value

/-- The position of the next `sz` bytes, which are not looked at yet. -/
def readBytes (sz : Int) : Decoder Int := do
  let br ← get
  checkReader sz
  advance sz
  return br.ptr

/-- The search for the zero byte, which stops at a size that has come down to zero. -/
def scanCstring : Bytes → Int → Except Failure Bytes
  | [], size => if size = 0 then .error (.luaError "Invalid bson block : cstring")
      else .error .outOfBounds
  | byte :: rest, size =>
      if size = 0 then .error (.luaError "Invalid bson block : cstring")
      else if byte = 0 then .ok []
      else do
        let tail ← scanCstring rest (size - 1)
        return byte :: tail

def readCstring : Decoder Bytes := do
  let br ← get
  if br.size ≠ 0 ∧ br.ptr < 0 then throw .outOfBounds
  else do
    let str ← (scanCstring (br.memory.drop br.ptr.toNat) br.size : Except Failure Bytes)
    advance (str.length + 1)
    return str

/-- `luaL_addlstring` to a buffer that holds `held` bytes.  A negative size is a
huge one, and the sum of both may wrap to a small one. -/
def addlstring (held : Nat) (ptr sz : Int) : Decoder Bytes :=
  if 0 ≤ sz then bytesAt ptr sz.toNat
  else if 0 ≤ held + sz then readError "buffer too large"
  else readError "not enough memory for buffer allocation"

def makeObject (type : UInt8) (ptr len : Int) : Decoder LuaValue := do
  let bytes ← addlstring 2 ptr len
  return .string ([0, type] ++ bytes)

def isSpace (byte : UInt8) : Bool := byte = 32 || (9 ≤ byte && byte ≤ 13)

def isDigit (byte : UInt8) : Bool := 48 ≤ byte && byte ≤ 57

def digitsValue (bytes : Bytes) : Nat :=
  (bytes.takeWhile isDigit).foldl (fun value digit => value * 10 + (digit.toNat - 48)) 0

def strtol (bytes : Bytes) : Int :=
  match bytes.dropWhile isSpace with
  | 45 :: rest => max (-2 ^ 63) (-(digitsValue rest : Int))
  | 43 :: rest => min (2 ^ 63 - 1) (digitsValue rest)
  | rest => min (2 ^ 63 - 1) (digitsValue rest)

def elementIndex (key : Bytes) : LuaInteger := LuaInteger.ofInt (int32Of (strtol key + 1))

def elementKey (array : Bool) (key : Bytes) : LuaValue :=
  if array then .integer (elementIndex key) else .string key

def readString : Decoder LuaValue := do
  let sz ← readInt32
  if sz ≤ 0 then readError s!"Invalid bson string , length = {sz}"
  else do
    let ptr ← readBytes sz
    let bytes ← bytesAt ptr (sz - 1).toNat
    return .string bytes

def readBinary : Decoder LuaValue := do
  let sz ← readInt32
  let subtype ← readByte
  let ptr ← readBytes sz
  let bytes ← addlstring 3 ptr sz
  return .string ([0, bsonBinary, subtype] ++ bytes)

def readObjectid : Decoder LuaValue := do
  let ptr ← readBytes 12
  makeObject bsonObjectid ptr 12

/-- The division truncates towards zero and the quotient is cut to 32 bits. -/
def readDate : Decoder LuaValue := do
  let date ← readInt64
  return .string ([0, bsonDate] ++ intBytes 4 (date.tdiv 1000))

def readRegex : Decoder LuaValue := do
  let r1 ← readCstring
  let r2 ← readCstring
  return .string ([0, bsonRegex] ++ r1 ++ [0] ++ r2 ++ [0])

def readTimestamp : Decoder LuaValue := do
  let inc ← readInt32
  let ts ← readInt32
  return .string ([0, bsonTimestamp] ++ intBytes 4 inc ++ intBytes 4 ts)

/-- A value kept with its own length in front; `behind` is how far the bytes it
covers reach past that length, and `whole` what the copy adds to it. -/
def readRaw (type : UInt8) (behind whole : Int) : Decoder LuaValue := do
  let t ← get
  let sz ← readInt32
  let rest ← intExpr (sz + behind)
  let _ ← readBytes rest
  let len ← intExpr (sz + whole)
  makeObject type t.ptr len

section Nested

variable (unpackDict : Bool → Decoder LuaValue)

/-- The switch over the element types. -/
def readValue (bt : UInt8) : Decoder LuaValue :=
  if bt = bsonReal then do
    let bits ← readDouble
    return .number bits
  else if bt = bsonBoolean then do
    let value ← readByte
    return .boolean (value != 0)
  else if bt = bsonString then readString
  else if bt = bsonDocument then unpackDict false
  else if bt = bsonArray then unpackDict true
  else if bt = bsonBinary then readBinary
  else if bt = bsonObjectid then readObjectid
  else if bt = bsonDate then readDate
  else if bt = bsonMinkey ∨ bt = bsonMaxkey ∨ bt = bsonNull then return .string [0, bt]
  else if bt = bsonRegex then readRegex
  else if bt = bsonInt32 then do
    let value ← readInt32
    return .integer (LuaInteger.ofInt value)
  else if bt = bsonTimestamp then readTimestamp
  else if bt = bsonInt64 then do
    let value ← readInt64
    return .integer (LuaInteger.ofInt value)
  else if bt = bsonDbpointer then readRaw bsonDbpointer 12 16
  else if bt = bsonJscode ∨ bt = bsonSymbol then readRaw bt 0 4
  else if bt = bsonCodews then readRaw bt (-4) 0
  else readError s!"Invalid bson type : {bt.toNat}"

def readElement (array : Bool) : Decoder Entry := do
  let bt ← readByte
  let key ← readCstring
  let value ← readValue unpackDict bt
  return (elementKey array key, value)

/-- The loop over the elements, which ends where the size is exactly zero. -/
def readElements (array : Bool) : Nat → List Entry → Decoder (List Entry)
  | 0, _ => throw .outOfFuel
  | fuel + 1, entries => do
      let t ← get
      if t.size = 0 then return entries
      else do
        let (key, value) ← readElement unpackDict array
        readElements array fuel (setSlot entries key value)

end Nested

def unpackDict (rt : Runtime) : Nat → Bool → Decoder LuaValue
  | 0, _ => throw .outOfFuel
  | fuel + 1, array => do
      let sz ← readInt32
      let inner ← intExpr (sz - 5)
      let ptr ← readBytes inner
      let last ← readByte
      if last ≠ 0 then readError "Invalid document end"
      else do
        let br ← get
        let (entries, _) ← (readElements (unpackDict rt fuel) array fuel []
          { br with ptr := ptr, size := inner } : Except Failure (List Entry × Reader))
        return .table none (rt.rawlen entries) entries

/-- `bson.decode` of a userdata; anything else is a null pointer. -/
def ldecode (rt : Runtime) (fuel : Nat) : Option Bytes → Except Failure (Option LuaValue)
  | none => .ok none
  | some memory =>
      if memory.length < 4 then .error .outOfBounds
      else do
        let len := signed 4 (leValue (memory.take 4))
        let (value, _) ← unpackDict rt fuel false { memory := memory, ptr := 0, size := len }
        return some value

end CrossOver.Lua.Bson
