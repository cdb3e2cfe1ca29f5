import CrossOver.Lua.Bson.Decode

/-!
# `lua_bson`: the index of a document

`lmakeindex` walks over the elements of a document and notes where the fields of
a fixed size lie, which `lreplace` overwrites later.  Everything else is passed
over by the length in front of it.
-/

namespace CrossOver.Lua.Bson

open CrossOver.Lib

def bsonTypeShift : Nat := 5

def getLength (data : Bytes) : Int := signed 4 (leValue (data.take 4))

/-- Pass over a value by the length in front of it, which counts all but `behind`
of the bytes behind itself.  No field goes into the index. -/
def passValue (behind : Int) : Decoder Int := do
  let sz ← readInt32
  let rest ← intExpr (sz + behind)
  let _ ← readBytes rest
  return 0

/-- The switch over the element types; the result is `field_size`. -/
def fieldSize (bt : UInt8) : Decoder Int :=
  if bt = bsonInt64 ∨ bt = bsonTimestamp ∨ bt = bsonDate ∨ bt = bsonReal then return 8
  else if bt = bsonBoolean then return 1
  else if bt = bsonJscode ∨ bt = bsonSymbol ∨ bt = bsonString then passValue 0
  else if bt = bsonCodews ∨ bt = bsonArray ∨ bt = bsonDocument then passValue (-4)
  else if bt = bsonBinary then passValue 1
  else if bt = bsonObjectid then return 12
  else if bt = bsonMinkey ∨ bt = bsonMaxkey ∨ bt = bsonNull then return 0
  else if bt = bsonRegex then do
    let _ ← readCstring
    let _ ← readCstring
    return 0
  else if bt = bsonInt32 then return 4
  else if bt = bsonDbpointer then passValue 12
  else readError s!"Invalid bson type : {bt.toNat}"

/-- The type and the offset of a field in one integer.  A reader that has passed the
name of an element stands behind the start; the shift drops what leaves the type. -/
def fieldId (bt : UInt8) (offset : Int) : LuaInteger :=
  LuaInteger.ofInt (int32Of ((bt.toNat ||| offset.toNat <<< bsonTypeShift : Nat) : Int))

/-- One turn of the loop, with the entry it makes. -/
def indexElement : Decoder (Option Entry) := do
  let bt ← readByte
  let key ← readCstring
  let size ← fieldSize bt
  if 0 < size then do
    let br ← get
    let _ ← readBytes size
    return some (.string key, .integer (fieldId bt br.ptr))
  else return none

def storeField (entries : List Entry) : Option Entry → List Entry
  | some (key, id) => setSlot entries key id
  | none => entries

def indexElements : Nat → List Entry → Decoder (List Entry)
  | 0, _ => throw .outOfFuel
  | fuel + 1, entries => do
      let br ← get
      if br.size = 0 then return entries
      else do
        let field ← indexElement
        indexElements fuel (storeField entries field)

/-- The entries of the table that becomes the user value of the document. -/
def lmakeindex (fuel : Nat) (memory : Bytes) : Except Failure (List Entry) :=
  if memory.length < 4 then .error .outOfBounds
  else do
    let (size, start) ← intExpr (getLength memory - 5) { memory := memory, ptr := 4, size := 0 }
    let (entries, _) ← indexElements fuel [] { start with size := size }
    return entries

end CrossOver.Lua.Bson
