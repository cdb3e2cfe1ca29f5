import CrossOver.Lua.Bson.Buffer

/-!
# `lua_bson`: encoding tables

Values are written by `append_one`, tables by `pack_dict`, which call each other.
The model passes the nested `pack_dict` as a parameter and recurses on the levels
that are left of `MAX_DEPTH`.

`Runtime` holds what the encoder and the decoder take from the Lua runtime and
the value model leaves open.
-/

namespace CrossOver.Lua.Bson

open CrossOver.Lib

structure Runtime where
  /-- the text `lua_tolstring` gives for a float -/
  formatNumber : UInt64 → Bytes
  /-- the memory behind a full userdata -/
  userdata : LuaValue → Bytes
  /-- what `lua_rawlen` returns for a table built by the decoder -/
  rawlen : List Entry → Nat

def maxNumber : Nat := 1024
def maxDepth : Nat := 128

def bsonReal : UInt8 := 1
def bsonString : UInt8 := 2
def bsonDocument : UInt8 := 3
def bsonArray : UInt8 := 4
def bsonBinary : UInt8 := 5
def bsonObjectid : UInt8 := 7
def bsonBoolean : UInt8 := 8
def bsonDate : UInt8 := 9
def bsonNull : UInt8 := 10
def bsonRegex : UInt8 := 11
def bsonDbpointer : UInt8 := 12
def bsonJscode : UInt8 := 13
def bsonSymbol : UInt8 := 14
def bsonCodews : UInt8 := 15
def bsonInt32 : UInt8 := 16
def bsonTimestamp : UInt8 := 17
def bsonInt64 : UInt8 := 18
def bsonMinkey : UInt8 := 255
def bsonMaxkey : UInt8 := 127

def luaError {Result : Type} (message : String) : Writer Result :=
  throw (.luaError message)

def typename : LuaValue → String
  | .nil => "nil"
  | .boolean _ => "boolean"
  | .integer _ => "number"
  | .number _ => "number"
  | .string _ => "string"
  | .lightuserdata _ => "userdata"
  | .table _ _ _ => "table"
  | .unsupported name => name

/-- The bytes up to the first zero byte, as `%s` prints them. -/
def cstringText (bytes : Bytes) : String :=
  String.ofList ((bytes.takeWhile (· ≠ 0)).map fun byte => Char.ofNat byte.toNat)

def decimal (n : Nat) : Bytes := (Nat.toDigits 10 n).map fun digit => UInt8.ofNat digit.toNat

def integerText (value : Int) : Bytes :=
  if value < 0 then 45 :: decimal value.natAbs else decimal value.natAbs

def appendKey (type : UInt8) (key : Bytes) : Writer Unit := do
  writeByte type
  writeString key

def is32bit (v : Int) : Bool := -2 ^ 31 ≤ v && v ≤ 2 ^ 31 - 1

def appendInteger (key : Bytes) (i : LuaInteger) : Writer Unit :=
  if is32bit i.value then do
    appendKey bsonInt32 key
    writeInt32 i.value
  else do
    appendKey bsonInt64 key
    writeInt64 i.value

def appendReal (key : Bytes) (bits : UInt64) : Writer Unit := do
  appendKey bsonReal key
  writeDouble bits

def writeBinary (buffer : Bytes) : Writer Unit := do
  let length ← reserveLength
  append buffer
  writeLength (buffer.length - 1) length

/-- The backward search for the zero byte in front of the options of a regex. -/
def optionsLength (str : Bytes) : Nat := (str.reverse.takeWhile (· ≠ 0)).length

/-- A regex of one byte or without a zero byte inside makes the lengths wrap. -/
def writeRegex (str : Bytes) : Writer Unit :=
  if str.length = 0 then throw .outOfBounds
  else
    let searched := str.take (str.length - 1)
    let i := optionsLength searched
    if i = searched.length then throw .outOfBounds
    else do
      writeString (searched.take (searched.length - i - 1))
      writeString (searched.drop (searched.length - i))

/-- A string that starts with a zero byte and the type of its content. -/
def appendSpecial (key : Bytes) (subt : UInt8) (str : Bytes) : Writer Unit := do
  appendKey subt key
  if subt = bsonBinary then writeBinary str
  else if subt = bsonObjectid then
    if str.length ≠ 12 then luaError s!"Invalid object id {cstringText str}"
    else append str
  else if subt = bsonJscode ∨ subt = bsonDbpointer ∨ subt = bsonSymbol ∨ subt = bsonCodews then
    append str
  else if subt = bsonDate then
    if str.length ≠ 4 then luaError "Invalid date"
    else writeInt64 (leValue str * 1000)
  else if subt = bsonTimestamp then
    if str.length ≠ 8 then luaError "Invalid timestamp"
    else do
      writeInt32 (leValue (str.take 4))
      writeInt32 (leValue (str.drop 4))
  else if subt = bsonRegex then writeRegex str
  else if subt = bsonMinkey ∨ subt = bsonMaxkey ∨ subt = bsonNull then pure ()
  else luaError s!"Invalid subtype {subt.toNat}"

def appendPlain (key str : Bytes) : Writer Unit := do
  appendKey bsonString key
  let off ← reserveLength
  writeString str
  writeLength (str.length + 1) off

def appendString (key : Bytes) : Bytes → Writer Unit
  | 0 :: subt :: str => appendSpecial key subt str
  | str => appendPlain key str

def appendUserdata (key block : Bytes) : Writer Unit := do
  appendKey bsonDocument key
  let sz := signed 4 (leValue (block.take 4))
  if sz < 0 ∨ block.length < 4 ∨ (block.length : Int) < sz then throw .outOfBounds
  else append (block.take sz.toNat)

/-- The entries that `lua_next` still visits after a key. -/
def entriesAfter (key : LuaValue) : List Entry → Option (List Entry)
  | [] => none
  | entry :: rest => if LuaValue.rawEqual key entry.1 then some rest else entriesAfter key rest

/-- The table ends, in the order of `lua_next`, with its last array element. -/
def isArray (border : Nat) (entries : List Entry) : Except Failure Bool :=
  if border = 0 then .ok false
  else
    match entriesAfter (.integer (LuaInteger.ofInt border)) entries with
    | none => .error (.luaError "invalid key to 'next'")
    | some rest => .ok rest.isEmpty

/-- The table of number strings is static and nothing ever fills it in. -/
def bsonNumstr (i : Nat) : Bytes := if i < maxNumber then [] else decimal i

def toInteger : LuaValue → Int
  | .integer i => i.value
  | .number bits => ((floatToInteger bits).map LuaInteger.value).getD 0
  | _ => 0

/-- The name of an array element; the index is computed as an `unsigned int`. -/
def arrayKey (key : LuaValue) : Bytes := bsonNumstr ((toInteger key - 1) % 2 ^ 32).toNat

section Nested

variable (rt : Runtime) (packDict : Bool → Option (List Entry) → List Entry → Writer Unit)

def appendTable (key : Bytes) (metapairs : Option (List Entry)) (border : Nat)
    (entries : List Entry) : Writer Unit := do
  let isarray ← (isArray border entries : Except Failure Bool)
  if isarray then appendKey bsonArray key else appendKey bsonDocument key
  packDict isarray metapairs entries

def appendOne (key : Bytes) : LuaValue → Writer Unit
  | .integer i => appendInteger key i
  | .number bits => appendReal key bits
  | .string str => appendString key str
  | .table metapairs border entries => appendTable packDict key metapairs border entries
  | .boolean value => do
      appendKey bsonBoolean key
      writeByte (if value then 1 else 0)
  | .unsupported name =>
      if name = "userdata" then appendUserdata key (rt.userdata (.unsupported name))
      else luaError s!"Invalid value type : {name}"
  | .nil => luaError "Invalid value type : nil"
  | .lightuserdata _ => luaError "Invalid value type : userdata"

def packDictData (isarray : Bool) (key value : LuaValue) : Writer Unit :=
  if isarray then
    match key with
    | .integer _ => appendOne rt packDict (arrayKey key) value
    | .number _ => appendOne rt packDict (arrayKey key) value
    | _ => luaError s!"Invalid array key type : {typename key}"
  else
    match key with
    | .integer i => appendOne rt packDict (integerText i.value) value
    | .number bits => appendOne rt packDict (rt.formatNumber bits) value
    | .string str => appendOne rt packDict str value
    | _ => luaError s!"Invalid key type : {typename key}"

def packPairs (isarray : Bool) : List Entry → Writer Unit
  | [] => pure ()
  | (key, value) :: rest => do
      packDictData rt packDict isarray key value
      packPairs isarray rest

/-- The common body of `pack_simple_dict` and `pack_meta_dict`. -/
def packBody (isarray : Bool) (pairs : List Entry) : Writer Unit := do
  let length ← reserveLength
  packPairs rt packDict isarray pairs
  writeByte 0
  let size ← writtenSize
  writeLength (size - length) length

end Nested

/-- `pack_dict` with `left` levels to go before `depth > MAX_DEPTH`. -/
def packDict (rt : Runtime) : Nat → Bool → Option (List Entry) → List Entry → Writer Unit
  | 0, _, _, _ => luaError "Too depth while encoding bson"
  | left + 1, isarray, metapairs, entries =>
      match metapairs with
      | some pairs => packBody rt (packDict rt left) isarray pairs
      | none => packBody rt (packDict rt left) isarray entries

/-- `pack_ordered_dict` over the arguments taken two by two. -/
def packOrderedPairs (rt : Runtime) : Nat → List LuaValue → Writer Unit
  | i, key :: value :: rest => do
      let name ←
        match key with
        | .string str => pure str
        | .integer n => pure (integerText n.value)
        | .number bits => pure (rt.formatNumber bits)
        | _ => luaError s!"Argument {i + 1} need a string"
      appendOne rt (packDict rt maxDepth) name value
      packOrderedPairs rt (i + 2) rest
  | _, _ => pure ()

def packOrderedDict (rt : Runtime) (arguments : List LuaValue) : Writer Unit := do
  let length ← reserveLength
  packOrderedPairs rt 0 arguments
  writeByte 0
  let size ← writtenSize
  writeLength (size - length) length

def written (x : Writer Unit) : Except Failure Bytes := do
  let (_, b) ← x Buffer.create
  return b.content

def lencode (rt : Runtime) : LuaValue → Except Failure Bytes
  | .table metapairs _ entries => written (packDict rt (maxDepth + 1) false metapairs entries)
  | value => .error (.luaError s!"bad argument #1 to 'encode' (table expected, got {typename value})")

/-- `bson.encode_order` -/
def lencodeOrder (rt : Runtime) (arguments : List LuaValue) : Except Failure Bytes :=
  if arguments.length % 2 ≠ 0 then .error (.luaError "Invalid ordered dict")
  else written (packOrderedDict rt arguments)

theorem packOrderedPairs_eq (rt : Runtime) {entries : List Entry}
    (strings : ∀ entry ∈ entries, ∃ str, entry.1 = .string str) (i : Nat) :
    packOrderedPairs rt i (entries.flatMap fun entry => [entry.1, entry.2]) =
      packPairs rt (packDict rt maxDepth) false entries := by
  induction entries generalizing i with
  | nil => rfl
  | cons entry rest inductionHypothesis =>
      obtain ⟨str, isString⟩ := strings entry List.mem_cons_self
      have later := inductionHypothesis fun other among =>
        strings other (List.mem_cons_of_mem _ among)
      rcases entry with ⟨key, value⟩
      cases isString
      rw [List.flatMap_cons, List.cons_append, List.cons_append, List.nil_append, packOrderedPairs,
        later]
      rfl

theorem lencodeOrder_eq (rt : Runtime) {entries : List Entry}
    (strings : ∀ entry ∈ entries, ∃ str, entry.1 = .string str) (border : Nat) :
    lencodeOrder rt (entries.flatMap fun entry => [entry.1, entry.2]) =
      lencode rt (.table none border entries) := by
  have even : (entries.flatMap fun entry => [entry.1, entry.2]).length % 2 = 0 := by
    simp [List.length_flatMap]
  rw [lencodeOrder, if_neg (not_not.mpr even), lencode, packOrderedDict,
    packOrderedPairs_eq rt strings]
  rfl

section SpecialStrings

def ldate (d : Int) : Bytes := [0, bsonDate] ++ intBytes 4 d

/-- The increment is the second argument, or a counter that is one higher at every call. -/
def ltimestamp (d inc : Int) : Bytes := [0, bsonTimestamp] ++ intBytes 4 inc ++ intBytes 4 d

def lregex (pattern options : Bytes) : Bytes :=
  [0, bsonRegex] ++ pattern ++ [0] ++ options ++ [0]

def lbinary (data : Bytes) : Bytes := [0, bsonBinary, 0] ++ data

def hextoint (c : UInt8) : Nat :=
  if 48 ≤ c ∧ c ≤ 57 then c.toNat - 48
  else if 97 ≤ c ∧ c ≤ 122 then c.toNat - 97 + 10
  else if 65 ≤ c ∧ c ≤ 90 then c.toNat - 65 + 10
  else 0

def hexBytes : Bytes → Bytes
  | high :: low :: rest => UInt8.ofNat (hextoint high * 16 ||| hextoint low) :: hexBytes rest
  | _ => []

def objectidTag : Bytes := [0, bsonObjectid]

/-- `bson.objectid` of a string of hexadecimal digits. -/
def lobjectid (str : Bytes) : Except Failure Bytes :=
  if str.length ≠ 24 then .error (.luaError s!"Invalid objectid {cstringText str}")
  else .ok (objectidTag ++ hexBytes str)

/-- `bson.objectid` without an argument, from the time and the state of the module. -/
def lobjectidNew (ti : Nat) (oidHeader : Bytes) (oidCounter : Nat) : Bytes :=
  objectidTag ++ (leBytes 4 ti).reverse ++ oidHeader ++ (leBytes 3 oidCounter).reverse

def null : Bytes := [0, bsonNull]
def minkey : Bytes := [0, bsonMinkey]
def maxkey : Bytes := [0, bsonMaxkey]

end SpecialStrings

end CrossOver.Lua.Bson
