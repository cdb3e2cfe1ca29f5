import CrossOver.Lua.Value
import CrossOver.Lua.WriteBlock

/-!
# `lua_seri`: packing Lua values into bytes and back

The encoder is modelled by the list of buffers it passes to `wb_push`, which
`pack` pushes through the block chain.  Recursion of the encoder is on the depth
that is left of `MAX_DEPTH`.

The decoder walks a `read_block`.  `fuel` bounds its recursion and its nil-terminated
loops; running out of it is a failure of its own.  `rawlen` stands for what
`lua_rawlen` returns for the tables the decoder builds.
-/

namespace CrossOver.Lua

open CrossOver.Lib

inductive Failure where
  | luaError (message : String)
  | nullBlock
  | outOfFuel
  deriving DecidableEq, Repr

def typeNil : Nat := 0
def typeBoolean : Nat := 1
def typeNumber : Nat := 2
def typeUserdata : Nat := 3
def typeShortString : Nat := 4
def typeLongString : Nat := 5
def typeTable : Nat := 6

def typeNumberZero : Nat := 0
def typeNumberByte : Nat := 1
def typeNumberWord : Nat := 2
def typeNumberDword : Nat := 4
def typeNumberQword : Nat := 6
def typeNumberReal : Nat := 8

def maxCookie : Nat := 32
def maxDepth : Nat := 32

/-- `(uint8_t)COMBINE_TYPE(t, v)`; the type takes the three low bits. -/
def combineType (type : Nat) (cookie : Int) : UInt8 :=
  UInt8.ofNat ((type + 8 * cookie) % 256).toNat

/-- The low `width` bytes of an integer in two's complement. -/
def intBytes (width : Nat) (value : Int) : Bytes :=
  leBytes width (value % 256 ^ width).toNat

def wbNil : List Bytes := [[combineType typeNil 0]]

def wbBoolean (boolean : Bool) : List Bytes :=
  [[combineType typeBoolean (if boolean then 1 else 0)]]

def wbInteger (v : Int) : List Bytes :=
  if v = 0 then [[combineType typeNumber typeNumberZero]]
  else if v ≠ int32Of v then [[combineType typeNumber typeNumberQword], intBytes 8 v]
  else if v < 0 then [[combineType typeNumber typeNumberDword], intBytes 4 v]
  else if v < 0x100 then [[combineType typeNumber typeNumberByte], intBytes 1 v]
  else if v < 0x10000 then [[combineType typeNumber typeNumberWord], intBytes 2 v]
  else [[combineType typeNumber typeNumberDword], intBytes 4 v]

def wbReal (bits : UInt64) : List Bytes :=
  [[combineType typeNumber typeNumberReal], leBytes 8 bits.toNat]

def wbPointer (address : UInt64) : List Bytes :=
  [[combineType typeUserdata 0], leBytes 8 address.toNat]

def wbString (str : Bytes) (len : Int) : List Bytes :=
  if len < maxCookie then
    [combineType typeShortString len] :: (if len > 0 then [str.take len.toNat] else [])
  else if len < 0x10000 then
    [[combineType typeLongString 2], intBytes 2 len, str.take len.toNat]
  else [[combineType typeLongString 4], intBytes 4 len, str.take len.toNat]

section Pack

variable (packOne : LuaValue → Except Failure (List Bytes))

/-- `count` turns of the loop of `wb_table_array`, from index `i` on. -/
def packArray (entries : List Entry) : Nat → Int → Except Failure (List Bytes)
  | 0, _ => .ok []
  | count + 1, i => do
      let element ← packOne (rawgeti entries i)
      let rest ← packArray entries count (i + 1)
      return element ++ rest

def arrayHeader (arraySize : Int) : List Bytes :=
  if arraySize ≥ maxCookie - 1 then
    [combineType typeTable (maxCookie - 1)] :: wbInteger arraySize
  else [[combineType typeTable arraySize]]

def wbTableArray (border : Nat) (entries : List Entry) : Except Failure (List Bytes) := do
  let arraySize := int32Of border
  let elements ← packArray packOne entries arraySize.toNat 1
  return arrayHeader arraySize ++ elements

def inArray (arraySize : Int) : LuaValue → Bool
  | .integer key => key.value > 0 && key.value ≤ arraySize
  | _ => false

def packPairs : List Entry → Except Failure (List Bytes)
  | [] => .ok wbNil
  | (key, value) :: rest => do
      let packedKey ← packOne key
      let packedValue ← packOne value
      let packedRest ← packPairs rest
      return packedKey ++ packedValue ++ packedRest

def wbTableHash (arraySize : Int) (entries : List Entry) : Except Failure (List Bytes) :=
  packPairs packOne (entries.filter fun entry => !inArray arraySize entry.1)

def wbTableMetapairs (pairs : List Entry) : Except Failure (List Bytes) := do
  let packed ← packPairs packOne pairs
  return [combineType typeTable 0] :: packed

def wbTable (metapairs : Option (List Entry)) (border : Nat) (entries : List Entry) :
    Except Failure (List Bytes) :=
  match metapairs with
  | some pairs => wbTableMetapairs packOne pairs
  | none => do
      let array ← wbTableArray packOne border entries
      let hash ← wbTableHash packOne (int32Of border) entries
      return array ++ hash

end Pack

/-- `pack_one` with `left` levels to go before `depth > MAX_DEPTH`. -/
def packOne : Nat → LuaValue → Except Failure (List Bytes)
  | 0, _ => .error (.luaError "serialize can't pack too depth table")
  | left + 1, value =>
      match value with
      | .nil => .ok wbNil
      | .integer x => .ok (wbInteger x.value)
      | .number bits => .ok (wbReal bits)
      | .boolean boolean => .ok (wbBoolean boolean)
      | .string bytes => .ok (wbString bytes (int32Of bytes.length))
      | .lightuserdata address => .ok (wbPointer address)
      | .table metapairs border entries => wbTable (packOne left) metapairs border entries
      | .unsupported typename =>
          .error (.luaError s!"Unsupport type {typename} to serialize")

def packFrom : List LuaValue → Except Failure (List Bytes)
  | [] => .ok []
  | value :: rest => do
      let first ← packOne (maxDepth + 1) value
      let others ← packFrom rest
      return first ++ others

/-- The string and its size; `lua_pushlstring` raises for a negative length. -/
def seri (blocks : List Bytes) (len : Int) : Except Failure (Bytes × Int) :=
  if len < 0 then .error (.luaError "memory allocation error: block too big")
  else
    match WriteBlock.seriLoop blocks len.toNat with
    | none => .error .nullBlock
    | some buffer => .ok (buffer, len)

/-- `seri` copies out what a chain below `2 ^ 31` bytes holds. -/
theorem seri_content {wb : WriteBlock} (sound : wb.Sound)
    (narrow : wb.content.length < 2 ^ 31) :
    seri wb.chain wb.len = .ok (wb.content, wb.content.length) := by
  have counted : wb.len = wb.content.length := by
    rw [sound.len, int32Of_of_bounds (by omega) (by omega)]
  have positive : ¬ ((wb.content.length : Int) < 0) := by omega
  rw [counted]
  simp only [seri, if_neg positive, Int.toNat_natCast, WriteBlock.seriLoop_chain wb sound]

/-- Any sequence of pushes ends in a chain of full blocks and one filled up to `ptr`,
and `seri` flattens it to what was pushed. -/
theorem seri_pushAll (pushes : List Bytes) (small : pushes.flatten.length < 2 ^ 31) :
    ∃ wb, WriteBlock.init.pushAll pushes = some wb ∧ wb.len = pushes.flatten.length ∧
      wb.ptr ≤ blockSize ∧ (∀ block ∈ wb.full, block.length = blockSize) ∧
      pushes.flatten = wb.full.flatten ++ wb.current.take wb.ptr ∧
      seri wb.chain wb.len = .ok (pushes.flatten, pushes.flatten.length) := by
  obtain ⟨wb, result, sound, content⟩ :=
    WriteBlock.pushAll_spec pushes WriteBlock.init WriteBlock.init_sound
  rw [WriteBlock.init_content, List.nil_append] at content
  have flattened := seri_content sound (by rwa [content])
  have counted := sound.len
  rw [content] at flattened counted
  rw [int32Of_of_bounds (by omega) (by omega)] at counted
  exact ⟨wb, result, counted, wb.ptr_le, sound.full, content.symm, flattened⟩

def twoBlocks : List Bytes := [List.replicate 100 1, List.replicate 156 2, []]

theorem seri_pushAll_twoBlocks :
    ∃ wb, WriteBlock.init.pushAll twoBlocks = some wb ∧ wb.len = twoBlocks.flatten.length ∧
      wb.ptr ≤ blockSize ∧ (∀ block ∈ wb.full, block.length = blockSize) ∧
      twoBlocks.flatten = wb.full.flatten ++ wb.current.take wb.ptr ∧
      seri wb.chain wb.len = .ok (twoBlocks.flatten, twoBlocks.flatten.length) :=
  seri_pushAll twoBlocks (by
    simp only [twoBlocks, List.flatten_cons, List.flatten_nil, List.length_append,
      List.length_replicate, List.length_nil]
    omega)

def pack (values : List LuaValue) : Except Failure (Bytes × Int) := do
  let pushes ← packFrom values
  match WriteBlock.init.pushAll pushes with
  | none => .error .outOfFuel
  | some wb => seri wb.chain wb.len

structure ReadBlock where
  buffer : Bytes
  len : Int
  ptr : Int
  deriving DecidableEq, Repr

namespace ReadBlock

def init (buffer : Bytes) (size : Int) : ReadBlock := { buffer := buffer, len := size, ptr := 0 }

/-- The offset to read at; a length below zero is not rejected. -/
def read (rb : ReadBlock) (sz : Int) : Option (Int × ReadBlock) :=
  if rb.len < sz then none
  else some (rb.ptr, { rb with ptr := rb.ptr + sz, len := rb.len - sz })

/-- The `sz` bytes of memory at an offset of the buffer. -/
def slice (rb : ReadBlock) (offset : Int) (sz : Nat) : Bytes :=
  (rb.buffer.drop offset.toNat).take sz

end ReadBlock

def invalidStream {Result : Type} (rb : ReadBlock) (line : Nat) : Except Failure Result :=
  .error (.luaError s!"Invalid serialize stream {rb.len} (line:{line})")

def readWord (rb : ReadBlock) (width line : Nat) : Except Failure (Nat × ReadBlock) :=
  match rb.read width with
  | none => invalidStream rb line
  | some (offset, next) => .ok (leValue (rb.slice offset width), next)

def signed (width value : Nat) : Int := Int.bmod value (256 ^ width)

def getInteger (rb : ReadBlock) (cookie : Nat) : Except Failure (Int × ReadBlock) :=
  if cookie = typeNumberZero then .ok (0, rb)
  else if cookie = typeNumberByte then do
    let (n, rb) ← readWord rb 1 365
    return (n, rb)
  else if cookie = typeNumberWord then do
    let (n, rb) ← readWord rb 2 373
    return (n, rb)
  else if cookie = typeNumberDword then do
    let (n, rb) ← readWord rb 4 381
    return (signed 4 n, rb)
  else if cookie = typeNumberQword then do
    let (n, rb) ← readWord rb 8 389
    return (signed 8 n, rb)
  else invalidStream rb 394

def getReal (rb : ReadBlock) : Except Failure (UInt64 × ReadBlock) := do
  let (n, rb) ← readWord rb 8 404
  return (UInt64.ofNat n, rb)

def getPointer (rb : ReadBlock) : Except Failure (UInt64 × ReadBlock) := do
  let (n, rb) ← readWord rb 8 414
  return (UInt64.ofNat n, rb)

/-- `lua_pushlstring` raises for a length that is negative as an `int`. -/
def getBuffer (rb : ReadBlock) (len : Int) : Except Failure (LuaValue × ReadBlock) :=
  match rb.read len with
  | none => invalidStream rb 424
  | some (offset, next) =>
      if len < 0 then .error (.luaError "memory allocation error: block too big")
      else .ok (.string (rb.slice offset len.toNat), next)

section Unpack

variable (rawlen : List Entry → Nat)
variable (unpackOne : ReadBlock → Except Failure (LuaValue × ReadBlock))

/-- `count` turns of the first loop of `unpack_table`, from index `i` on. -/
def unpackArray : Nat → Int → List Entry → ReadBlock → Except Failure (List Entry × ReadBlock)
  | 0, _, entries, rb => .ok (entries, rb)
  | count + 1, i, entries, rb => do
      let (element, rb) ← unpackOne rb
      unpackArray count (i + 1) (setSlot entries (.integer (LuaInteger.ofInt i)) element) rb

def unpackHash : Nat → List Entry → ReadBlock → Except Failure (List Entry × ReadBlock)
  | 0, _, _ => .error .outOfFuel
  | fuel + 1, entries, rb => do
      let (key, rb) ← unpackOne rb
      if key.isNil then return (entries, rb)
      let (value, rb) ← unpackOne rb
      match rawset entries key value with
      | .error message => .error (.luaError message)
      | .ok stored => unpackHash fuel stored rb

/-- The array size, which the header may leave to a following integer. -/
def unpackArraySize (rb : ReadBlock) (cookie : Nat) : Except Failure (Int × ReadBlock) :=
  if cookie = maxCookie - 1 then do
    let (type, rb) ← readWord rb 1 437
    if type % 8 ≠ typeNumber ∨ type / 8 = typeNumberReal then invalidStream rb 442
    else do
      let (size, rb) ← getInteger rb (type / 8)
      return (int32Of size, rb)
  else .ok (cookie, rb)

def unpackTable (rb : ReadBlock) (cookie : Nat) : Except Failure (LuaValue × ReadBlock) := do
  let (arraySize, rb) ← unpackArraySize rb cookie
  let (array, rb) ← unpackArray unpackOne arraySize.toNat 1 [] rb
  let (entries, rb) ← unpackHash unpackOne (rb.len.toNat + 1) array rb
  return (.table none (rawlen entries) entries, rb)

def pushValue (rb : ReadBlock) (type cookie : Nat) : Except Failure (LuaValue × ReadBlock) :=
  if type = typeNil then .ok (.nil, rb)
  else if type = typeBoolean then .ok (.boolean (cookie != 0), rb)
  else if type = typeNumber then
    if cookie = typeNumberReal then do
      let (bits, rb) ← getReal rb
      return (.number bits, rb)
    else do
      let (value, rb) ← getInteger rb cookie
      return (.integer (LuaInteger.ofInt value), rb)
  else if type = typeUserdata then do
    let (address, rb) ← getPointer rb
    return (.lightuserdata address, rb)
  else if type = typeShortString then getBuffer rb cookie
  else if type = typeLongString then
    if cookie = 2 then do
      let (n, rb) ← readWord rb 2 490
      getBuffer rb n
    else if cookie ≠ 4 then invalidStream rb 497
    else do
      let (n, rb) ← readWord rb 4 501
      getBuffer rb (int32Of n)
  else if type = typeTable then unpackTable rawlen unpackOne rb cookie
  else invalidStream rb 514

end Unpack

def unpackOne (rawlen : List Entry → Nat) :
    Nat → ReadBlock → Except Failure (LuaValue × ReadBlock)
  | 0, _ => .error .outOfFuel
  | fuel + 1, rb => do
      let (type, rb) ← readWord rb 1 525
      pushValue rawlen (unpackOne rawlen fuel) rb (type % 8) (type / 8)

/-- The loop of `_luaseri_unpack`, which ends where no byte is left. -/
def unpackLoop (rawlen : List Entry → Nat) (depth : Nat) :
    Nat → ReadBlock → Except Failure (List LuaValue)
  | 0, _ => .error .outOfFuel
  | fuel + 1, rb =>
      match rb.read 1 with
      | none => .ok []
      | some (offset, next) => do
          let type := leValue (rb.slice offset 1)
          let (value, next) ←
            pushValue rawlen (unpackOne rawlen depth) next (type % 8) (type / 8)
          let rest ← unpackLoop rawlen depth fuel next
          return value :: rest

/-- The arguments `_luaseri_unpack` tells apart. -/
inductive UnpackArgument where
  | noneOrNil
  | string (bytes : Bytes)
  | userdata (memory : Option Bytes) (len : Int)
  deriving DecidableEq, Repr

def unpackBuffer (rawlen : List Entry → Nat) (buffer : Option Bytes) (len : Int) :
    Except Failure (List LuaValue) :=
  if len = 0 then .ok []
  else
    match buffer with
    | none => .error (.luaError "deserialize null pointer")
    | some bytes =>
        unpackLoop rawlen (len.toNat + 1) (len.toNat + 1) (ReadBlock.init bytes len)

/-- A string is taken off the stack before it is read; the caller still refers to it. -/
def unpack (rawlen : List Entry → Nat) : UnpackArgument → Except Failure (List LuaValue)
  | .noneOrNil => .ok []
  | .string bytes => unpackBuffer rawlen (some bytes) (int32Of bytes.length)
  | .userdata memory len => unpackBuffer rawlen memory (int32Of len)

end CrossOver.Lua
