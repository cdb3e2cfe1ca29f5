import CrossOver.Lib.Addresses
import CrossOver.Lib.Result

/-!
# `CSerializeStream`

A stream over a caller's buffer.  Every operator asserts that there is room,
accesses the buffer at `pos_` and advances.  `pos_` and `size_` are `uint32`;
a sum with a `sizeof` or a `string::length` is a `size_t`, a sum of two `uint32`
wraps.

The buffer is the memory behind a pointer: what an operator accesses beyond
`size_` is there as well, and the stream records every block that is read.
-/

namespace CrossOver.Engine

open CrossOver.Lib

structure SerializeStream where
  buffer : Addresses
  size : UInt32
  pos : UInt32
  accesses : List Access

/-- An `ASSERT` that does not hold ends the process. -/
inductive AssertFailed
  | assert
  deriving DecidableEq, Repr

namespace SerializeStream

abbrev Operation (Result : Type) := StateT SerializeStream (Except AssertFailed) Result

/-- The constructor. -/
def ofBuffer (data : Addresses) (dataLen : UInt32) : SerializeStream :=
  { buffer := data, size := dataLen, pos := 0, accesses := [] }

/-- `ASSERT(pos_ + width <= size_)`, where `width` is a `size_t`. -/
def assertRoom (width : Nat) : Operation Unit := fun s =>
  if s.pos.toNat + width ≤ s.size.toNat then .ok ((), s) else .error .assert

/-- `ASSERT(pos_ + len <= size_)`, where `len` is a `uint32`. -/
def assertRoom32 (len : UInt32) : Operation Unit := fun s =>
  if s.pos + len ≤ s.size then .ok ((), s) else .error .assert

def advance (len : UInt32) : Operation Unit := fun s =>
  .ok ((), { s with pos := s.pos + len })

/-- Copy `data` to `buffer_ + pos_`. -/
def store (data : Bytes) : Operation Unit := fun s =>
  .ok ((), { s with buffer := s.buffer.write s.pos.toNat data })

/-- Look at `width` bytes from `buffer_ + pos_` on. -/
def load (width : Nat) : Operation Bytes := fun s =>
  .ok (s.buffer.read s.pos.toNat width,
    { s with accesses := s.accesses ++ [{ offset := s.pos.toNat, width := width }] })

def writeScalar (width value : Nat) : Operation Unit := do
  assertRoom width
  store (leBytes width value)
  advance (UInt32.ofNat width)

def writeUint8 (v : UInt8) : Operation Unit := writeScalar 1 v.toNat
def writeInt8 (v : Int8) : Operation Unit := writeScalar 1 v.toUInt8.toNat
def writeUint16 (v : UInt16) : Operation Unit := writeScalar 2 v.toNat
def writeInt16 (v : Int16) : Operation Unit := writeScalar 2 v.toUInt16.toNat
def writeUint32 (v : UInt32) : Operation Unit := writeScalar 4 v.toNat
def writeInt32 (v : Int32) : Operation Unit := writeScalar 4 v.toUInt32.toNat
def writeUint64 (v : UInt64) : Operation Unit := writeScalar 8 v.toNat
def writeInt64 (v : Int64) : Operation Unit := writeScalar 8 v.toUInt64.toNat
def writeChar (v : Int8) : Operation Unit := writeScalar 1 v.toUInt8.toNat
def writeBool (v : Bool) : Operation Unit := writeScalar 1 v.toNat

def writeFloat (bits : UInt32) : Operation Unit := writeScalar 4 bits.toNat
def writeDouble (bits : UInt64) : Operation Unit := writeScalar 8 bits.toNat

def writeString (v : Bytes) : Operation Unit := do
  assertRoom (4 + v.length)
  store (leBytes 4 v.length)
  advance 4
  store v
  advance (UInt32.ofNat v.length)

/-- `write_byte(data, len)`; `data` holds `len` bytes.  The assertion asks for the
room of a length that is not written. -/
def writeByte (data : Bytes) : Operation Unit := do
  assertRoom (4 + data.length)
  store data
  advance (UInt32.ofNat data.length)

def readScalar (width : Nat) : Operation Nat := do
  assertRoom width
  let bytes ← load width
  advance (UInt32.ofNat width)
  return leValue bytes

def readUint8 : Operation UInt8 := do
  assertRoom 1
  let bytes ← load 4
  advance 1
  return UInt8.ofNat (leValue bytes)

def readInt8 : Operation Int8 := do return (UInt8.ofNat (← readScalar 1)).toInt8
def readUint16 : Operation UInt16 := do return UInt16.ofNat (← readScalar 2)
def readInt16 : Operation Int16 := do return (UInt16.ofNat (← readScalar 2)).toInt16
def readUint32 : Operation UInt32 := do return UInt32.ofNat (← readScalar 4)
def readInt32 : Operation Int32 := do return (UInt32.ofNat (← readScalar 4)).toInt32
def readUint64 : Operation UInt64 := do return UInt64.ofNat (← readScalar 8)
def readInt64 : Operation Int64 := do return (UInt64.ofNat (← readScalar 8)).toInt64
def readChar : Operation Int8 := do return (UInt8.ofNat (← readScalar 1)).toInt8
def readBool : Operation Bool := do return (← readScalar 1) != 0
def readFloat : Operation UInt32 := do return UInt32.ofNat (← readScalar 4)
def readDouble : Operation UInt64 := do return UInt64.ofNat (← readScalar 8)

/-- `read_byte(data, len)`. -/
def readByte (len : UInt32) : Operation Bytes := do
  assertRoom32 len
  let bytes ← load len.toNat
  advance len
  return bytes

def readString : Operation Bytes := do
  assertRoom 4
  let head ← load 4
  advance 4
  let len := UInt32.ofNat (leValue head)
  assertRoom32 len
  let content ← load len.toNat
  advance len
  return content

inductive Value
  | uint8 (v : UInt8)
  | int8 (v : Int8)
  | uint16 (v : UInt16)
  | int16 (v : Int16)
  | uint32 (v : UInt32)
  | int32 (v : Int32)
  | uint64 (v : UInt64)
  | int64 (v : Int64)
  | char (v : Int8)
  | bool (v : Bool)
  | float (bits : UInt32)
  | double (bits : UInt64)
  | string (v : Bytes)
  | bytes (data : Bytes)
  deriving DecidableEq, Repr

/-- What a reader asks for.  `bytes len` is a call of `read_byte`. -/
inductive Kind
  | uint8 | int8 | uint16 | int16 | uint32 | int32 | uint64 | int64
  | char | bool | float | double | string
  | bytes (len : UInt32)
  deriving DecidableEq, Repr

def Value.write : Value → Operation Unit
  | .uint8 v => writeUint8 v
  | .int8 v => writeInt8 v
  | .uint16 v => writeUint16 v
  | .int16 v => writeInt16 v
  | .uint32 v => writeUint32 v
  | .int32 v => writeInt32 v
  | .uint64 v => writeUint64 v
  | .int64 v => writeInt64 v
  | .char v => writeChar v
  | .bool v => writeBool v
  | .float bits => writeFloat bits
  | .double bits => writeDouble bits
  | .string v => writeString v
  | .bytes data => writeByte data

def Kind.read : Kind → Operation Value
  | .uint8 => .uint8 <$> readUint8
  | .int8 => .int8 <$> readInt8
  | .uint16 => .uint16 <$> readUint16
  | .int16 => .int16 <$> readInt16
  | .uint32 => .uint32 <$> readUint32
  | .int32 => .int32 <$> readInt32
  | .uint64 => .uint64 <$> readUint64
  | .int64 => .int64 <$> readInt64
  | .char => .char <$> readChar
  | .bool => .bool <$> readBool
  | .float => .float <$> readFloat
  | .double => .double <$> readDouble
  | .string => .string <$> readString
  | .bytes len => .bytes <$> readByte len

/-- The request that matches a write. -/
def Value.kind : Value → Kind
  | .uint8 _ => .uint8
  | .int8 _ => .int8
  | .uint16 _ => .uint16
  | .int16 _ => .int16
  | .uint32 _ => .uint32
  | .int32 _ => .int32
  | .uint64 _ => .uint64
  | .int64 _ => .int64
  | .char _ => .char
  | .bool _ => .bool
  | .float _ => .float
  | .double _ => .double
  | .string _ => .string
  | .bytes data => .bytes (UInt32.ofNat data.length)

def writeAll : List Value → Operation Unit
  | [] => pure ()
  | value :: rest => do
      value.write
      writeAll rest

def readAll : List Kind → Operation (List Value)
  | [] => pure []
  | kind :: rest => do
      let value ← kind.read
      let values ← readAll rest
      return value :: values

/-- The stream after it looked at `width` bytes and advanced by `len`. -/
def passed (s : SerializeStream) (width : Nat) (len : UInt32) : SerializeStream :=
  { s with
    pos := s.pos + len
    accesses := s.accesses ++ [{ offset := s.pos.toNat, width := width }] }

section Equations

variable (s : SerializeStream)

theorem readScalar_eq (width : Nat) : readScalar width s =
    if s.pos.toNat + width ≤ s.size.toNat then
      .ok (leValue (s.buffer.read s.pos.toNat width), s.passed width (UInt32.ofNat width))
    else .error .assert := by
  change (assertRoom width s >>= fun r => _) = _
  unfold assertRoom
  split <;> rfl

theorem readUint8_eq : readUint8 s =
    if s.pos.toNat + 1 ≤ s.size.toNat then
      .ok (UInt8.ofNat (leValue (s.buffer.read s.pos.toNat 4)), s.passed 4 1)
    else .error .assert := by
  change (assertRoom 1 s >>= fun r => _) = _
  unfold assertRoom
  split <;> rfl

theorem readByte_eq (len : UInt32) : readByte len s =
    if s.pos + len ≤ s.size then
      .ok (s.buffer.read s.pos.toNat len.toNat, s.passed len.toNat len)
    else .error .assert := by
  change (assertRoom32 len s >>= fun r => _) = _
  unfold assertRoom32
  split <;> rfl

/-- A string is its length and a `read_byte` of that length. -/
theorem readString_eq : readString s =
    if s.pos.toNat + 4 ≤ s.size.toNat then
      readByte (UInt32.ofNat (leValue (s.buffer.read s.pos.toNat 4))) (s.passed 4 4)
    else .error .assert := by
  change (assertRoom 4 s >>= fun r => _) = _
  unfold assertRoom
  split <;> rfl

end Equations

end SerializeStream

end CrossOver.Engine
