import CrossOver.Lib.Behaves
import CrossOver.Lib.Tiling
import CrossOver.Lua.Tables

/-!
# Decoding bytes that anybody may have sent

`Traced` is the decoder with a record of what `rb_read` has handed out, and
`Follows` says that the record changes nothing.  A size below zero moves the
cursor back, but it is the size of a string, and `lua_pushlstring` does not take
it; so whatever a decode returns, its reads tile the bytes.

Each header byte makes the rest shorter, which bounds the recursion and the
loops that end with a nil.
-/

namespace CrossOver.Lua

open CrossOver.Lib

def ReadBlock.behind (rb : ReadBlock) (sz : Int) : ReadBlock :=
  { rb with ptr := rb.ptr + sz, len := rb.len - sz }

/-- A read block, with the offsets and sizes that were read from it. -/
structure Traced where
  rb : ReadBlock
  reads : List (Int × Int) := []

abbrev Tracing := StateT Traced (Except Failure)

namespace Traced

/-- `rb_read`, with the error for a null pointer -/
def read (sz : Int) (line : Nat) : Tracing Int := fun t =>
  match t.rb.read sz with
  | none => Lua.invalidStream t.rb line
  | some (offset, next) => .ok (offset, { rb := next, reads := t.reads ++ [(offset, sz)] })

def invalidStream {Result : Type} (line : Nat) : Tracing Result := fun t =>
  Lua.invalidStream t.rb line

def readWord (width line : Nat) : Tracing Nat := do
  let offset ← read width line
  let t ← get
  return leValue (t.rb.slice offset width)

def getInteger (cookie : Nat) : Tracing Int :=
  if cookie = typeNumberZero then pure 0
  else if cookie = typeNumberByte then do
    let n ← readWord 1 365
    return n
  else if cookie = typeNumberWord then do
    let n ← readWord 2 373
    return n
  else if cookie = typeNumberDword then do
    let n ← readWord 4 381
    return signed 4 n
  else if cookie = typeNumberQword then do
    let n ← readWord 8 389
    return signed 8 n
  else invalidStream 394

def getReal : Tracing UInt64 := do
  let n ← readWord 8 404
  return UInt64.ofNat n

def getPointer : Tracing UInt64 := do
  let n ← readWord 8 414
  return UInt64.ofNat n

def getBuffer (len : Int) : Tracing LuaValue := do
  let offset ← read len 424
  let t ← get
  if len < 0 then throw (.luaError "memory allocation error: block too big")
  else return .string (t.rb.slice offset len.toNat)

section Unpack

variable (rawlen : List Entry → Nat) (unpackOne : Tracing LuaValue)

def unpackArray : Nat → Int → List Entry → Tracing (List Entry)
  | 0, _, entries => pure entries
  | count + 1, i, entries => do
      let element ← unpackOne
      unpackArray count (i + 1) (setSlot entries (.integer (LuaInteger.ofInt i)) element)

def unpackHash : Nat → List Entry → Tracing (List Entry)
  | 0, _ => throw .outOfFuel
  | fuel + 1, entries => do
      let key ← unpackOne
      if key.isNil then return entries
      let value ← unpackOne
      match rawset entries key value with
      | .error message => throw (.luaError message)
      | .ok stored => unpackHash fuel stored

def unpackArraySize (cookie : Nat) : Tracing Int :=
  if cookie = maxCookie - 1 then do
    let type ← readWord 1 437
    if type % 8 ≠ typeNumber ∨ type / 8 = typeNumberReal then invalidStream 442
    else do
      let size ← getInteger (type / 8)
      return int32Of size
  else pure cookie

def unpackTable (cookie : Nat) : Tracing LuaValue := do
  let arraySize ← unpackArraySize cookie
  let array ← unpackArray unpackOne arraySize.toNat 1 []
  let t ← get
  let entries ← unpackHash unpackOne (t.rb.len.toNat + 1) array
  return .table none (rawlen entries) entries

def pushValue (type cookie : Nat) : Tracing LuaValue :=
  if type = typeNil then pure .nil
  else if type = typeBoolean then pure (.boolean (cookie != 0))
  else if type = typeNumber then
    if cookie = typeNumberReal then do
      let bits ← getReal
      return .number bits
    else do
      let value ← getInteger cookie
      return .integer (LuaInteger.ofInt value)
  else if type = typeUserdata then do
    let address ← getPointer
    return .lightuserdata address
  else if type = typeShortString then getBuffer cookie
  else if type = typeLongString then
    if cookie = 2 then do
      let n ← readWord 2 490
      getBuffer n
    else if cookie ≠ 4 then invalidStream 497
    else do
      let n ← readWord 4 501
      getBuffer (int32Of n)
  else if type = typeTable then unpackTable rawlen unpackOne cookie
  else invalidStream 514

end Unpack

def unpackOne (rawlen : List Entry → Nat) : Nat → Tracing LuaValue
  | 0 => throw .outOfFuel
  | fuel + 1 => do
      let type ← readWord 1 525
      pushValue rawlen (unpackOne rawlen fuel) (type % 8) (type / 8)

def unpackLoop (rawlen : List Entry → Nat) (depth : Nat) : Nat → Tracing (List LuaValue)
  | 0 => throw .outOfFuel
  | fuel + 1 => fun t =>
      if t.rb.len < 1 then .ok ([], t)
      else (do
        let type ← readWord 1 525
        let value ← pushValue rawlen (unpackOne rawlen depth) (type % 8) (type / 8)
        let rest ← unpackLoop rawlen depth fuel
        return value :: rest : Tracing (List LuaValue)) t

/-- `_luaseri_unpack` of a string, with all that it has read. -/
def unpack (rawlen : List Entry → Nat) (bytes : Bytes) :
    Except Failure (List LuaValue × List (Int × Int)) :=
  let len := int32Of bytes.length
  if len = 0 then .ok ([], [])
  else do
    let (values, t) ← unpackLoop rawlen (len.toNat + 1) (len.toNat + 1)
      { rb := ReadBlock.init bytes len }
    return (values, t.reads)

end Traced

/-! ## Reads -/

section Reads

variable {t : Traced} {sz : Int} {width : Nat}

/-- The state behind a read. -/
def Traced.past (t : Traced) (sz : Int) : Traced where
  rb := t.rb.behind sz
  reads := t.reads ++ [(t.rb.ptr, sz)]

theorem read_missing (short : t.rb.len < sz) : t.rb.read sz = none := if_pos short

theorem read_found (enough : ¬ t.rb.len < sz) :
    t.rb.read sz = some (t.rb.ptr, t.rb.behind sz) := if_neg enough

theorem Traced.read_missing (short : t.rb.len < sz) (line : Nat) :
    Traced.read sz line t = Lua.invalidStream t.rb line := by
  rw [Traced.read, Lua.read_missing short]

theorem Traced.read_found (enough : ¬ t.rb.len < sz) (line : Nat) :
    Traced.read sz line t = .ok (t.rb.ptr, t.past sz) := by
  rw [Traced.read, Lua.read_found enough]
  rfl

theorem Traced.readWord_missing (short : t.rb.len < width) (line : Nat) :
    Traced.readWord width line t = Lua.invalidStream t.rb line := by
  change (Traced.read width line t >>= fun made => Except.ok (_, made.2)) = _
  rw [Traced.read_missing short]
  rfl

theorem Traced.readWord_found (enough : ¬ t.rb.len < width) (line : Nat) :
    Traced.readWord width line t = .ok (leValue (t.rb.slice t.rb.ptr width), t.past width) := by
  change (Traced.read width line t >>= fun made =>
    Except.ok (leValue (made.2.rb.slice made.1 width), made.2)) = _
  rw [Traced.read_found enough]
  rfl

theorem Traced.getBuffer_missing (short : t.rb.len < sz) :
    Traced.getBuffer sz t = Lua.invalidStream t.rb 424 := by
  change (Traced.read sz 424 t >>= fun made => _) = _
  rw [Traced.read_missing short]
  rfl

theorem Traced.getBuffer_found (enough : ¬ t.rb.len < sz) :
    Traced.getBuffer sz t =
      if sz < 0 then .error (.luaError "memory allocation error: block too big")
      else .ok (.string (t.rb.slice t.rb.ptr sz.toNat), t.past sz) := by
  change (Traced.read sz 424 t >>= fun made =>
    (if sz < 0 then throw _ else Pure.pure _ : Tracing LuaValue) made.2) = _
  rw [Traced.read_found enough, ok_bind]
  split <;> rfl

end Reads

/-! ## The record changes nothing -/

section Following

variable {First Second : Type}

/-- Without its record the traced decoder does what the plain one does. -/
def Follows (traced : Tracing First) (plain : ReadBlock → Except Failure (First × ReadBlock)) :
    Prop :=
  ∀ t, (traced t).map (fun out => (out.1, out.2.rb)) = plain t.rb

theorem Follows.pure (value : First) : Follows (pure value) fun rb => .ok (value, rb) :=
  fun _ => rfl

theorem Follows.throw (failure : Failure) :
    Follows (throw failure : Tracing First) fun _ => .error failure := fun _ => rfl

theorem Follows.invalidStream (line : Nat) :
    Follows (Traced.invalidStream line : Tracing First) fun rb => Lua.invalidStream rb line :=
  fun _ => rfl

theorem Follows.bind {traced : Tracing First} {rest : First → Tracing Second}
    {plain : ReadBlock → Except Failure (First × ReadBlock)}
    {plainRest : First × ReadBlock → Except Failure (Second × ReadBlock)}
    (first : Follows traced plain)
    (second : ∀ value, Follows (rest value) fun rb => plainRest (value, rb)) :
    Follows (traced >>= rest) fun rb => plain rb >>= plainRest := by
  intro t
  have here := first t
  change (traced t >>= fun made => rest made.1 made.2).map _ = _
  dsimp only
  rw [← here]
  cases traced t with
  | error failure => rfl
  | ok made => exact second made.1 made.2

theorem readWord_follows (width line : Nat) :
    Follows (Traced.readWord width line) fun rb => readWord rb width line := by
  intro t
  change (Traced.readWord width line t).map _ = readWord t.rb width line
  by_cases short : t.rb.len < width
  · rw [Traced.readWord_missing short, readWord, read_missing short]
    rfl
  · rw [Traced.readWord_found short, readWord, read_found short]
    rfl

theorem getBuffer_follows (len : Int) :
    Follows (Traced.getBuffer len) fun rb => getBuffer rb len := by
  intro t
  change (Traced.getBuffer len t).map _ = getBuffer t.rb len
  by_cases short : t.rb.len < len
  · rw [Traced.getBuffer_missing short, getBuffer, read_missing short]
    rfl
  · rw [Traced.getBuffer_found short, getBuffer, read_found short]
    dsimp only
    split <;> rfl

theorem getInteger_follows (cookie : Nat) :
    Follows (Traced.getInteger cookie) fun rb => getInteger rb cookie := by
  unfold Traced.getInteger getInteger
  split_ifs with zero byte word dword qword
  · exact .pure 0
  · exact (readWord_follows 1 365).bind fun n => .pure (n : Int)
  · exact (readWord_follows 2 373).bind fun n => .pure (n : Int)
  · exact (readWord_follows 4 381).bind fun n => .pure (signed 4 n)
  · exact (readWord_follows 8 389).bind fun n => .pure (signed 8 n)
  · exact .invalidStream 394

theorem getReal_follows : Follows Traced.getReal getReal :=
  (readWord_follows 8 404).bind fun n => .pure (UInt64.ofNat n)

theorem getPointer_follows : Follows Traced.getPointer getPointer :=
  (readWord_follows 8 414).bind fun n => .pure (UInt64.ofNat n)

section Unpack

variable (rawlen : List Entry → Nat) {traced : Tracing LuaValue}
  {plain : ReadBlock → Except Failure (LuaValue × ReadBlock)} (follows : Follows traced plain)
include follows

theorem unpackArray_follows (count : Nat) (i : Int) (entries : List Entry) :
    Follows (Traced.unpackArray traced count i entries) (unpackArray plain count i entries) := by
  induction count generalizing i entries with
  | zero => exact .pure entries
  | succ count inductionHypothesis => exact follows.bind fun element => inductionHypothesis _ _

theorem unpackHash_follows (fuel : Nat) (entries : List Entry) :
    Follows (Traced.unpackHash traced fuel entries) (unpackHash plain fuel entries) := by
  induction fuel generalizing entries with
  | zero => exact .throw _
  | succ fuel inductionHypothesis =>
      refine follows.bind fun key => ?_
      dsimp only
      split_ifs with ended
      · exact .pure entries
      · refine follows.bind fun value => ?_
        dsimp only
        cases rawset entries key value with
        | error message => exact .throw _
        | ok stored => exact inductionHypothesis stored

omit follows in
theorem unpackArraySize_follows (cookie : Nat) :
    Follows (Traced.unpackArraySize cookie) fun rb => unpackArraySize rb cookie := by
  unfold Traced.unpackArraySize unpackArraySize
  split_ifs with escape
  · refine (readWord_follows 1 437).bind fun type => ?_
    dsimp only
    split_ifs with wrong
    · exact .invalidStream 442
    · exact (getInteger_follows (type / 8)).bind fun size => .pure (int32Of size)
  · exact .pure _

theorem unpackTable_follows (cookie : Nat) :
    Follows (Traced.unpackTable rawlen traced cookie) fun rb =>
      unpackTable rawlen plain rb cookie := by
  unfold Traced.unpackTable unpackTable
  refine (unpackArraySize_follows cookie).bind fun arraySize => ?_
  refine (unpackArray_follows follows arraySize.toNat 1 []).bind fun array => ?_
  intro t
  have hash : Follows
      (Traced.unpackHash traced (t.rb.len.toNat + 1) array >>= fun entries =>
        pure (LuaValue.table none (rawlen entries) entries))
      (fun rb => unpackHash plain (t.rb.len.toNat + 1) array rb >>= fun out =>
        pure (LuaValue.table none (rawlen out.1) out.1, out.2)) :=
    (unpackHash_follows follows (t.rb.len.toNat + 1) array).bind fun entries => .pure _
  exact hash t

theorem pushValue_follows (type cookie : Nat) :
    Follows (Traced.pushValue rawlen traced type cookie) fun rb =>
      pushValue rawlen plain rb type cookie := by
  unfold Traced.pushValue pushValue
  split_ifs with nil boolean number real userdata short long two other table
  · exact .pure LuaValue.nil
  · exact .pure _
  · exact getReal_follows.bind fun bits => .pure (LuaValue.number bits)
  · exact (getInteger_follows cookie).bind fun value =>
      .pure (LuaValue.integer (LuaInteger.ofInt value))
  · exact getPointer_follows.bind fun address => .pure (LuaValue.lightuserdata address)
  · exact getBuffer_follows cookie
  · exact (readWord_follows 2 490).bind fun n => getBuffer_follows n
  · exact .invalidStream 497
  · exact (readWord_follows 4 501).bind fun n => getBuffer_follows (int32Of n)
  · exact unpackTable_follows rawlen follows cookie
  · exact .invalidStream 514

end Unpack

theorem unpackOne_follows (rawlen : List Entry → Nat) (fuel : Nat) :
    Follows (Traced.unpackOne rawlen fuel) (unpackOne rawlen fuel) := by
  induction fuel with
  | zero => exact .throw _
  | succ fuel inductionHypothesis =>
      exact (readWord_follows 1 525).bind fun type =>
        pushValue_follows rawlen inductionHypothesis (type % 8) (type / 8)

theorem unpackLoop_follows (rawlen : List Entry → Nat) (depth fuel : Nat) (t : Traced) :
    (Traced.unpackLoop rawlen depth fuel t).map Prod.fst =
      unpackLoop rawlen depth fuel t.rb := by
  induction fuel generalizing t with
  | zero => rfl
  | succ fuel inductionHypothesis =>
      unfold Traced.unpackLoop unpackLoop
      by_cases ended : t.rb.len < 1
      · rw [if_pos ended, read_missing ended]
        rfl
      · have word : Traced.readWord 1 525 t = .ok (leValue (t.rb.slice t.rb.ptr 1), t.past 1) :=
          Traced.readWord_found ended 525
        rw [if_neg ended, read_found ended]
        change ((Traced.readWord 1 525 t >>= fun made =>
          (Traced.pushValue rawlen (Traced.unpackOne rawlen depth) (made.1 % 8) (made.1 / 8)
            made.2) >>= fun made => (Traced.unpackLoop rawlen depth fuel made.2) >>= fun rest =>
              .ok (made.1 :: rest.1, rest.2)).map Prod.fst) = _
        rw [word]
        dsimp only
        generalize leValue (t.rb.slice t.rb.ptr 1) = type
        have value := pushValue_follows rawlen (unpackOne_follows rawlen depth) (type % 8) (type / 8)
          (t.past 1)
        change _ = pushValue rawlen (unpackOne rawlen depth) (t.rb.behind 1) _ _ at value
        rw [ok_bind, ← value]
        dsimp only
        cases Traced.pushValue rawlen (Traced.unpackOne rawlen depth) (type % 8) (type / 8) _ with
        | error failure => rfl
        | ok made =>
            have rest := inductionHypothesis made.2
            change Except.map _ (Traced.unpackLoop rawlen depth fuel made.2 >>= _) =
              (unpackLoop rawlen depth fuel made.2.rb >>= _)
            rw [← rest]
            cases Traced.unpackLoop rawlen depth fuel made.2 with
            | error failure => rfl
            | ok others => rfl

/-- The values of the traced decoder are those of the plain one. -/
theorem unpack_follows (rawlen : List Entry → Nat) (bytes : Bytes) :
    (Traced.unpack rawlen bytes).map Prod.fst = unpack rawlen (.string bytes) := by
  unfold Traced.unpack unpack unpackBuffer
  dsimp only
  split
  · rfl
  · refine Eq.trans ?_ (unpackLoop_follows rawlen _ _ { rb := ReadBlock.init bytes _ })
    cases Traced.unpackLoop rawlen _ _ _ with
    | error failure => rfl
    | ok made => rfl

end Following

end CrossOver.Lua
