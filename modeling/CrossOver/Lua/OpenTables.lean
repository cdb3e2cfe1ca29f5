import CrossOver.Lib.Deterministic
import CrossOver.Lib.Fuel
import CrossOver.Lua.Written

/-!
# The tables that are open in packed bytes

Packed bytes can be read from left to right with nothing in hand but the list of the
tables that are open.  `AtMostOpen` bounds that list at every place of the bytes; a table
counts also where the assignment that it belongs to leaves nothing behind.

The decoder is called as deep as tables are open: it gets along with `depth` calls inside
each other if and only if at most `depth` tables are open at once.
-/

namespace CrossOver.Lua

open CrossOver.Lib LuaValue

/-! ## Reading from left to right -/

/-- How many bytes an integer takes behind its header. -/
def integerWidth (cookie : Nat) : Option Nat :=
  if cookie = typeNumberZero then some 0
  else if cookie = typeNumberByte then some 1
  else if cookie = typeNumberWord then some 2
  else if cookie = typeNumberDword then some 4
  else if cookie = typeNumberQword then some 8
  else none

/-- How many bytes a value that is no table takes behind its header. -/
def flatWidth (type cookie : Nat) (rest : Bytes) : Option Nat :=
  if type = typeNil ∨ type = typeBoolean then some 0
  else if type = typeNumber then
    if cookie = typeNumberReal then some 8 else integerWidth cookie
  else if type = typeUserdata then some 8
  else if type = typeShortString then some cookie
  else if type = typeLongString then
    if cookie = 2 then
      if 2 ≤ rest.length then some (2 + leValue (rest.take 2)) else none
    else if cookie = 4 then
      if 4 ≤ rest.length ∧ 0 ≤ int32Of (leValue (rest.take 4)) then
        some (4 + (int32Of (leValue (rest.take 4))).toNat)
      else none
    else none
  else none

/-- The value of an integer, as an `int`. -/
def integerAt (cookie : Nat) (bytes : Bytes) : Int :=
  if cookie = typeNumberDword then int32Of (signed 4 (leValue bytes))
  else if cookie = typeNumberQword then int32Of (signed 8 (leValue bytes))
  else int32Of (leValue bytes)

def arraySizeAt (cookie : Nat) (rest : Bytes) : Option (Nat × Bytes) :=
  if cookie = maxCookie - 1 then
    match rest with
    | [] => none
    | header :: rest =>
        if header.toNat % 8 = typeNumber then
          match integerWidth (header.toNat / 8) with
          | none => none
          | some width =>
              if width ≤ rest.length then
                some ((integerAt (header.toNat / 8) (rest.take width)).toNat, rest.drop width)
              else none
        else none
  else some (cookie, rest)

/-- What stands at the front of bytes: a value without tables, or the header of a table. -/
inductive Front where
  | flat (isNil isKey : Bool)
  | table (arraySize : Nat)
  deriving DecidableEq, Repr

/-- Only nil and a double that is not a number are no keys. -/
def keyAt (type cookie : Nat) (rest : Bytes) : Bool :=
  type ≠ typeNil && !(type == typeNumber && cookie == typeNumberReal &&
    isNaN (UInt64.ofNat (leValue (rest.take 8))))

def front : Bytes → Option (Front × Bytes)
  | [] => none
  | header :: rest =>
      let type := header.toNat % 8
      let cookie := header.toNat / 8
      if type = typeTable then
        (arraySizeAt cookie rest).map fun size => (.table size.1, size.2)
      else
        match flatWidth type cookie rest with
        | none => none
        | some width =>
            if width ≤ rest.length then
              some (.flat (type = typeNil) (keyAt type cookie rest), rest.drop width)
            else none

/-- What comes next in an open table: one of the elements of the array part that are left,
or a key, or the end; the value of a key; or nothing, since there was no key. -/
inductive Awaits where
  | elements (left : Nat)
  | value (isKey : Bool)
  | refused
  deriving DecidableEq, Repr

/-- What comes next behind a value; at the end the table is closed. -/
def received (isNil isKey : Bool) : List Awaits → List Awaits
  | .elements (left + 1) :: opened => .elements left :: opened
  | .elements 0 :: opened => if isNil then opened else .value isKey :: opened
  | .value true :: opened => .elements 0 :: opened
  | .value false :: opened => .refused :: opened
  | opened => opened

/-- The open tables, the innermost one first, and what is still to be read. -/
structure Scan where
  opened : List Awaits
  rest : Bytes

/-- What is open behind what has been read. -/
def Awaits.behind (opened : List Awaits) : Front → List Awaits
  | .flat isNil isKey => received isNil isKey opened
  | .table arraySize => .elements arraySize :: received false true opened

/-- Read on. -/
def Scan.turn (scan : Scan) : Option Scan :=
  if scan.opened.head? = some .refused then none
  else (front scan.rest).map fun read => ⟨Awaits.behind scan.opened read.1, read.2⟩

/-- At no place more tables are open. -/
def Scan.AtMostOpen (depth : Nat) (scan : Scan) : Prop :=
  Throughout Scan.turn (fun there => there.opened.length ≤ depth) scan

def lookedAt (bytes : Bytes) : Bytes := bytes.take (int32Of bytes.length).toNat

/-- At no place of the bytes more tables are open. -/
def AtMostOpen (depth : Nat) (bytes : Bytes) : Prop :=
  Scan.AtMostOpen depth ⟨[], lookedAt bytes⟩

/-! ## What the decoder reads -/

/-- The bytes that a read block still has to read. -/
structure Stands (rb : ReadBlock) (bytes : Bytes) : Prop where
  ptr : 0 ≤ rb.ptr
  len : rb.len = bytes.length
  held : bytes <+: rb.buffer.drop rb.ptr.toNat

/-- A reader takes so many bytes and gets a good value, or it raises an error. -/
def Takes {Value : Type} (result : Except Failure (Value × ReadBlock)) (bytes : Bytes)
    (good : Value → Prop) (width : Option Nat) : Prop :=
  (∃ taken value next, width = some taken ∧ taken ≤ bytes.length ∧ result = .ok (value, next) ∧
      Stands next (bytes.drop taken) ∧ good value) ∨
    (∀ taken, width = some taken → bytes.length < taken) ∧
      ∃ message, result = .error (.luaError message)

section Flat

variable {rb : ReadBlock} {bytes : Bytes}

theorem Takes.refused {Value : Type} {good : Value → Prop} {message : String} :
    Takes (.error (.luaError message)) bytes good none := by
  refine .inr ⟨fun taken absurdity => ?_, message, rfl⟩
  cases absurdity

theorem Stands.read (stands : Stands rb bytes) {width : Nat} (enough : width ≤ bytes.length) :
    ∃ next, rb.read width = some (rb.ptr, next) ∧ rb.slice rb.ptr width = bytes.take width ∧
      Stands next (bytes.drop width) := by
  have positive := stands.ptr
  have length := stands.len
  rcases stands.held with ⟨after, held⟩
  refine ⟨{ rb with ptr := rb.ptr + width, len := rb.len - width }, ?_, ?_, ?_, ?_, ?_⟩
  · rw [ReadBlock.read, if_neg (by omega)]
  · rw [ReadBlock.slice, ← held, List.take_append_of_le_length enough]
  · change 0 ≤ rb.ptr + width
    omega
  · change rb.len - width = (bytes.drop width).length
    rw [List.length_drop]
    omega
  · have offset : (rb.ptr + width).toNat = rb.ptr.toNat + width := by omega
    change bytes.drop width <+: rb.buffer.drop (rb.ptr + width).toNat
    rw [offset, ← List.drop_drop, ← held, List.drop_append_of_le_length enough]
    exact List.prefix_append _ _

theorem Stands.read_none (stands : Stands rb bytes) {width : Nat} (less : bytes.length < width) :
    rb.read width = none := by
  have length := stands.len
  rw [ReadBlock.read, if_pos (by omega)]

theorem readWord_takes (stands : Stands rb bytes) (width line : Nat) :
    Takes (readWord rb width line) bytes (fun n => n = leValue (bytes.take width))
      (some width) := by
  rcases Nat.lt_or_ge bytes.length width with less | enough
  · refine .inr ⟨fun taken same => ?_, ?_⟩
    · cases same
      exact less
    · exact ⟨_, by rw [readWord, stands.read_none less]; rfl⟩
  · rcases stands.read enough with ⟨next, read, slice, behind⟩
    refine .inl ⟨width, _, next, rfl, enough, ?_, behind, rfl⟩
    rw [readWord, read]
    dsimp only
    rw [slice]

theorem Takes.map {First Second : Type} {result : Except Failure (First × ReadBlock)}
    {good : First → Prop} {fine : Second → Prop} {width : Option Nat} {f : First → Second}
    (takes : Takes result bytes good width) (implies : ∀ value, good value → fine (f value)) :
    Takes (result >>= fun read => pure (f read.1, read.2)) bytes fine width := by
  rcases takes with ⟨taken, value, next, same, enough, rfl, behind, holds⟩ | ⟨short, message, rfl⟩
  · exact .inl ⟨taken, f value, next, same, enough, rfl, behind, implies value holds⟩
  · exact .inr ⟨short, message, rfl⟩

theorem Takes.mono {Value : Type} {result : Except Failure (Value × ReadBlock)}
    {good fine : Value → Prop} {width : Option Nat} (takes : Takes result bytes good width)
    (implies : ∀ value, good value → fine value) : Takes result bytes fine width := by
  rcases takes with ⟨taken, value, next, same, enough, ran, behind, holds⟩ | failed
  · exact .inl ⟨taken, value, next, same, enough, ran, behind, implies value holds⟩
  · exact .inr failed

theorem getInteger_takes (stands : Stands rb bytes) (cookie : Nat) :
    Takes (getInteger rb cookie) bytes
      (fun value => int32Of value =
        integerAt cookie (bytes.take ((integerWidth cookie).getD 0))) (integerWidth cookie) := by
  unfold getInteger integerWidth
  split_ifs with zero byte word dword qword
  · refine .inl ⟨0, 0, rb, rfl, Nat.zero_le _, rfl, stands, ?_⟩
    rw [zero, Option.getD_some, List.take_zero]
    decide
  · refine (readWord_takes stands 1 365).map fun n same => ?_
    rw [integerAt, if_neg (by subst byte; decide), if_neg (by subst byte; decide), same,
      Option.getD_some]
  · refine (readWord_takes stands 2 373).map fun n same => ?_
    rw [integerAt, if_neg (by subst word; decide), if_neg (by subst word; decide), same,
      Option.getD_some]
  · refine (readWord_takes stands 4 381).map fun n same => ?_
    rw [integerAt, if_pos dword, same, Option.getD_some]
  · refine (readWord_takes stands 8 389).map fun n same => ?_
    rw [integerAt, if_neg dword, if_pos qword, same, Option.getD_some]
  · exact .refused

theorem getReal_takes (stands : Stands rb bytes) :
    Takes (getReal rb) bytes (fun bits => bits = UInt64.ofNat (leValue (bytes.take 8)))
      (some 8) :=
  (readWord_takes stands 8 404).map (f := UInt64.ofNat) fun _ same => congrArg UInt64.ofNat same

theorem getPointer_takes (stands : Stands rb bytes) :
    Takes (getPointer rb) bytes (fun _ => True) (some 8) :=
  (readWord_takes stands 8 414).map (f := UInt64.ofNat) fun _ _ => trivial

theorem getBuffer_takes (stands : Stands rb bytes) (len : Nat) :
    Takes (getBuffer rb len) bytes (fun value => ∃ str, value = .string str) (some len) := by
  rcases Nat.lt_or_ge bytes.length len with less | enough
  · refine .inr ⟨fun taken same => ?_, ?_⟩
    · cases same
      exact less
    · exact ⟨_, by rw [getBuffer, stands.read_none less]; rfl⟩
  · rcases stands.read enough with ⟨next, read, slice, behind⟩
    refine .inl ⟨len, .string (bytes.take len), next, rfl, enough, ?_, behind, _, rfl⟩
    rw [getBuffer, read]
    dsimp only
    rw [if_neg (by omega), Int.toNat_natCast, slice]

theorem longString_takes (stands : Stands rb bytes) (width line : Nat) (toLen : Nat → Int) :
    Takes (readWord rb width line >>= fun read => getBuffer read.2 (toLen read.1)) bytes
      (fun value => ∃ str, value = .string str)
      (if width ≤ bytes.length ∧ 0 ≤ toLen (leValue (bytes.take width)) then
        some (width + (toLen (leValue (bytes.take width))).toNat) else none) := by
  rcases readWord_takes stands width line with
    ⟨taken, n, next, same, enough, read, behind, rfl⟩ | ⟨short, message, read⟩
  · cases same
    rw [read, ok_bind]
    dsimp only
    generalize toLen (leValue (bytes.take width)) = len
    by_cases negative : len < 0
    · rw [if_neg (fun both => absurd both.2 (not_le.mpr negative))]
      unfold getBuffer
      cases next.read len with
      | none => exact .refused
      | some found =>
          dsimp only
          rw [if_pos negative]
          exact .refused
    · rw [if_pos ⟨enough, not_lt.mp negative⟩]
      obtain ⟨count, rfl⟩ := Int.eq_ofNat_of_zero_le (not_lt.mp negative)
      rcases getBuffer_takes behind count with
        ⟨taken, value, last, same, more, got, ahead, str, rfl⟩ | ⟨short, message, got⟩
      · cases same
        rw [List.length_drop] at more
        rw [List.drop_drop] at ahead
        exact .inl ⟨width + count, _, last, rfl, by omega, got, ahead, str, rfl⟩
      · have less := short count rfl
        rw [List.length_drop] at less
        refine .inr ⟨fun taken whole => ?_, message, got⟩
        cases whole
        rw [Int.toNat_natCast]
        omega
  · have less := short width rfl
    rw [if_neg (fun both => absurd both.1 (not_le.mpr less)), read]
    exact .refused

theorem floatToInteger_nan {bits : UInt64} (nan : isNaN bits = true) :
    floatToInteger bits = none := by
  simp only [isNaN, Bool.and_eq_true, beq_iff_eq] at nan
  simp only [floatToInteger, nan.1]
  exact rfl

/-- A double that is not a number is the only one without a slot. -/
theorem normalizeKey_number (bits : UInt64) :
    (LuaValue.number bits).normalizeKey.toBool = !isNaN bits := by
  simp only [normalizeKey]
  cases nan : isNaN bits with
  | false => cases floatToInteger bits <;> exact rfl
  | true =>
      rw [floatToInteger_nan nan]
      exact rfl

theorem keyAt_of_ne {type cookie : Nat} (notNil : type ≠ typeNil) (notNumber : type ≠ typeNumber) :
    keyAt type cookie bytes = true := by
  simp [keyAt, notNil, notNumber]

theorem pushValue_takes (stands : Stands rb bytes) {type : Nat} (flat : type ≠ typeTable)
    (cookie : Nat) :
    Takes (pushValue (fun _ => 0) (fun _ => .error .outOfFuel) rb type cookie) bytes
      (fun value => value.isNil = decide (type = typeNil) ∧
        value.normalizeKey.toBool = keyAt type cookie bytes) (flatWidth type cookie bytes) := by
  unfold pushValue flatWidth
  by_cases nil : type = typeNil
  · rw [if_pos nil, if_pos (.inl nil)]
    subst nil
    exact .inl ⟨0, .nil, rb, rfl, Nat.zero_le _, rfl, stands, rfl, rfl⟩
  by_cases boolean : type = typeBoolean
  · rw [if_neg nil, if_pos boolean, if_pos (.inr boolean)]
    subst boolean
    exact .inl ⟨0, .boolean (cookie != 0), rb, rfl, Nat.zero_le _, rfl, stands, rfl, rfl⟩
  rw [if_neg nil, if_neg boolean, if_neg (not_or.mpr ⟨nil, boolean⟩), decide_eq_false nil]
  by_cases number : type = typeNumber
  · rw [if_pos number, if_pos number]
    subst number
    split
    case isTrue real =>
        subst real
        refine (getReal_takes stands).map (f := LuaValue.number) fun bits same => ⟨rfl, ?_⟩
        rw [normalizeKey_number, same]
        exact rfl
    case isFalse unreal =>
        refine (getInteger_takes stands cookie).map
          (f := fun value => LuaValue.integer (LuaInteger.ofInt value)) fun value _ => ⟨rfl, ?_⟩
        simp only [normalizeKey, keyAt, beq_eq_false_iff_ne.mpr unreal, Bool.and_false,
          Bool.false_and]
        exact rfl
  · rw [if_neg number, if_neg number]
    have isKey : keyAt type cookie bytes = true := keyAt_of_ne nil number
    rw [isKey]
    have isString (value : LuaValue) (made : ∃ str, value = .string str) :
        value.isNil = false ∧ value.normalizeKey.toBool = true := by
      obtain ⟨str, rfl⟩ := made
      exact ⟨rfl, rfl⟩
    by_cases userdata : type = typeUserdata
    · rw [if_pos userdata, if_pos userdata]
      exact (getPointer_takes stands).map (f := LuaValue.lightuserdata) fun _ _ => ⟨rfl, rfl⟩
    rw [if_neg userdata, if_neg userdata]
    by_cases short : type = typeShortString
    · rw [if_pos short, if_pos short]
      exact (getBuffer_takes stands cookie).mono isString
    rw [if_neg short, if_neg short]
    by_cases long : type = typeLongString
    · rw [if_pos long, if_pos long]
      by_cases two : cookie = 2
      · rw [if_pos two, if_pos two]
        have takes := longString_takes stands 2 490 Nat.cast
        simp only [Int.natCast_nonneg, and_true, Int.toNat_natCast] at takes
        exact takes.mono isString
      rw [if_neg two, if_neg two]
      by_cases four : cookie = 4
      · rw [if_neg (not_not.mpr four), if_pos four]
        exact (longString_takes stands 4 501 fun n => int32Of n).mono isString
      · rw [if_pos four, if_neg four]
        exact .refused
    · rw [if_neg long, if_neg long, if_neg flat]
      exact .refused

theorem leValue_singleton (header : UInt8) : leValue [header] = header.toNat := by
  simp [leValue]

theorem readHeader_stands {header : UInt8} (stands : Stands rb (header :: bytes)) (line : Nat) :
    ∃ next, readWord rb 1 line = .ok (header.toNat, next) ∧ Stands next bytes := by
  rcases readWord_takes stands 1 line with
    ⟨taken, n, next, same, -, read, behind, rfl⟩ | ⟨short, -⟩
  · cases same
    rw [List.take_succ_cons, List.take_zero, leValue_singleton] at read
    exact ⟨next, read, behind⟩
  · exact absurd (short 1 rfl) (by simp)

theorem readHeader_end (stands : Stands rb []) (line : Nat) :
    ∃ message, readWord rb 1 line = .error (.luaError message) := by
  rcases readWord_takes stands 1 line with ⟨taken, n, next, same, enough, -⟩ | ⟨-, failed⟩
  · cases same
    exact absurd enough (by decide)
  · exact failed

theorem unpackArraySize_stands (stands : Stands rb bytes) (cookie : Nat) :
    (∃ size next behind, unpackArraySize rb cookie = .ok (size, next) ∧ Stands next behind ∧
        behind.length ≤ bytes.length ∧ arraySizeAt cookie bytes = some (size.toNat, behind)) ∨
      (∃ message, unpackArraySize rb cookie = .error (.luaError message)) ∧
        arraySizeAt cookie bytes = none := by
  unfold unpackArraySize arraySizeAt
  split
  case isFalse => exact .inl ⟨cookie, rb, bytes, rfl, stands, le_rfl, rfl⟩
  case isTrue =>
      cases bytes with
      | nil =>
          rcases readHeader_end stands 437 with ⟨message, read⟩
          rw [read]
          exact .inr ⟨⟨message, rfl⟩, rfl⟩
      | cons header rest =>
          rcases readHeader_stands stands 437 with ⟨next, read, behind⟩
          rw [read, ok_bind]
          dsimp only
          by_cases number : header.toNat % 8 = typeNumber
          · rw [if_pos number]
            by_cases real : header.toNat / 8 = typeNumberReal
            · rw [if_pos (.inr real), real]
              exact .inr ⟨⟨_, rfl⟩, rfl⟩
            · rw [if_neg (not_or.mpr ⟨not_not.mpr number, real⟩)]
              rcases getInteger_takes behind (header.toNat / 8) with
                ⟨width, value, last, known, enough, got, ahead, same⟩ | ⟨short, message, got⟩
              · rw [known] at same ⊢
                rw [Option.getD_some] at same
                rw [got, ok_bind]
                dsimp only
                rw [if_pos enough, ← same]
                refine .inl ⟨_, last, _, rfl, ahead, ?_, rfl⟩
                rw [List.length_drop, List.length_cons]
                omega
              · rw [got]
                refine .inr ⟨⟨message, rfl⟩, ?_⟩
                cases known : integerWidth (header.toNat / 8) with
                | none => exact rfl
                | some width =>
                    dsimp only
                    rw [if_neg (not_le.mpr (short width known))]
          · rw [if_neg number, if_pos (.inl number)]
            exact .inr ⟨⟨_, rfl⟩, rfl⟩

end Flat

/-! ## Tables and calls -/

section Turns

variable {depth : Nat} {opened : List Awaits} {rest behind : Bytes}

theorem received_length (isKey : Bool) (opened : List Awaits) :
    (received false isKey opened).length = opened.length := by
  rcases opened with _ | ⟨⟨_ | left⟩ | ⟨_ | _⟩ | _, opened⟩ <;> rfl

theorem atMostOpen_front {read : Front} (alive : opened.head? ≠ some .refused)
    (stands : front rest = some (read, behind)) (within : opened.length ≤ depth) :
    Scan.AtMostOpen depth ⟨opened, rest⟩ ↔
      Scan.AtMostOpen depth ⟨Awaits.behind opened read, behind⟩ := by
  have next : Scan.turn ⟨opened, rest⟩ = some ⟨Awaits.behind opened read, behind⟩ := by
    rw [Scan.turn, if_neg alive, stands]
    exact rfl
  rw [Scan.AtMostOpen, throughout_some next]
  exact and_iff_right within

theorem atMostOpen_stuck (stuck : front rest = none) (within : opened.length ≤ depth) :
    Scan.AtMostOpen depth ⟨opened, rest⟩ := by
  refine (throughout_none ?_).mpr within
  rw [Scan.turn, stuck]
  exact ite_self none

theorem atMostOpen_refused (within : opened.length + 1 ≤ depth) :
    Scan.AtMostOpen depth ⟨.refused :: opened, rest⟩ := by
  have stuck : Scan.turn ⟨.refused :: opened, rest⟩ = none := if_pos rfl
  exact (throughout_none stuck).mpr within

/-- A reader agrees with reading on: where it has got a value the open tables are the later
ones, and it runs out of calls exactly where too many tables are open. -/
inductive Agrees {Value : Type} (depth : Nat) (scan : Scan) (least : Nat)
    (later : Value → List Awaits) : Except Failure (Value × ReadBlock) → Prop where
  | read {value : Value} {rb : ReadBlock} {rest : Bytes} : Stands rb rest →
      rest.length + least ≤ scan.rest.length →
      (scan.AtMostOpen depth ↔ Scan.AtMostOpen depth ⟨later value, rest⟩) →
      Agrees depth scan least later (.ok (value, rb))
  | tooDeep : ¬ scan.AtMostOpen depth → Agrees depth scan least later (.error .outOfFuel)
  | refused {message : String} : scan.AtMostOpen depth →
      Agrees depth scan least later (.error (.luaError message))

theorem Agrees.onward {Value : Type} {scan there : Scan} {least : Nat}
    {later : Value → List Awaits} {result : Except Failure (Value × ReadBlock)}
    (agrees : Agrees depth there 0 later result)
    (same : scan.AtMostOpen depth ↔ there.AtMostOpen depth)
    (shorter : there.rest.length + least ≤ scan.rest.length) :
    Agrees depth scan least later result := by
  cases agrees with
  | read stands less next => exact .read stands (by omega) (same.trans next)
  | tooDeep deep => exact .tooDeep (mt same.mp deep)
  | refused within => exact .refused (same.mpr within)

theorem Agrees.bind {First Second : Type} {scan : Scan} {least : Nat}
    {later : First → List Awaits} {last : Second → List Awaits}
    {x : Except Failure (First × ReadBlock)}
    {f : First × ReadBlock → Except Failure (Second × ReadBlock)}
    (first : Agrees depth scan least later x)
    (second : ∀ value rb rest, x = .ok (value, rb) → Stands rb rest →
      rest.length + least ≤ scan.rest.length →
      Agrees depth ⟨later value, rest⟩ 0 last (f (value, rb))) :
    Agrees depth scan least last (x >>= f) := by
  cases first with
  | read stands less next => exact (second _ _ _ rfl stands less).onward next less
  | tooDeep deep => exact .tooDeep deep
  | refused within => exact .refused within

theorem Agrees.mono {Value : Type} {scan : Scan} {least fewer : Nat}
    {later : Value → List Awaits} {result : Except Failure (Value × ReadBlock)}
    (agrees : Agrees depth scan least later result) (less : fewer ≤ least) :
    Agrees depth scan fewer later result := by
  cases agrees with
  | read stands shorter next => exact .read stands (by omega) next
  | tooDeep deep => exact .tooDeep deep
  | refused within => exact .refused within

/-- Whether `lua_rawset` takes the key. -/
def Written.isKey (w : Written) : Bool := w.slot.toBool

/-- A reader of values inside of `count` tables. -/
structure KeepsUp (depth count : Nat)
    (reader : ReadBlock → Except Failure (Written × ReadBlock)) : Prop where
  agrees : ∀ opened rb rest, opened.length = count → opened.head? ≠ some .refused →
    Stands rb rest →
    Agrees depth ⟨opened, rest⟩ 1 (fun w => received w.isNil w.isKey opened) (reader rb)
  shallow : ∀ rb made, reader rb = .ok made → count ≤ depth

variable {reader : ReadBlock → Except Failure (Written × ReadBlock)} {rb : ReadBlock}

theorem writtenArray_agrees (keepsUp : KeepsUp depth (opened.length + 1) reader) (count : Nat)
    (i : Int) (stands : Stands rb rest) :
    Agrees depth ⟨.elements count :: opened, rest⟩ 0 (fun _ => .elements 0 :: opened)
      (writtenArray reader count i rb) := by
  induction count generalizing i rb rest with
  | zero => exact .read stands le_rfl Iff.rfl
  | succ count inductionHypothesis =>
      have element := keepsUp.agrees (.elements (count + 1) :: opened) rb rest rfl
        (by simp) stands
      refine (element.bind fun w next behind _ there _ => ?_).mono (Nat.zero_le _)
      exact (inductionHypothesis (i + 1) there).bind fun others last ahead _ stands' _ =>
        .read stands' le_rfl Iff.rfl

theorem writtenHash_agrees (keepsUp : KeepsUp depth (opened.length + 1) reader) {fuel : Nat}
    (enough : rest.length < fuel) (stands : Stands rb rest) :
    Agrees depth ⟨.elements 0 :: opened, rest⟩ 0 (fun _ => opened)
      (writtenHash reader fuel rb) := by
  induction fuel generalizing rb rest with
  | zero => exact absurd enough (Nat.not_lt_zero _)
  | succ fuel inductionHypothesis =>
      have key := keepsUp.agrees (.elements 0 :: opened) rb rest rfl (by simp) stands
      refine (key.bind fun w next behind _ there less => ?_).mono (Nat.zero_le 1)
      dsimp only at less ⊢
      cases ended : w.isNil with
      | true =>
          rw [if_pos rfl]
          exact .read there le_rfl Iff.rfl
      | false =>
          rw [if_neg Bool.false_ne_true]
          have value := keepsUp.agrees (.value w.isKey :: opened) next behind rfl (by simp) there
          refine (value.bind fun v last ahead ran stands' fewer => ?_).mono (Nat.zero_le 1)
          dsimp only at fewer ⊢
          cases slot : w.slot with
          | error message =>
              have isKey : w.isKey = false := by rw [Written.isKey, slot]; exact rfl
              rw [isKey]
              exact .refused (atMostOpen_refused (keepsUp.shallow _ _ ran))
          | ok stored =>
              have isKey : w.isKey = true := by rw [Written.isKey, slot]; exact rfl
              rw [isKey]
              exact (inductionHypothesis (by omega) stands').bind fun others final beyond _ whole _ =>
                .read whole le_rfl Iff.rfl

theorem writtenTable_agrees (keepsUp : KeepsUp depth (opened.length + 1) reader)
    (alive : opened.head? ≠ some .refused) (within : opened.length ≤ depth) {header : UInt8}
    (table : header.toNat % 8 = typeTable) (stands : Stands rb rest) :
    Agrees depth ⟨opened, header :: rest⟩ 1 (fun w => received w.isNil w.isKey opened)
      (writtenTable reader rb (header.toNat / 8)) := by
  have found : front (header :: rest) =
      (arraySizeAt (header.toNat / 8) rest).map fun size => (.table size.1, size.2) := if_pos table
  unfold writtenTable
  rcases unpackArraySize_stands stands (header.toNat / 8) with
    ⟨size, next, behind, read, there, less, known⟩ | ⟨⟨message, read⟩, unknown⟩
  · rw [known] at found
    have inner : KeepsUp depth ((received false true opened).length + 1) reader := by
      rwa [received_length]
    rw [read, ok_bind]
    dsimp only
    refine Agrees.onward ?_ (atMostOpen_front alive found within) (Nat.succ_le_succ less)
    refine (writtenArray_agrees inner size.toNat 1 there).bind fun array last ahead _ stands' _ => ?_
    have enough : ahead.length < last.len.toNat + 1 := by
      rw [stands'.len]
      exact Nat.lt_succ_self _
    exact (writtenHash_agrees inner enough stands').bind fun hash final beyond _ whole _ =>
      .read whole le_rfl Iff.rfl
  · rw [unknown] at found
    rw [read]
    exact .refused (atMostOpen_stuck found within)

theorem writtenValue_agrees (keepsUp : KeepsUp depth (opened.length + 1) reader)
    (alive : opened.head? ≠ some .refused) (within : opened.length ≤ depth) (header : UInt8)
    (stands : Stands rb rest) :
    Agrees depth ⟨opened, header :: rest⟩ 1 (fun w => received w.isNil w.isKey opened)
      (writtenValue reader rb (header.toNat % 8) (header.toNat / 8)) := by
  unfold writtenValue
  by_cases table : header.toNat % 8 = typeTable
  · rw [if_pos table]
    exact writtenTable_agrees keepsUp alive within table stands
  · rw [if_neg table]
    rcases pushValue_takes stands table (header.toNat / 8) with
      ⟨width, value, next, known, enough, read, there, isNil, isKey⟩ | ⟨short, message, read⟩
    · have found : front (header :: rest) =
          some (.flat value.isNil value.normalizeKey.toBool, rest.drop width) := by
        simp only [front, if_neg table, known, if_pos enough, isNil, isKey]
      rw [read, ok_bind]
      refine .read there ?_ (atMostOpen_front alive found within)
      change (rest.drop width).length + 1 ≤ rest.length + 1
      rw [List.length_drop]
      omega
    · have stuck : front (header :: rest) = none := by
        simp only [front, if_neg table]
        cases known : flatWidth (header.toNat % 8) (header.toNat / 8) rest with
        | none => exact rfl
        | some width => exact if_neg (not_le.mpr (short width known))
      rw [read]
      exact .refused (atMostOpen_stuck stuck within)

/-- So many calls inside each other are enough for so many tables inside each other. -/
theorem writtenOne_keepsUp {fuel count : Nat} (calls : fuel + count = depth + 1) :
    KeepsUp depth count (writtenOne fuel) := by
  induction fuel generalizing count with
  | zero =>
      refine ⟨fun opened rb rest length _ _ => .tooDeep fun within => ?_, fun rb made ran => ?_⟩
      · have here : opened.length ≤ depth := within.here
        omega
      · cases ran
  | succ fuel inductionHypothesis =>
      refine ⟨fun opened rb rest length alive stands => ?_, fun rb made ran => by omega⟩
      have within : opened.length ≤ depth := by omega
      rw [writtenOne]
      cases rest with
      | nil =>
          rcases readHeader_end stands 525 with ⟨message, read⟩
          rw [read]
          exact .refused (atMostOpen_stuck rfl within)
      | cons header rest =>
          rcases readHeader_stands stands 525 with ⟨next, read, there⟩
          rw [read, ok_bind]
          exact writtenValue_agrees (inductionHypothesis (by omega)) alive within header there

/-- The loop runs out of calls exactly where too many tables are open. -/
theorem writtenLoop_agrees (depth : Nat) {fuel : Nat} (enough : rest.length < fuel)
    (stands : Stands rb rest) :
    writtenLoop depth fuel rb ≠ .error .outOfFuel ↔ Scan.AtMostOpen depth ⟨[], rest⟩ := by
  induction fuel generalizing rb rest with
  | zero => exact absurd enough (Nat.not_lt_zero _)
  | succ fuel inductionHypothesis =>
      rw [writtenLoop]
      cases rest with
      | nil =>
          have ended : rb.read 1 = none := stands.read_none (Nat.lt_succ_self _)
          rw [ended]
          refine iff_of_true (fun absurdity => ?_) (atMostOpen_stuck rfl (Nat.zero_le _))
          cases absurdity
      | cons header rest =>
          have one : 1 ≤ (header :: rest).length := Nat.succ_le_succ (Nat.zero_le _)
          rcases stands.read one with ⟨next, found, slice, there⟩
          have read : rb.read 1 = some (rb.ptr, next) := found
          have isHeader : leValue (rb.slice rb.ptr 1) = header.toNat := by
            rw [slice, List.take_succ_cons, List.take_zero, leValue_singleton]
          rw [read]
          dsimp only
          rw [isHeader]
          have alive : ([] : List Awaits).head? ≠ some .refused := fun absurdity => by
            cases absurdity
          have keepsUp : KeepsUp depth 1 (writtenOne depth) := writtenOne_keepsUp rfl
          have agrees : Agrees depth ⟨[], header :: rest⟩ 1 (fun _ => [])
              (writtenValue (writtenOne depth) next (header.toNat % 8) (header.toNat / 8)) :=
            writtenValue_agrees keepsUp alive (Nat.zero_le depth) header there
          generalize writtenValue (writtenOne depth) next (header.toNat % 8) (header.toNat / 8) =
            outcome at agrees ⊢
          cases agrees with
          | @read value last behind stands' less same =>
              rw [same, ok_bind]
              refine Iff.trans ?_ (inductionHypothesis (by simp at enough less; omega) stands')
              cases writtenLoop depth fuel last with
              | error failure => exact Iff.rfl
              | ok values =>
                  refine iff_of_true (fun absurdity => ?_) fun absurdity => ?_ <;> cases absurdity
          | tooDeep deep => exact iff_of_false (fun more => more rfl) deep
          | refused within =>
              refine iff_of_true (fun absurdity => ?_) within
              cases absurdity

end Turns

/-! ## More calls -/

section Calls

variable {reader longer : ReadBlock → Except Failure (Written × ReadBlock)}

/-- The one reader does what the other one does, unless that runs out of calls. -/
def Exceeds (longer reader : ReadBlock → Except Failure (Written × ReadBlock)) : Prop :=
  ∀ rb, reader rb ≠ .error .outOfFuel → longer rb = reader rb

theorem writtenArray_exceeds (exceeds : Exceeds longer reader) (count : Nat) (i : Int)
    (rb : ReadBlock) (ended : writtenArray reader count i rb ≠ .error .outOfFuel) :
    writtenArray longer count i rb = writtenArray reader count i rb := by
  induction count generalizing i rb with
  | zero => exact rfl
  | succ count inductionHypothesis =>
      refine bind_outlasts ended (exceeds rb) fun element ended => ?_
      exact bind_outlasts ended (inductionHypothesis _ _) fun _ _ => rfl

theorem writtenHash_exceeds (exceeds : Exceeds longer reader) (fuel : Nat) (rb : ReadBlock)
    (ended : writtenHash reader fuel rb ≠ .error .outOfFuel) :
    writtenHash longer fuel rb = writtenHash reader fuel rb := by
  induction fuel generalizing rb with
  | zero => exact rfl
  | succ fuel inductionHypothesis =>
      refine bind_outlasts ended (exceeds rb) fun key ended => ?_
      dsimp only at ended ⊢
      split at ended
      case isTrue isNil => rw [if_pos isNil, if_pos isNil]
      case isFalse filled =>
          rw [if_neg filled, if_neg filled]
          refine bind_outlasts ended (exceeds key.2) fun value ended => ?_
          cases slot : key.1.slot with
          | error message => exact rfl
          | ok stored =>
              rw [slot] at ended
              exact bind_outlasts ended (inductionHypothesis _) fun _ _ => rfl

theorem writtenValue_exceeds (exceeds : Exceeds longer reader) (rb : ReadBlock)
    (type cookie : Nat) (ended : writtenValue reader rb type cookie ≠ .error .outOfFuel) :
    writtenValue longer rb type cookie = writtenValue reader rb type cookie := by
  unfold writtenValue at ended ⊢
  split at ended
  case isFalse flat => rw [if_neg flat, if_neg flat]
  case isTrue table =>
      rw [if_pos table, if_pos table]
      refine bind_outlasts ended (fun _ => rfl) fun size ended => ?_
      refine bind_outlasts ended (writtenArray_exceeds exceeds _ _ _) fun array ended => ?_
      exact bind_outlasts ended (writtenHash_exceeds exceeds _ _) fun _ _ => rfl

theorem writtenOne_exceeds (fuel : Nat) : Exceeds (writtenOne (fuel + 1)) (writtenOne fuel) := by
  induction fuel with
  | zero => exact fun rb ended => absurd rfl ended
  | succ fuel inductionHypothesis =>
      intro rb ended
      refine bind_outlasts ended (fun _ => rfl) fun header ended => ?_
      exact writtenValue_exceeds inductionHypothesis _ _ _ ended

theorem writtenLoop_exceeds (depth fuel : Nat) (rb : ReadBlock)
    (ended : writtenLoop depth fuel rb ≠ .error .outOfFuel) :
    writtenLoop (depth + 1) fuel rb = writtenLoop depth fuel rb := by
  induction fuel generalizing rb with
  | zero => exact rfl
  | succ fuel inductionHypothesis =>
      rw [writtenLoop] at ended ⊢
      cases found : rb.read 1 with
      | none =>
          rw [writtenLoop, found]
      | some header =>
          rw [writtenLoop, found]
          rw [found] at ended
          refine bind_outlasts ended
            (writtenValue_exceeds (writtenOne_exceeds depth) _ _ _) fun value ended => ?_
          exact bind_outlasts ended (inductionHypothesis _) fun _ _ => rfl

/-- Where two numbers of calls are enough the results are the same. -/
theorem writtenLoop_same {depth more fuel : Nat} {rb : ReadBlock} (less : depth ≤ more)
    (ended : writtenLoop depth fuel rb ≠ .error .outOfFuel) :
    writtenLoop more fuel rb = writtenLoop depth fuel rb := by
  induction more, less using Nat.le_induction with
  | base => exact rfl
  | succ more less inductionHypothesis =>
      rw [writtenLoop_exceeds more fuel rb (inductionHypothesis ▸ ended), inductionHypothesis]

end Calls

end CrossOver.Lua
