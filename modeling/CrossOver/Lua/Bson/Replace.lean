import CrossOver.Lua.Bson.Slots

/-!
# `lua_bson`: writing over a field

`lreplace` takes the type and the place of a field out of the index of the document
and writes the bytes of the new value there.  The size of the document stays as it is.

An integer goes into a field of four bytes without a check of its range.
-/

namespace CrossOver.Lua.Bson

open CrossOver.Lib

/-- How Lua makes a double of a value. -/
structure Conversions where
  ofInteger : LuaInteger → UInt64
  /-- `none` when the text is not a number -/
  ofString : Bytes → Option UInt64

section Arguments

variable (rt : Runtime) (conversions : Conversions)

/-- `lua_tonumberx` -/
def toNumber : LuaValue → Option UInt64
  | .integer i => some (conversions.ofInteger i)
  | .number bits => some bits
  | .string str => conversions.ofString str
  | _ => none

def checkNumber (value : LuaValue) : Except Failure UInt64 :=
  match toNumber conversions value with
  | some bits => .ok bits
  | none => .error (.luaError
      s!"bad argument #3 to '__newindex' (number expected, got {typename value})")

def toBoolean : LuaValue → Bool
  | .nil => false
  | .boolean value => value
  | _ => true

/-- `lua_tolstring` -/
def toText : LuaValue → Option Bytes
  | .integer i => some (integerText i.value)
  | .number bits => some (rt.formatNumber bits)
  | .string str => some str
  | _ => none

/-- `luaL_checklstring` of the third argument -/
def checkText (value : LuaValue) : Except Failure Bytes :=
  match toText rt value with
  | some data => .ok data
  | none => .error (.luaError
      s!"bad argument #3 to '__newindex' (string expected, got {typename value})")

/-- `replace_object`; the result is what it writes. -/
def replaceObject (type : UInt8) (value : LuaValue) : Except Failure Bytes := do
  let data ← checkText rt value
  if data.length < 6 ∨ data.take 2 ≠ [0, type] then
    .error (.luaError s!"Type mismatch, need bson type {type.toNat}")
  else if type = bsonObjectid then
    if data.length ≠ 2 + 12 then .error (.luaError "Invalid object id")
    else .ok ((data.drop 2).take 12)
  else if type = bsonDate then
    if data.length ≠ 2 + 4 then .error (.luaError "Invalid date")
    else .ok (intBytes 8 (leValue (data.drop 2) * 1000))
  else if type = bsonTimestamp then
    if data.length ≠ 2 + 8 then .error (.luaError "Invalid timestamp")
    else .ok ((data.drop 2).take 4 ++ (data.drop 6).take 4)
  else .ok []

/-- `lua_isinteger` and `lua_tointeger` of the third argument -/
def checkInteger (message : String) : LuaValue → Except Failure Int
  | .integer i => .ok i.value
  | value => .error (.luaError (cstringText
      (rt.formatNumber ((toNumber conversions value).getD 0)) ++ message))

/-- The switch over the type of the field; the result is what is written. -/
def replacement (type : UInt8) (value : LuaValue) : Except Failure Bytes :=
  if type = bsonReal then do
    let bits ← checkNumber conversions value
    .ok (leBytes 8 bits.toNat)
  else if type = bsonBoolean then .ok [if toBoolean value then 1 else 0]
  else if type = bsonObjectid ∨ type = bsonDate ∨ type = bsonTimestamp then
    replaceObject rt type value
  else if type = bsonInt32 then do
    let i ← checkInteger rt conversions " must be a 32bit integer " value
    .ok (intBytes 4 i)
  else if type = bsonInt64 then do
    let i ← checkInteger rt conversions " must be a 64bit integer " value
    .ok (intBytes 8 i)
  else .error (.luaError s!"Can't replace type {type.toNat}")

/-- The bytes are written over what is there. -/
def overwrite (memory : Bytes) (offset : Int) (data : Bytes) : Except Failure Bytes :=
  match Lib.store memory offset data with
  | some replaced => .ok replaced
  | none => .error .outOfBounds

def keyText (key : LuaValue) : String :=
  match toText rt key with
  | some text => cstringText text
  | none => "(null)"

def indexed (index : List Entry) : LuaValue → LuaValue
  | .string key => rawgetField index key
  | _ => .nil

/-- `b[key] = value` for a document with this index, if `makeindex` was called; the result
is the document afterwards. -/
def lreplace (index : Option (List Entry)) (memory : Bytes) (key value : LuaValue) :
    Except Failure Bytes :=
  match index with
  | none => .error (.luaError "call makeindex first")
  | some index =>
      match indexed index key with
      | .integer id => do
          let type := int32Of id.value % 2 ^ bsonTypeShift
          let offset := int32Of id.value / 2 ^ bsonTypeShift
          let data ← replacement rt conversions (UInt8.ofNat type.toNat) value
          overwrite memory offset data
      | _ => .error (.luaError s!"Can't replace key : {keyText rt key}")

end Arguments

section Replacements

variable (conversions : Conversions)

/-- A field of this type keeps the value as it is.  A boolean field takes anything for a
boolean, a double takes the text of a number, and an int32 takes the low half of an integer. -/
def Stores (type : UInt8) : LuaValue → Prop
  | .number _ => type = bsonReal
  | .integer i => type = bsonReal ∧ floatToInteger (conversions.ofInteger i) = some i ∨
      type = bsonInt32 ∧ is32bit i.value = true ∨ type = bsonInt64
  | .boolean _ => type = bsonBoolean
  | .string _ => type = bsonObjectid ∨ type = bsonDate ∨ type = bsonTimestamp
  | _ => False

instance (type : UInt8) : (value : LuaValue) → Decidable (Stores conversions type value)
  | .number _ => inferInstanceAs (Decidable (_ = _))
  | .integer _ => inferInstanceAs (Decidable (_ ∧ _ ∨ _ ∧ _ ∨ _))
  | .boolean _ => inferInstanceAs (Decidable (_ = _))
  | .string _ => inferInstanceAs (Decidable (_ ∨ _ ∨ _))
  | .nil => inferInstanceAs (Decidable False)
  | .lightuserdata _ => inferInstanceAs (Decidable False)
  | .table _ _ _ => inferInstanceAs (Decidable False)
  | .unsupported _ => inferInstanceAs (Decidable False)

structure Replaces (type : UInt8) (value : LuaValue) (payload : Bytes) (written : LuaValue) :
    Prop where
  width : fixedWidth type = some payload.length
  made : Made written
  decodes : ∀ nested, Decodes (readValue nested type) payload written
  stands_iff : Stands value written ↔ Stores conversions type value

variable {conversions} {rt : Runtime} {type : UInt8} {value : LuaValue} {payload : Bytes}

theorem leValue_leBytes_uint64 (bits : UInt64) :
    UInt64.ofNat (leValue (leBytes 8 bits.toNat)) = bits := by
  have bound := bits.toNat_lt
  rw [leValue_leBytes_mod, Nat.mod_eq_of_lt (by omega), UInt64.ofNat_toNat]

theorem real_replaces {bits : UInt64} (checked : checkNumber conversions value = .ok bits) :
    Replaces conversions bsonReal value (leBytes 8 bits.toNat) (.number bits) where
  width := by
    rw [leBytes_length]
    rfl
  made := ⟨rfl, .number bits⟩
  decodes nested := by
    have read := ((readWord_width (leBytes_length 8 bits.toNat)).map UInt64.ofNat).map
      LuaValue.number
    rw [leValue_leBytes_uint64] at read
    exact read
  stands_iff := by
    rw [stands_number]
    cases value with
    | integer i =>
        cases checked
        simp [Stores, bsonReal, bsonInt32, bsonInt64]
    | number given =>
        cases checked
        simp [Stores]
    | string str => simp [Stores, bsonReal, bsonObjectid, bsonDate, bsonTimestamp]
    | _ => cases checked

theorem boolean_replaces (value : LuaValue) :
    Replaces conversions bsonBoolean value [if toBoolean value then 1 else 0]
      (.boolean (toBoolean value)) where
  width := rfl
  made := ⟨rfl, .boolean _⟩
  decodes nested := by
    have read := ((readByte_decodes (if toBoolean value then 1 else 0)).map
      fun byte => LuaValue.boolean (byte != 0))
    have same : ((if toBoolean value then 1 else 0 : UInt8) != 0) = toBoolean value := by
      cases toBoolean value <;> rfl
    rw [same] at read
    exact read
  stands_iff := by
    rw [stands_boolean]
    cases value <;> simp [Stores, toBoolean, bsonReal, bsonInt32, bsonInt64, bsonBoolean,
      bsonObjectid, bsonDate, bsonTimestamp]

theorem signed_intBytes (width : Nat) (value : Int) :
    signed width (leValue (intBytes width value)) = value.bmod (256 ^ width) := by
  have modulus : (0 : Int) < 256 ^ width := Int.pow_pos (by decide)
  have nonneg := Int.emod_nonneg value (Int.ne_of_gt modulus)
  have reduced := Int.emod_bmod value (256 ^ width)
  push_cast at reduced
  rw [leValue_intBytes, signed, Int.toNat_of_nonneg nonneg]
  exact reduced

theorem is32bit_iff (i : LuaInteger) :
    i = .ofInt (i.value.bmod (256 ^ 4)) ↔ is32bit i.value = true := by
  have modulus : (256 ^ 4 : Nat) = 4294967296 := by decide
  rw [modulus]
  have lower := Int.le_bmod (x := i.value) (m := 4294967296) (by decide)
  have upper := Int.bmod_lt (x := i.value) (m := 4294967296) (by decide)
  have whole : (LuaInteger.ofInt (i.value.bmod 4294967296)).value = i.value.bmod 4294967296 := by
    exact ofInt_value_of_bounds _ (by omega) (by omega)
  simp only [is32bit, Bool.and_eq_true, decide_eq_true_eq]
  constructor
  · intro same
    have values := (congrArg LuaInteger.value same).trans whole
    omega
  · rintro ⟨least, most⟩
    apply LuaInteger.ext
    rw [whole]
    simp only [Int.bmod]
    split <;> omega

theorem int32_replaces (conversions : Conversions) (i : LuaInteger) :
    Replaces conversions bsonInt32 (.integer i) (intBytes 4 i.value)
      (.integer (.ofInt (i.value.bmod (256 ^ 4)))) where
  width := by
    rw [intBytes_length]
    rfl
  made := ⟨rfl, .integer _⟩
  decodes nested := by
    have read := ((readWord_width (intBytes_length 4 i.value)).map (signed 4)).map
      fun value => LuaValue.integer (LuaInteger.ofInt value)
    rw [signed_intBytes] at read
    exact read
  stands_iff := by
    have range := is32bit_iff i
    rw [stands_integer]
    simpa [Stores, bsonReal, bsonInt32, bsonInt64] using range

theorem int64_replaces (i : LuaInteger) :
    Replaces conversions bsonInt64 (.integer i) (intBytes 8 i.value) (.integer i) where
  width := by
    rw [intBytes_length]
    rfl
  made := ⟨rfl, .integer _⟩
  decodes nested := by
    have read := (readInt64_decodes i.value i.lower i.upper).map
      fun value => LuaValue.integer (LuaInteger.ofInt value)
    rw [LuaInteger.ofInt_value] at read
    exact read
  stands_iff := by
    rw [stands_integer]
    simp [Stores, bsonReal, bsonInt32, bsonInt64]

/-- The string comes back that was given, if it came from a payload of its type. -/
theorem string_replaces {data : Bytes} (checked : checkText rt value = .ok data)
    (isObject : type = bsonObjectid ∨ type = bsonDate ∨ type = bsonTimestamp)
    (width : fixedWidth type = some payload.length)
    (decodes : ∀ nested, Decodes (readValue nested type) payload (.string data)) :
    Replaces conversions type value payload (.string data) where
  width := width
  made := made_string data
  decodes := decodes
  stands_iff := by
    rw [stands_string]
    cases value with
    | string str =>
        cases checked
        simp [Stores, isObject]
    | integer i =>
        rcases isObject with rfl | rfl | rfl <;>
          simp [Stores, bsonReal, bsonInt32, bsonInt64, bsonObjectid, bsonDate, bsonTimestamp]
    | number bits =>
        rcases isObject with rfl | rfl | rfl <;>
          simp [Stores, bsonReal, bsonObjectid, bsonDate, bsonTimestamp]
    | _ => cases checked

section Texts

variable {data : Bytes}

theorem tagged (tag : data.take 2 = [0, type]) : [0, type] ++ data.drop 2 = data := by
  rw [← tag, List.take_append_drop]

theorem objectid_text_decodes (tag : data.take 2 = [0, bsonObjectid])
    (length : data.length = 2 + 12) :
    Decodes readObjectid ((data.drop 2).take 12) (.string data) := by
  have width : (data.drop 2).length = 12 := by rw [List.length_drop]; omega
  have read := readObjectid_decodes width
  rw [tagged tag] at read
  rw [List.take_of_length_le (Nat.le_of_eq width)]
  exact read

theorem date_text_decodes (tag : data.take 2 = [0, bsonDate]) (length : data.length = 2 + 4) :
    Decodes readDate (intBytes 8 (leValue (data.drop 2) * 1000)) (.string data) := by
  have width : (data.drop 2).length = 4 := by rw [List.length_drop]; omega
  have read := readDate_decodes width
  rw [tagged tag] at read
  exact read

theorem timestamp_text_decodes (tag : data.take 2 = [0, bsonTimestamp])
    (length : data.length = 2 + 8) :
    Decodes readTimestamp ((data.drop 2).take 4 ++ (data.drop 6).take 4) (.string data) := by
  have incWidth : ((data.drop 2).take 4).length = 4 := by
    rw [List.length_take, List.length_drop]
    omega
  have tsWidth : ((data.drop 6).take 4).length = 4 := by
    rw [List.length_take, List.length_drop]
    omega
  have rest : (data.drop 2).take 4 ++ (data.drop 6).take 4 = data.drop 2 := by
    have short : (data.drop 6).length ≤ 4 := by rw [List.length_drop]; omega
    have behind : data.drop 6 = (data.drop 2).drop 4 := by rw [List.drop_drop]
    rw [List.take_of_length_le short, behind, List.take_append_drop]
  have read := readTimestamp_decodes incWidth tsWidth
  rw [List.append_assoc, rest, tagged tag] at read
  rw [rest]
  exact read

end Texts

/-- A string that `replace_object` takes comes back as it is. -/
theorem object_replaces (accepted : replaceObject rt type value = .ok payload)
    (isObject : type = bsonObjectid ∨ type = bsonDate ∨ type = bsonTimestamp) :
    ∃ written, Replaces conversions type value payload written := by
  unfold replaceObject at accepted
  obtain ⟨data, checked, chosen⟩ := bind_eq_ok.mp accepted
  by_cases mismatch : data.length < 6 ∨ data.take 2 ≠ [0, type]
  · rw [if_pos mismatch] at chosen
    cases chosen
  rw [if_neg mismatch] at chosen
  have tag := not_not.mp (not_or.mp mismatch).2
  refine ⟨.string data, ?_⟩
  by_cases objectid : type = bsonObjectid
  · rw [if_pos objectid] at chosen
    subst objectid
    by_cases length : data.length ≠ 2 + 12
    · rw [if_pos length] at chosen
      cases chosen
    · rw [if_neg length] at chosen
      cases chosen
      refine string_replaces checked isObject ?_ fun nested =>
        objectid_text_decodes tag (not_not.mp length)
      rw [List.length_take, List.length_drop, not_not.mp length]
      rfl
  rw [if_neg objectid] at chosen
  by_cases date : type = bsonDate
  · rw [if_pos date] at chosen
    subst date
    by_cases length : data.length ≠ 2 + 4
    · rw [if_pos length] at chosen
      cases chosen
    · rw [if_neg length] at chosen
      cases chosen
      refine string_replaces checked isObject ?_ fun nested =>
        date_text_decodes tag (not_not.mp length)
      rw [intBytes_length]
      rfl
  rw [if_neg date] at chosen
  have timestamp := (isObject.resolve_left objectid).resolve_left date
  rw [if_pos timestamp] at chosen
  subst timestamp
  by_cases length : data.length ≠ 2 + 8
  · rw [if_pos length] at chosen
    cases chosen
  · rw [if_neg length] at chosen
    cases chosen
    refine string_replaces checked isObject ?_ fun nested =>
      timestamp_text_decodes tag (not_not.mp length)
    simp only [List.length_append, List.length_take, List.length_drop, not_not.mp length]
    rfl

theorem replacement_replaces (accepted : replacement rt conversions type value = .ok payload) :
    ∃ written, Replaces conversions type value payload written := by
  unfold replacement at accepted
  by_cases real : type = bsonReal
  · rw [if_pos real] at accepted
    obtain ⟨bits, checked, same⟩ := bind_eq_ok.mp accepted
    cases same
    subst real
    exact ⟨_, real_replaces checked⟩
  rw [if_neg real] at accepted
  by_cases boolean : type = bsonBoolean
  · rw [if_pos boolean] at accepted
    cases accepted
    subst boolean
    exact ⟨_, boolean_replaces value⟩
  rw [if_neg boolean] at accepted
  by_cases object : type = bsonObjectid ∨ type = bsonDate ∨ type = bsonTimestamp
  · rw [if_pos object] at accepted
    exact object_replaces accepted object
  rw [if_neg object] at accepted
  by_cases int32 : type = bsonInt32
  · rw [if_pos int32] at accepted
    obtain ⟨i, checked, same⟩ := bind_eq_ok.mp accepted
    cases same
    subst int32
    cases value with
    | integer given =>
        cases checked
        exact ⟨_, int32_replaces conversions given⟩
    | _ => cases checked
  rw [if_neg int32] at accepted
  by_cases int64 : type = bsonInt64
  · rw [if_pos int64] at accepted
    obtain ⟨i, checked, same⟩ := bind_eq_ok.mp accepted
    cases same
    subst int64
    cases value with
    | integer given =>
        cases checked
        exact ⟨_, int64_replaces given⟩
    | _ => cases checked
  rw [if_neg int64] at accepted
  cases accepted

end Replacements

section Accepted

variable {rt : Runtime} {conversions : Conversions}

theorem settles_ok {Result : Type} (result : Result) : Settles (.ok result) := by
  intro failure failed
  cases failed

theorem settles_luaError {Result : Type} (message : String) :
    Settles (.error (.luaError message) : Except Failure Result) := by
  intro failure failed
  cases failed
  exact ⟨message, rfl⟩

theorem Settles.bind {First Second : Type} {x : Except Failure First}
    {f : First → Except Failure Second} (first : Settles x) (rest : ∀ value, Settles (f value)) :
    Settles (x >>= f) := by
  cases x with
  | error failure =>
      obtain ⟨message, rfl⟩ := first failure rfl
      exact settles_luaError message
  | ok value => exact rest value

theorem Settles.ite {Result : Type} {x y : Except Failure Result} {condition : Prop}
    [Decidable condition] (first : Settles x) (second : Settles y) :
    Settles (if condition then x else y) := by
  split
  · exact first
  · exact second

theorem checkInteger_settles (message : String) (value : LuaValue) :
    Settles (checkInteger rt conversions message value) := by
  cases value with
  | integer i => exact settles_ok _
  | _ => exact settles_luaError _

/-- A value that does not fit a field is an error of Lua. -/
theorem replacement_settles (type : UInt8) (value : LuaValue) :
    Settles (replacement rt conversions type value) := by
  have number : Settles (checkNumber conversions value) := by
    unfold checkNumber
    cases toNumber conversions value with
    | some bits => exact settles_ok _
    | none => exact settles_luaError _
  have text : Settles (checkText rt value) := by
    unfold checkText
    cases toText rt value with
    | some data => exact settles_ok _
    | none => exact settles_luaError _
  have object : Settles (replaceObject rt type value) := by
    refine text.bind fun data => .ite (settles_luaError _) (.ite ?_ (.ite ?_ (.ite ?_ ?_)))
    · exact .ite (settles_luaError _) (settles_ok _)
    · exact .ite (settles_luaError _) (settles_ok _)
    · exact .ite (settles_luaError _) (settles_ok _)
    · exact settles_ok _
  refine .ite ?_ (.ite (settles_ok _) (.ite object (.ite ?_ (.ite ?_ (settles_luaError _)))))
  · exact number.bind fun bits => settles_ok _
  · exact (checkInteger_settles _ _).bind fun i => settles_ok _
  · exact (checkInteger_settles _ _).bind fun i => settles_ok _

end Accepted

end CrossOver.Lua.Bson
