import CrossOver.Lua.Value
import Mathlib.Tactic.NormNum

/-!
# The numbers of `common.lua`

`FormatNum` cuts a number that is not positive to zero and drops a fraction of zero.
The ids are packed in decimal places and the command in bytes, with the wrapping
arithmetic of 64-bit integers, and go through it.

What doubles do is left to `Floats`: every number here is an integer as long as the
arguments are.
-/

namespace CrossOver.Lua.Common

open CrossOver.Lib

instance : Add LuaInteger := ⟨fun a b => .ofInt (a.value + b.value)⟩

instance : Mul LuaInteger := ⟨fun a b => .ofInt (a.value * b.value)⟩

instance (n : Nat) : OfNat LuaInteger n := ⟨.ofInt n⟩

inductive LuaNumber (Double : Type) where
  | integer (value : LuaInteger)
  | float (value : Double)
  deriving DecidableEq

/-- The operations on doubles. -/
structure Floats (Double : Type) where
  ofInteger : LuaInteger → Double
  add : Double → Double → Double
  mul : Double → Double → Double
  /-- `num <= 0` -/
  nonpositive : Double → Bool
  /-- the integral part, and whether the fraction is above zero -/
  modf : Double → Double × Bool

section Arithmetic

variable {Double : Type} (floats : Floats Double)

def toFloat : LuaNumber Double → Double
  | .integer value => floats.ofInteger value
  | .float value => value

def add : LuaNumber Double → LuaNumber Double → LuaNumber Double
  | .integer a, .integer b => .integer (a + b)
  | a, b => .float (floats.add (toFloat floats a) (toFloat floats b))

def mul : LuaNumber Double → LuaNumber Double → LuaNumber Double
  | .integer a, .integer b => .integer (a * b)
  | a, b => .float (floats.mul (toFloat floats a) (toFloat floats b))

def nonpositive : LuaNumber Double → Bool
  | .integer value => value.value ≤ 0
  | .float value => floats.nonpositive value

/-- `math.modf`; an integer is its own integral part. -/
def modf : LuaNumber Double → LuaNumber Double × Bool
  | .integer value => (.integer value, false)
  | .float value => (.float (floats.modf value).1, (floats.modf value).2)

def formatNum (num : LuaNumber Double) : LuaNumber Double :=
  if nonpositive floats num then .integer 0
  else if (modf floats num).2 then num
  else (modf floats num).1

def generateSrvUid (st realmIdx areaIdx : LuaNumber Double) : LuaNumber Double :=
  formatNum floats
    (add floats (add floats (mul floats realmIdx (.integer 1000)) (mul floats st (.integer 10)))
      areaIdx)

def generateClientUid (srvUid connIdx : LuaNumber Double) : LuaNumber Double :=
  formatNum floats (add floats (mul floats srvUid (.integer 10000000000)) connIdx)

def generateObjId (serialIdx objIdx : LuaNumber Double) : LuaNumber Double :=
  formatNum floats (add floats (mul floats serialIdx (.integer 10000000)) objIdx)

def stringByte (bytes : Bytes) (i : Nat) : Except String (LuaNumber Double) :=
  match bytes[i - 1]? with
  | some byte => .ok (.integer (.ofInt byte.toNat))
  | none => .error "attempt to perform arithmetic on a nil value"

def getCmd (bytes : Bytes) : Except String (LuaNumber Double) := do
  let first ← stringByte bytes 1
  let second ← stringByte bytes 2
  let third ← stringByte bytes 3
  let fourth ← stringByte bytes 4
  return formatNum floats
    (add floats (add floats (add floats first (mul floats second (.integer 256)))
      (mul floats third (.integer 65535))) (mul floats fourth (.integer 16777216)))

end Arithmetic

section Integers

variable {Double : Type} (floats : Floats Double)

theorem formatNum_integer (value : LuaInteger) :
    formatNum floats (.integer value) = .integer (if value.value ≤ 0 then 0 else value) := by
  simp only [formatNum, nonpositive, modf, decide_eq_true_eq, Bool.false_eq_true, if_false]
  split_ifs <;> rfl

theorem add_ofInt (a b : Int) : LuaInteger.ofInt a + LuaInteger.ofInt b = .ofInt (a + b) := by
  apply LuaInteger.ext
  change (a.bmod (2 ^ 64) + b.bmod (2 ^ 64)).bmod (2 ^ 64) = (a + b).bmod (2 ^ 64)
  rw [Int.bmod_add_bmod, Int.add_bmod_bmod]

theorem mul_ofInt (a b : Int) : LuaInteger.ofInt a * LuaInteger.ofInt b = .ofInt (a * b) := by
  apply LuaInteger.ext
  change (a.bmod (2 ^ 64) * b.bmod (2 ^ 64)).bmod (2 ^ 64) = (a * b).bmod (2 ^ 64)
  rw [Int.bmod_mul_bmod, Int.mul_bmod_bmod]

/-- A number with further decimal places behind it. -/
theorem pack_eq_ofInt (high scale low : LuaInteger) :
    high * scale + low = .ofInt (high.value * scale.value + low.value) := by
  have parts := add_ofInt (high.value * scale.value) low.value
  rw [LuaInteger.ofInt_value] at parts
  exact parts

theorem formatNum_ofInt {value : Int} (nonneg : 0 ≤ value) (bound : value < 2 ^ 63) :
    formatNum floats (.integer (.ofInt value)) = .integer (.ofInt value) := by
  have same := ofInt_value_of_bounds value (by omega) bound
  rw [formatNum_integer]
  split_ifs with cut
  · obtain rfl : value = 0 := by omega
    rfl
  · rfl

/-- A packed number is positive and whole, or has become negative and is cut to zero. -/
theorem formatNum_pack {value : Int} (positive : 0 < value) (bound : value < 2 ^ 64) :
    formatNum floats (.integer (.ofInt value)) =
      .integer (if value < 2 ^ 63 then .ofInt value else 0) := by
  by_cases fits : value < 2 ^ 63
  · rw [if_pos fits, formatNum_ofInt floats (Int.le_of_lt positive) fits]
  · have wrapped : (LuaInteger.ofInt value).value ≤ 0 := by
      change value.bmod (2 ^ 64) ≤ 0
      simp only [Int.bmod]
      split <;> omega
    rw [formatNum_integer, if_neg fits, if_pos wrapped]

end Integers

section Ids

variable {Double : Type} (floats : Floats Double)

/-- The documented places of a server id: five digits, two digits and one digit. -/
structure ServerParts (st realmIdx areaIdx : LuaInteger) : Prop where
  st : 0 ≤ st.value ∧ st.value ≤ 99
  realm : 1 ≤ realmIdx.value ∧ realmIdx.value ≤ 99999
  area : 0 ≤ areaIdx.value ∧ areaIdx.value ≤ 9

/-- The documented places of an object id: twelve digits and seven digits. -/
structure ObjectParts (serialIdx objIdx : LuaInteger) : Prop where
  serial : 1 ≤ serialIdx.value ∧ serialIdx.value ≤ 10 ^ 12 - 1
  obj : 0 ≤ objIdx.value ∧ objIdx.value ≤ 10 ^ 7 - 1

theorem generateSrvUid_eq {st realmIdx areaIdx : LuaInteger}
    (parts : ServerParts st realmIdx areaIdx) :
    generateSrvUid floats (.integer st) (.integer realmIdx) (.integer areaIdx) =
      .integer (.ofInt (realmIdx.value * 1000 + st.value * 10 + areaIdx.value)) := by
  obtain ⟨⟨_, _⟩, ⟨_, _⟩, ⟨_, _⟩⟩ := parts
  have packed : realmIdx * 1000 + st * 10 + areaIdx =
      .ofInt (realmIdx.value * 1000 + st.value * 10 + areaIdx.value) := by
    have whole := add_ofInt (realmIdx.value * 1000 + st.value * 10) areaIdx.value
    rw [← add_ofInt, LuaInteger.ofInt_value] at whole
    exact whole
  change formatNum floats (.integer (realmIdx * 1000 + st * 10 + areaIdx)) = _
  rw [packed, formatNum_pack floats (by omega) (by omega), if_pos (by omega)]

theorem generateClientUid_eq {st realmIdx areaIdx connIdx : LuaInteger}
    (parts : ServerParts st realmIdx areaIdx)
    (conn : 1 ≤ connIdx.value ∧ connIdx.value ≤ 2 ^ 32 - 2) :
    generateClientUid floats
        (generateSrvUid floats (.integer st) (.integer realmIdx) (.integer areaIdx))
        (.integer connIdx) =
      .integer (.ofInt ((realmIdx.value * 1000 + st.value * 10 + areaIdx.value) * 10000000000 +
        connIdx.value)) := by
  rw [generateSrvUid_eq floats parts]
  obtain ⟨⟨_, _⟩, ⟨_, _⟩, ⟨_, _⟩⟩ := parts
  obtain ⟨_, _⟩ := conn
  have server := ofInt_value_of_bounds (realmIdx.value * 1000 + st.value * 10 + areaIdx.value)
    (by omega) (by omega)
  change formatNum floats (.integer
    (LuaInteger.ofInt (realmIdx.value * 1000 + st.value * 10 + areaIdx.value) * 10000000000 +
      connIdx)) = _
  have scale : (10000000000 : LuaInteger).value = 10000000000 := by decide
  rw [pack_eq_ofInt, server, scale, formatNum_pack floats (by omega) (by omega), if_pos (by omega)]

/-- The four components of a client id can be read off it. -/
theorem generateClientUid_injective {st realmIdx areaIdx connIdx st' realmIdx' areaIdx'
      connIdx' : LuaInteger}
    (parts : ServerParts st realmIdx areaIdx) (parts' : ServerParts st' realmIdx' areaIdx')
    (conn : 1 ≤ connIdx.value ∧ connIdx.value ≤ 2 ^ 32 - 2)
    (conn' : 1 ≤ connIdx'.value ∧ connIdx'.value ≤ 2 ^ 32 - 2)
    (same : generateClientUid floats
        (generateSrvUid floats (.integer st) (.integer realmIdx) (.integer areaIdx))
        (.integer connIdx) =
      generateClientUid floats
        (generateSrvUid floats (.integer st') (.integer realmIdx') (.integer areaIdx'))
        (.integer connIdx')) :
    st = st' ∧ realmIdx = realmIdx' ∧ areaIdx = areaIdx' ∧ connIdx = connIdx' := by
  rw [generateClientUid_eq floats parts conn, generateClientUid_eq floats parts' conn'] at same
  obtain ⟨⟨_, _⟩, ⟨_, _⟩, ⟨_, _⟩⟩ := parts
  obtain ⟨⟨_, _⟩, ⟨_, _⟩, ⟨_, _⟩⟩ := parts'
  obtain ⟨_, _⟩ := conn
  obtain ⟨_, _⟩ := conn'
  have values := ofInt_inj_of_bounds (LuaNumber.integer.inj same) (by omega) (by omega) (by omega)
    (by omega)
  refine ⟨LuaInteger.ext ?_, LuaInteger.ext ?_, LuaInteger.ext ?_, LuaInteger.ext ?_⟩
  all_goals omega

theorem generateObjId_eq {serialIdx objIdx : LuaInteger} (parts : ObjectParts serialIdx objIdx) :
    generateObjId floats (.integer serialIdx) (.integer objIdx) =
      .integer (if serialIdx.value * 10000000 + objIdx.value < 2 ^ 63 then
        .ofInt (serialIdx.value * 10000000 + objIdx.value) else 0) := by
  obtain ⟨⟨_, _⟩, ⟨_, _⟩⟩ := parts
  have scale : (10000000 : LuaInteger).value = 10000000 := by decide
  change formatNum floats (.integer (serialIdx * 10000000 + objIdx)) = _
  rw [pack_eq_ofInt, scale, formatNum_pack floats (by omega) (by omega)]

/-- The id is positive, its places give back both parts, and no other parts have it. -/
structure ObjIdUnique (serialIdx objIdx id : LuaInteger) : Prop where
  made : generateObjId floats (.integer serialIdx) (.integer objIdx) = .integer id
  positive : 0 < id.value
  serial : id.value / 10000000 = serialIdx.value
  obj : id.value % 10000000 = objIdx.value
  only : ∀ serialIdx' objIdx', ObjectParts serialIdx' objIdx' →
    generateObjId floats (.integer serialIdx') (.integer objIdx') = .integer id →
    serialIdx' = serialIdx ∧ objIdx' = objIdx

theorem objIdUnique_iff {serialIdx objIdx : LuaInteger} (parts : ObjectParts serialIdx objIdx) :
    (∃ id, ObjIdUnique floats serialIdx objIdx id) ↔
      serialIdx.value * 10000000 + objIdx.value < 2 ^ 63 := by
  have here := generateObjId_eq floats parts
  obtain ⟨⟨_, _⟩, ⟨_, _⟩⟩ := parts
  constructor
  · rintro ⟨id, made, positive, -⟩
    by_contra wide
    rw [here, if_neg wide] at made
    cases made
    exact absurd positive (by decide)
  · intro fits
    have value := ofInt_value_of_bounds (serialIdx.value * 10000000 + objIdx.value) (by omega) fits
    rw [if_pos fits] at here
    refine ⟨_, here, by omega, by omega, by omega, ?_⟩
    intro serialIdx' objIdx' parts' same
    rw [generateObjId_eq floats parts'] at same
    obtain ⟨⟨_, _⟩, ⟨_, _⟩⟩ := parts'
    have values := congrArg LuaInteger.value (LuaNumber.integer.inj same)
    split_ifs at values with fits'
    · rw [value, ofInt_value_of_bounds _ (by omega) fits'] at values
      exact ⟨LuaInteger.ext (by omega), LuaInteger.ext (by omega)⟩
    · have zero : (0 : LuaInteger).value = 0 := by decide
      omega

/-- Client ids are unique on their documented places, and an object id is unique on its own
exactly when it fits into 63 bits. -/
theorem ids_unique :
    (∀ st realmIdx areaIdx connIdx st' realmIdx' areaIdx' connIdx' : LuaInteger,
      ServerParts st realmIdx areaIdx → ServerParts st' realmIdx' areaIdx' →
      1 ≤ connIdx.value ∧ connIdx.value ≤ 2 ^ 32 - 2 →
      1 ≤ connIdx'.value ∧ connIdx'.value ≤ 2 ^ 32 - 2 →
      generateClientUid floats
          (generateSrvUid floats (.integer st) (.integer realmIdx) (.integer areaIdx))
          (.integer connIdx) =
        generateClientUid floats
          (generateSrvUid floats (.integer st') (.integer realmIdx') (.integer areaIdx'))
          (.integer connIdx') →
      st = st' ∧ realmIdx = realmIdx' ∧ areaIdx = areaIdx' ∧ connIdx = connIdx') ∧
    ∀ serialIdx objIdx : LuaInteger, ObjectParts serialIdx objIdx →
      ((∃ id, ObjIdUnique floats serialIdx objIdx id) ↔
        serialIdx.value * 10000000 + objIdx.value < 2 ^ 63) :=
  ⟨fun _ _ _ _ _ _ _ _ parts parts' conn conn' same =>
    generateClientUid_injective floats parts parts' conn conn' same,
    fun _ _ parts => objIdUnique_iff floats parts⟩

/-- No operation on doubles is used in the examples. -/
def noFloats : Floats Unit where
  ofInteger := fun _ => ()
  add := fun _ _ => ()
  mul := fun _ _ => ()
  nonpositive := fun _ => false
  modf := fun _ => ((), false)

theorem firstServerParts : ServerParts 1 1 0 := ⟨by decide, by decide, by decide⟩

theorem ids_unique_first :
    ((1 : LuaInteger) = 1 ∧ (1 : LuaInteger) = 1 ∧ (0 : LuaInteger) = 0 ∧ (1 : LuaInteger) = 1) ∧
      ∃ id, ObjIdUnique noFloats 1 0 id :=
  ⟨(ids_unique noFloats).1 1 1 0 1 1 1 0 1 firstServerParts firstServerParts (by decide)
      (by decide) rfl,
    ((ids_unique noFloats).2 1 0 ⟨by decide, by decide⟩).mpr (by decide)⟩

/-- Two objects of the last serial number have the id zero. -/
theorem objId_merged :
    ObjectParts 999999999999 0 ∧ ObjectParts 999999999999 1 ∧
      generateObjId noFloats (.integer 999999999999) (.integer 0) = .integer 0 ∧
      generateObjId noFloats (.integer 999999999999) (.integer 1) = .integer 0 ∧
      ¬ ∃ id, ObjIdUnique noFloats 999999999999 0 id := by
  have parts : ObjectParts 999999999999 0 := ⟨by decide, by decide⟩
  refine ⟨parts, ⟨by decide, by decide⟩, by decide, by decide, ?_⟩
  rw [objIdUnique_iff noFloats parts]
  decide

end Ids

section Commands

variable {Double : Type} (floats : Floats Double)

/-- The command in front of a message, as the engine writes it. -/
def commandOf (bytes : Bytes) : LuaInteger := .ofInt (leValue (bytes.take 4))

theorem digits_lt (first second third fourth : UInt8) :
    first.toNat < 256 ∧ second.toNat < 256 ∧ third.toNat < 256 ∧ fourth.toNat < 256 :=
  ⟨first.toNat_lt, second.toNat_lt, third.toNat_lt, fourth.toNat_lt⟩

theorem getCmd_eq (first second third fourth : UInt8) (rest : Bytes) :
    getCmd floats (first :: second :: third :: fourth :: rest) =
      .ok (.integer (.ofInt (first.toNat + second.toNat * 256 + third.toNat * 65535 +
        fourth.toNat * 16777216))) := by
  have bounds := digits_lt first second third fourth
  have summed : LuaInteger.ofInt first.toNat + .ofInt second.toNat * 256 +
      .ofInt third.toNat * 65535 + .ofInt fourth.toNat * 16777216 =
      .ofInt (first.toNat + second.toNat * 256 + third.toNat * 65535 +
        fourth.toNat * 16777216) := by
    rw [← add_ofInt, ← add_ofInt, ← add_ofInt, ← mul_ofInt, ← mul_ofInt, ← mul_ofInt]
    rfl
  change Except.ok (formatNum floats (.integer (LuaInteger.ofInt first.toNat +
    .ofInt second.toNat * 256 + .ofInt third.toNat * 65535 +
      .ofInt fourth.toNat * 16777216))) = _
  rw [summed, formatNum_ofInt floats (by omega) (by omega)]

theorem commandOf_eq (first second third fourth : UInt8) (rest : Bytes) :
    commandOf (first :: second :: third :: fourth :: rest) =
      .ofInt (first.toNat + second.toNat * 256 + third.toNat * 65536 +
        fourth.toNat * 16777216) := by
  rw [commandOf]
  simp only [List.take_succ_cons, List.take_zero, leValue]
  exact congrArg LuaInteger.ofInt (by push_cast; omega)

theorem four_bytes {bytes : Bytes} (long : 4 ≤ bytes.length) :
    ∃ first second third fourth rest, bytes = first :: second :: third :: fourth :: rest := by
  match bytes, long with
  | first :: second :: third :: fourth :: rest, _ => exact ⟨_, _, _, _, _, rfl⟩

section Digits

variable {first second third fourth first' second' third' fourth' : UInt8} {rest rest' : Bytes}

theorem getCmd_inj (same : getCmd floats (first :: second :: third :: fourth :: rest) =
      getCmd floats (first' :: second' :: third' :: fourth' :: rest')) :
    first.toNat + second.toNat * 256 + third.toNat * 65535 + fourth.toNat * 16777216 =
      first'.toNat + second'.toNat * 256 + third'.toNat * 65535 + fourth'.toNat * 16777216 := by
  have bounds := digits_lt first second third fourth
  have bounds' := digits_lt first' second' third' fourth'
  rw [getCmd_eq, getCmd_eq] at same
  have values := ofInt_inj_of_bounds (LuaNumber.integer.inj (Except.ok.inj same)) (by omega)
    (by omega) (by omega) (by omega)
  omega

/-- The value is right if and only if the third weight does not matter. -/
theorem getCmd_command_iff :
    getCmd floats (first :: second :: third :: fourth :: rest) =
      .ok (.integer (commandOf (first :: second :: third :: fourth :: rest))) ↔ third = 0 := by
  have bounds := digits_lt first second third fourth
  rw [getCmd_eq, commandOf_eq]
  constructor
  · intro same
    have values := ofInt_inj_of_bounds (LuaNumber.integer.inj (Except.ok.inj same)) (by omega)
      (by omega) (by omega) (by omega)
    apply UInt8.toNat_inj.mp
    change third.toNat = 0
    omega
  · rintro rfl
    have none : (0 : UInt8).toNat = 0 := rfl
    simp [none]

end Digits

theorem getCmd_congr {bytes other : Bytes} (long : 4 ≤ bytes.length)
    (same : other.take 4 = bytes.take 4) : getCmd floats other = getCmd floats bytes := by
  have otherLong : 4 ≤ other.length := by
    have lengths := congrArg List.length same
    simp only [List.length_take] at lengths
    omega
  obtain ⟨first, second, third, fourth, rest, rfl⟩ := four_bytes long
  obtain ⟨first', second', third', fourth', rest', rfl⟩ := four_bytes otherLong
  simp only [List.take_succ_cons, List.take_zero, List.cons.injEq, and_true] at same
  obtain ⟨rfl, rfl, rfl, rfl⟩ := same
  rw [getCmd_eq, getCmd_eq]

/-- `GetCmd` returns the command, no other command is taken for it, and what is behind the
fourth byte does not matter. -/
structure ReadsCommand (bytes : Bytes) : Prop where
  command : getCmd floats bytes = .ok (.integer (commandOf bytes))
  only : ∀ other : Bytes, 4 ≤ other.length → getCmd floats other = getCmd floats bytes →
    commandOf other = commandOf bytes
  behind : ∀ other : Bytes, other.take 4 = bytes.take 4 →
    getCmd floats other = getCmd floats bytes

/-- The third weight is one too small, so the third byte must be zero; and the value of the
largest two low bytes is also that of a third byte of one. -/
theorem readsCommand_iff (bytes : Bytes) (long : 4 ≤ bytes.length) :
    ReadsCommand floats bytes ↔ bytes[2]? = some 0 ∧ bytes.take 2 ≠ [255, 255] := by
  have behind : ∀ other : Bytes, other.take 4 = bytes.take 4 →
      getCmd floats other = getCmd floats bytes := fun _ same => getCmd_congr floats long same
  obtain ⟨first, second, third, fourth, rest, rfl⟩ := four_bytes long
  simp only [List.getElem?_cons_succ, List.getElem?_cons_zero, Option.some.injEq,
    List.take_succ_cons, List.take_zero, ne_eq, List.cons.injEq, and_true]
  constructor
  · intro reads
    have zero : third = 0 := (getCmd_command_iff floats).mp reads.command
    refine ⟨zero, ?_⟩
    rintro ⟨rfl, rfl⟩
    subst zero
    -- a third byte of one with two zero bytes in front of it
    have confused := reads.only (0 :: 0 :: 1 :: fourth :: rest) (by simp) (by
      rw [getCmd_eq, getCmd_eq]
      simp)
    have bound := fourth.toNat_lt
    rw [commandOf_eq, commandOf_eq] at confused
    have values := ofInt_inj_of_bounds confused (by omega) (by simp; omega) (by omega)
      (by simp; omega)
    simp at values
  · rintro ⟨rfl, low⟩
    refine ⟨(getCmd_command_iff floats).mpr rfl, fun other otherLong same => ?_, behind⟩
    obtain ⟨first', second', third', fourth', rest', rfl⟩ := four_bytes otherLong
    have below : first.toNat + second.toNat * 256 ≠ 65535 := by
      intro top
      have bounds := digits_lt first second 0 fourth
      refine low ⟨UInt8.toNat_inj.mp ?_, UInt8.toNat_inj.mp ?_⟩
      · change first.toNat = 255
        omega
      · change second.toNat = 255
        omega
    have none : (0 : UInt8).toNat = 0 := rfl
    have numbers := getCmd_inj floats same
    have bounds := digits_lt first second 0 fourth
    have bounds' := digits_lt first' second' third' fourth'
    -- the three low bytes stay below the weight of the fourth
    have top : fourth'.toNat = fourth.toNat := by omega
    have zero : third'.toNat = 0 := by omega
    rw [commandOf_eq, commandOf_eq, none]
    exact congrArg LuaInteger.ofInt (by omega)

theorem readsCommand_iff_login :
    ReadsCommand noFloats [1, 2, 0, 0, 7] ↔
      ([1, 2, 0, 0, 7] : Bytes)[2]? = some 0 ∧ ([1, 2, 0, 0, 7] : Bytes).take 2 ≠ [255, 255] :=
  readsCommand_iff noFloats [1, 2, 0, 0, 7] (by decide)

/-- The command `65536` is read as `65535`. -/
theorem getCmd_confused :
    getCmd noFloats [0, 0, 1, 0] = .ok (.integer 65535) ∧
      getCmd noFloats [255, 255, 0, 0] = .ok (.integer 65535) ∧
      commandOf [0, 0, 1, 0] = 65536 ∧ ¬ ReadsCommand noFloats [0, 0, 1, 0] := by
  refine ⟨by decide, by decide, by decide, fun reads => ?_⟩
  have command := reads.command
  revert command
  decide

end Commands

end CrossOver.Lua.Common
