import CrossOver.Lua.Pb.Schema
import Mathlib.Data.List.TakeWhile

/-!
# `lua_pb`: integers as Lua has them

`lpb_pushinteger` makes a string of a number that does not fit 32 bits, in two of the three
modes, and `lpb_tointegerx` reads such strings.
-/

namespace CrossOver.Lua.Pb

open CrossOver.Lib

def hexchar (ch : UInt8) : Option Nat :=
  if 48 ≤ ch ∧ ch ≤ 57 then some (ch.toNat - 48)
  else if 97 ≤ ch ∧ ch ≤ 102 then some (ch.toNat - 87)
  else if 65 ≤ ch ∧ ch ≤ 70 then some (ch.toNat - 55)
  else none

/-- `while (*s == '#' || *s == '+' || *s == '-')` -/
def signs (neg : Bool) : Bytes → Bool × Bytes
  | 35 :: rest => signs neg rest
  | 43 :: rest => signs neg rest
  | 45 :: rest => signs (!neg) rest
  | rest => (neg, rest)

/-- The loop over the hexadecimal digits; `none` if it stops in front of the end. -/
def hexDigits (v : UInt64) : Bytes → Option UInt64
  | [] => some v
  | ch :: rest =>
      match hexchar ch with
      | none => none
      | some n => hexDigits (v <<< 4 ||| UInt64.ofNat n) rest

/-- The loop over the decimal digits, which takes an `a` for a ten. -/
def decDigits (v : UInt64) : Bytes → Option UInt64
  | [] => some v
  | ch :: rest =>
      match hexchar ch with
      | none => none
      | some n => if n > 10 then none else decDigits (v * 10 + UInt64.ofNat n) rest

/-- `if (s[0] == '0' && (s[1] == 'x' || s[1] == 'X'))` with both loops. -/
def digitsValue : Bytes → Option UInt64
  | 48 :: 120 :: rest => hexDigits 0 rest
  | 48 :: 88 :: rest => hexDigits 0 rest
  | digits => decDigits 0 digits

/-- The part of `lpb_tointegerx` behind `lua_tostring`. -/
def parseInteger (s : Bytes) : Option UInt64 :=
  (digitsValue (signs false s).2).map fun v => if (signs false s).1 then ~~~v + 1 else v

/-- `lpb_tointegerx`; `none` is `isint` 0. -/
def tointegerx (conv : Conversions) (value : LuaValue) : Except Failure (Option UInt64) :=
  match conv.tointegerx value with
  | some v => .ok (some (UInt64.ofNat (v.value % 2 ^ 64).toNat))
  | none =>
      match conv.tostring value with
      | none => .ok none
      | some os =>
          match parseInteger (cString os) with
          | some v => .ok (some v)
          | none => .error (.luaError (text "integer format error: '" ++ cString os ++ text "'"))

def pushDigits (base : Nat) (digit : Nat → UInt8) : Nat → Nat → Bytes → Bytes
  | 0, _, p => p
  | room + 1, un, p =>
      if un = 0 then p else pushDigits base digit room (un / base) (digit (un % base) :: p)

/-- A character of `"0123456789ABCDEF"` -/
def digitChar (n : Nat) : UInt8 := if n < 10 then UInt8.ofNat (48 + n) else UInt8.ofNat (55 + n)

/-- `lpb_pushinteger`; `buff` has room for 31 characters. -/
def pushinteger (mode : Int64Mode) (n : LuaInteger) : LuaValue :=
  if mode ≠ .number ∧ (n.value < -2 ^ 31 ∨ n.value > 2 ^ 32 - 1) then
    let un := n.value.natAbs
    let digits :=
      if mode = .hexstring then 48 :: 120 :: pushDigits 16 digitChar 31 un []
      else pushDigits 10 digitChar 31 un []
    .string (35 :: (if n.value < 0 then 45 :: digits else digits))
  else .integer n

/-- What `lpb_tointegerx` relies on: integers are integers, and no string with a `#` in front is a
numeral. -/
structure Conversions.Standard (conv : Conversions) : Prop where
  integer : ∀ v, conv.tointegerx (.integer v) = some v
  marked : ∀ s, conv.tointegerx (.string (35 :: s)) = none
  string : ∀ s, conv.tostring (.string s) = some s

section Digits

theorem hexchar_digitChar {n : Nat} (bound : n < 16) : hexchar (digitChar n) = some n := by
  interval_cases n <;> rfl

theorem digitChar_decimal {n : Nat} (bound : n < 10) :
    48 ≤ (digitChar n).toNat ∧ (digitChar n).toNat ≤ 57 := by
  interval_cases n <;> decide

theorem decDigits_push {room un : Nat} (fits : un < 10 ^ room) (p : Bytes) :
    decDigits 0 (pushDigits 10 digitChar room un p) = decDigits (UInt64.ofNat un) p := by
  induction room generalizing un p with
  | zero =>
      have none' : un = 0 := by simpa using fits
      rw [none', pushDigits]
      rfl
  | succ room inductionHypothesis =>
      rw [pushDigits]
      split
      case isTrue zero =>
          rw [zero]
          rfl
      case isFalse =>
          have quotient : un / 10 < 10 ^ room := by
            apply Nat.div_lt_of_lt_mul
            rwa [pow_succ, mul_comm] at fits
          have digit : un % 10 < 10 := Nat.mod_lt _ (by decide)
          have back : UInt64.ofNat (un / 10) * 10 + UInt64.ofNat (un % 10) = UInt64.ofNat un := by
            rw [show (10 : UInt64) = UInt64.ofNat 10 from rfl, ← UInt64.ofNat_mul,
              ← UInt64.ofNat_add, Nat.mul_comm, Nat.div_add_mod]
          rw [inductionHypothesis quotient, decDigits, hexchar_digitChar (by omega)]
          simp only [show ¬ un % 10 > 10 by omega, if_false, back]

theorem hexDigits_push {room un : Nat} (fits : un < 16 ^ room) (word : un < 2 ^ 64) (p : Bytes) :
    hexDigits 0 (pushDigits 16 digitChar room un p) = hexDigits (UInt64.ofNat un) p := by
  induction room generalizing un p with
  | zero =>
      have none' : un = 0 := by simpa using fits
      rw [none', pushDigits]
      rfl
  | succ room inductionHypothesis =>
      rw [pushDigits]
      split
      case isTrue zero =>
          rw [zero]
          rfl
      case isFalse =>
          have quotient : un / 16 < 16 ^ room := by
            apply Nat.div_lt_of_lt_mul
            rwa [pow_succ, mul_comm] at fits
          have digit : un % 16 < 16 := Nat.mod_lt _ (by decide)
          have low : (UInt64.ofNat (un % 16)).toNat = un % 16 := by
            rw [UInt64.toNat_ofNat']
            omega
          have high : (UInt64.ofNat (un / 16)).toNat = un / 16 := by
            rw [UInt64.toNat_ofNat']
            omega
          have back : UInt64.ofNat (un / 16) <<< 4 ||| UInt64.ofNat (un % 16) =
              UInt64.ofNat un := by
            have joined := or_shift (n := UInt64.ofNat (un % 16)) (x := UInt64.ofNat (un / 16))
              (show _ < 2 ^ 4 by rw [low]; omega) (by decide)
            rw [low, high, show un % 16 + un / 16 * 2 ^ 4 = un by omega] at joined
            rw [UInt64.or_comm]
            exact joined
          rw [inductionHypothesis quotient (by omega), hexDigits, hexchar_digitChar digit]
          simp only [back]

theorem mem_pushDigits {base : Nat} {digit : Nat → UInt8} {room un : Nat} {p : Bytes} {ch : UInt8}
    (positive : 0 < base) (membership : ch ∈ pushDigits base digit room un p) :
    ch ∈ p ∨ ∃ n < base, ch = digit n := by
  induction room generalizing un p with
  | zero => exact .inl membership
  | succ room inductionHypothesis =>
      rw [pushDigits] at membership
      split at membership
      case isTrue => exact .inl membership
      case isFalse =>
          rcases inductionHypothesis membership with behind | pushed
          · rcases List.mem_cons.mp behind with equal | older
            · exact .inr ⟨_, Nat.mod_lt _ positive, equal⟩
            · exact .inl older
          · exact .inr pushed

theorem signs_digit {ch : UInt8} (digit : 48 ≤ ch.toNat) (neg : Bool) (rest : Bytes) :
    signs neg (ch :: rest) = (neg, ch :: rest) := by
  unfold signs
  split
  case h_1 same =>
      cases same
      exact absurd digit (by decide)
  case h_2 same =>
      cases same
      exact absurd digit (by decide)
  case h_3 same =>
      cases same
      exact absurd digit (by decide)
  case h_4 => rfl

theorem digitsValue_decimal {digits : Bytes} (decimal : ∀ ch ∈ digits, ch.toNat ≤ 57) :
    digitsValue digits = decDigits 0 digits := by
  unfold digitsValue
  split
  case h_1 => exact absurd (decimal 120 (by simp)) (by decide)
  case h_2 => exact absurd (decimal 88 (by simp)) (by decide)
  case h_3 => rfl

/-- The two signs that `lpb_pushinteger` puts in front of the digits. -/
theorem parseInteger_signed {ch : UInt8} {rest : Bytes} {v : UInt64} (digit : 48 ≤ ch.toNat)
    (value : digitsValue (ch :: rest) = some v) (negative : Prop) [Decidable negative] :
    parseInteger (35 :: (if negative then 45 :: ch :: rest else ch :: rest)) =
      some (if negative then ~~~v + 1 else v) := by
  split
  case isTrue =>
      have front : signs false (35 :: 45 :: ch :: rest) = (true, ch :: rest) := by
        rw [signs, signs, signs_digit digit]
        rfl
      rw [parseInteger, front, value]
      rfl
  case isFalse =>
      have front : signs false (35 :: ch :: rest) = (false, ch :: rest) := by
        rw [signs, signs_digit digit]
      rw [parseInteger, front, value]
      rfl

end Digits

/-- A number that is not zero has a first digit. -/
theorem pushDigits_ne_nil {base : Nat} {digit : Nat → UInt8} {room un : Nat} (positive : un ≠ 0)
    (p : Bytes) : pushDigits base digit (room + 1) un p ≠ [] := by
  have behind : ∀ room un p, ∃ front, pushDigits base digit room un p = front ++ p := by
    intro room
    induction room with
    | zero => exact fun un p => ⟨[], rfl⟩
    | succ room inductionHypothesis =>
        intro un p
        rw [pushDigits]
        split
        case isTrue => exact ⟨[], rfl⟩
        case isFalse =>
            rcases inductionHypothesis (un / base) (digit (un % base) :: p) with ⟨front, same⟩
            exact ⟨front ++ [digit (un % base)], by rw [same, List.append_cons]⟩
  rw [pushDigits, if_neg positive]
  rcases behind room (un / base) (digit (un % base) :: p) with ⟨front, same⟩
  rw [same]
  simp

/-- The characters of a number, and what they are read as. -/
structure Numeral (digits : Bytes) (un : Nat) : Prop where
  first : ∃ ch rest, digits = ch :: rest ∧ 48 ≤ ch.toNat
  value : digitsValue digits = some (UInt64.ofNat un)
  noZero : ∀ ch ∈ digits, ch ≠ 0

theorem numeral_decimal {un : Nat} (positive : un ≠ 0) (fits : un < 2 ^ 64) :
    Numeral (pushDigits 10 digitChar 31 un []) un := by
  have digit : ∀ ch ∈ pushDigits 10 digitChar 31 un [], 48 ≤ ch.toNat ∧ ch.toNat ≤ 57 := by
    intro ch membership
    rcases mem_pushDigits (by decide) membership with none' | ⟨n, bound, rfl⟩
    · cases none'
    · exact digitChar_decimal bound
  have room : un < 10 ^ 31 := lt_trans fits (by decide)
  constructor
  · cases made : pushDigits 10 digitChar 31 un [] with
    | nil => exact absurd made (pushDigits_ne_nil positive [])
    | cons ch rest =>
        rw [made] at digit
        exact ⟨ch, rest, rfl, (digit ch (List.mem_cons_self ..)).1⟩
  · rw [digitsValue_decimal fun ch membership => (digit ch membership).2, decDigits_push room]
    rfl
  · rintro ch membership rfl
    exact absurd (digit 0 membership).1 (by decide)

theorem numeral_hexadecimal {un : Nat} (fits : un < 2 ^ 64) :
    Numeral (48 :: 120 :: pushDigits 16 digitChar 31 un []) un := by
  have room : un < 16 ^ 31 := lt_trans fits (by decide)
  constructor
  · exact ⟨48, _, rfl, by decide⟩
  · rw [digitsValue, hexDigits_push room fits]
    rfl
  · rintro ch membership rfl
    rcases List.mem_cons.mp membership with same | later
    · exact absurd same (by decide)
    · rcases List.mem_cons.mp later with same | pushed
      · exact absurd same (by decide)
      · rcases mem_pushDigits (by decide) pushed with none' | ⟨n, bound, same⟩
        · cases none'
        · have back := hexchar_digitChar bound
          rw [← same] at back
          cases back

/-- The string or number that `lpb_pushinteger` makes of a 64-bit integer gives the integer back,
in every mode. -/
theorem integers_roundTrip {conv : Conversions} (standard : conv.Standard) (mode : Int64Mode)
    (n : LuaInteger) :
    tointegerx conv (pushinteger mode n) =
      .ok (some (UInt64.ofNat (n.value % 2 ^ 64).toNat)) := by
  have lower := n.lower
  have upper := n.upper
  rw [pushinteger]
  split
  case isFalse => rw [tointegerx, standard.integer]
  case isTrue large =>
      have positive : n.value.natAbs ≠ 0 := by omega
      have fits : n.value.natAbs < 2 ^ 64 := by omega
      have numeral : Numeral (if mode = .hexstring
          then 48 :: 120 :: pushDigits 16 digitChar 31 n.value.natAbs []
          else pushDigits 10 digitChar 31 n.value.natAbs []) n.value.natAbs := by
        split
        · exact numeral_hexadecimal fits
        · exact numeral_decimal positive fits
      simp only [tointegerx, standard.marked, standard.string]
      revert numeral
      generalize (if mode = .hexstring
          then 48 :: 120 :: pushDigits 16 digitChar 31 n.value.natAbs []
          else pushDigits 10 digitChar 31 n.value.natAbs []) = digits
      rintro ⟨⟨ch, rest, rfl, digit⟩, value, noZero⟩
      have whole : cString (35 :: (if n.value < 0 then 45 :: ch :: rest else ch :: rest)) =
          35 :: (if n.value < 0 then 45 :: ch :: rest else ch :: rest) := by
        rw [cString, List.takeWhile_eq_self_iff]
        intro other membership
        rcases List.mem_cons.mp membership with rfl | later
        · rfl
        · split at later
          · rcases List.mem_cons.mp later with rfl | inside
            · rfl
            · simpa using noZero other inside
          · simpa using noZero other later
      rw [whole, parseInteger_signed digit value]
      simp only [Except.ok.injEq, Option.some.injEq]
      apply UInt64.toNat_inj.mp
      split
      case isTrue negative =>
          rw [UInt64.toNat_add, UInt64.toNat_not, UInt64.toNat_ofNat', UInt64.toNat_ofNat']
          change (2 ^ 64 - 1 - _ + 1) % _ = _
          omega
      case isFalse =>
          rw [UInt64.toNat_ofNat', UInt64.toNat_ofNat']
          omega

/-- Conversions for values that are what a field asks for: no string is a numeral. -/
def plainConversions : Conversions where
  tointegerx
    | .integer v => some v
    | _ => none
  tonumberx
    | .number bits => some bits
    | _ => none
  tostring
    | .string s => some s
    | _ => none
  toUint64 := id
  encodeFloat bits := (bits >>> 32).toUInt32
  decodeFloat bits := bits.toUInt64 <<< 32
  strtod _ := none
  strtol _ := none
  rawlen entries := entries.length

theorem integers_roundTrip_min :
    tointegerx plainConversions (pushinteger .hexstring (.ofInt (-2 ^ 63))) =
      .ok (some (UInt64.ofNat ((LuaInteger.ofInt (-2 ^ 63)).value % 2 ^ 64).toNat)) :=
  integers_roundTrip ⟨fun _ => rfl, fun _ => rfl, fun _ => rfl⟩ .hexstring _

section ZigZag

theorem decodeSint32_toNat (n : UInt32) :
    decodeSint32 n = if n.toNat % 2 = 0 then UInt32.ofNat (n.toNat / 2)
      else ~~~UInt32.ofNat (n.toNat / 2) := by
  have low : (n &&& 1) = UInt32.ofNat (n.toNat % 2) := by
    apply UInt32.toNat_inj.mp
    have size := n.toNat_lt
    rw [UInt32.toNat_and, UInt32.toNat_ofNat']
    change n.toNat &&& 1 = _
    rw [Nat.and_one_is_mod]
    omega
  have high : n >>> 1 = UInt32.ofNat (n.toNat / 2) := by
    apply UInt32.toNat_inj.mp
    have size := n.toNat_lt
    rw [UInt32.toNat_shiftRight, UInt32.toNat_ofNat']
    change n.toNat >>> 1 = _
    rw [Nat.shiftRight_eq_div_pow]
    omega
  rw [decodeSint32, low, high]
  split
  case isTrue even =>
      rw [even]
      exact UInt32.xor_zero
  case isFalse odd =>
      rw [show n.toNat % 2 = 1 by omega]
      exact UInt32.xor_neg_one

theorem decodeSint32_encodeSint32 (n : UInt32) : decodeSint32 (encodeSint32 n) = n := by
  have size := n.toNat_lt
  have doubled : (n <<< 1).toNat = n.toNat * 2 % 2 ^ 32 := by
    rw [UInt32.toNat_shiftLeft, Nat.shiftLeft_eq]
    rfl
  rw [encodeSint32]
  split
  case isTrue low =>
      rw [UInt32.xor_zero, decodeSint32_toNat, doubled, if_pos (by omega)]
      apply UInt32.toNat_inj.mp
      rw [UInt32.toNat_ofNat']
      omega
  case isFalse high =>
      have flipped : (n <<< 1 ^^^ 0xFFFFFFFF).toNat = 2 ^ 32 - 1 - n.toNat * 2 % 2 ^ 32 := by
        rw [← doubled]
        exact (congrArg UInt32.toNat UInt32.xor_neg_one).trans (UInt32.toNat_not _)
      rw [decodeSint32_toNat, flipped, if_neg (by omega)]
      apply UInt32.toNat_inj.mp
      rw [UInt32.toNat_not, UInt32.toNat_ofNat']
      change 2 ^ 32 - 1 - _ = _
      omega

theorem decodeSint64_toNat (n : UInt64) :
    decodeSint64 n = if n.toNat % 2 = 0 then UInt64.ofNat (n.toNat / 2)
      else ~~~UInt64.ofNat (n.toNat / 2) := by
  have low : (n &&& 1) = UInt64.ofNat (n.toNat % 2) := by
    apply UInt64.toNat_inj.mp
    have size := n.toNat_lt
    rw [UInt64.toNat_and, UInt64.toNat_ofNat']
    change n.toNat &&& 1 = _
    rw [Nat.and_one_is_mod]
    omega
  have high : n >>> 1 = UInt64.ofNat (n.toNat / 2) := by
    apply UInt64.toNat_inj.mp
    have size := n.toNat_lt
    rw [UInt64.toNat_shiftRight, UInt64.toNat_ofNat']
    change n.toNat >>> 1 = _
    rw [Nat.shiftRight_eq_div_pow]
    omega
  rw [decodeSint64, low, high]
  split
  case isTrue even =>
      rw [even]
      exact UInt64.xor_zero
  case isFalse odd =>
      rw [show n.toNat % 2 = 1 by omega]
      exact UInt64.xor_neg_one

theorem decodeSint64_encodeSint64 (n : UInt64) : decodeSint64 (encodeSint64 n) = n := by
  have size := n.toNat_lt
  have doubled : (n <<< 1).toNat = n.toNat * 2 % 2 ^ 64 := by
    rw [UInt64.toNat_shiftLeft, Nat.shiftLeft_eq]
    rfl
  rw [encodeSint64]
  split
  case isTrue low =>
      rw [UInt64.xor_zero, decodeSint64_toNat, doubled, if_pos (by omega)]
      apply UInt64.toNat_inj.mp
      rw [UInt64.toNat_ofNat']
      omega
  case isFalse high =>
      have flipped : (n <<< 1 ^^^ 0xFFFFFFFFFFFFFFFF).toNat =
          2 ^ 64 - 1 - n.toNat * 2 % 2 ^ 64 := by
        rw [← doubled]
        exact (congrArg UInt64.toNat UInt64.xor_neg_one).trans (UInt64.toNat_not _)
      rw [decodeSint64_toNat, flipped, if_neg (by omega)]
      apply UInt64.toNat_inj.mp
      rw [UInt64.toNat_not, UInt64.toNat_ofNat']
      change 2 ^ 64 - 1 - _ = _
      omega

/-- The sign extension keeps the low half. -/
theorem toUInt32_expandsig (n : UInt32) : (expandsig n).toUInt32 = n := by
  have size := n.toNat_lt
  have quotient := Nat.xor_div_two_pow (a := n.toNat) (b := 2 ^ 31) (n := 31)
  have rest := Nat.xor_mod_two_pow (a := n.toNat) (b := 2 ^ 31) (n := 31)
  have flipped : (n.toUInt64 ^^^ 0x80000000).toNat = n.toNat ^^^ 2 ^ 31 := rfl
  apply UInt32.toNat_inj.mp
  rw [UInt64.toNat_toUInt32, expandsig, UInt64.toNat_sub, flipped]
  change (2 ^ 64 - 2 ^ 31 + _) % 2 ^ 64 % 2 ^ 32 = _
  by_cases low : n.toNat < 2 ^ 31
  · rw [show n.toNat / 2 ^ 31 = 0 by omega] at quotient
    change _ = 1 at quotient
    change _ = n.toNat % 2 ^ 31 ^^^ 0 at rest
    rw [Nat.xor_zero] at rest
    omega
  · rw [show n.toNat / 2 ^ 31 = 1 by omega] at quotient
    change _ = 0 at quotient
    change _ = n.toNat % 2 ^ 31 ^^^ 0 at rest
    rw [Nat.xor_zero] at rest
    omega

end ZigZag

end CrossOver.Lua.Pb
