import CrossOver.Lib.Result
import CrossOver.Lua.Seri
import Mathlib.Tactic.Zify

/-!
# Decoding what the scalar encoders wrote

`Reads rb rest` says what a read block still has to read.  `Decodes` says that a
decoder turns given bytes into a given value and stops right behind them; each
form of the encoding has a lemma of this shape.
-/

namespace CrossOver.Lua

open CrossOver.Lib

structure Reads (rb : ReadBlock) (rest : Bytes) : Prop where
  ptr : 0 ≤ rb.ptr
  len : rb.len = rest.length
  rest : rb.buffer.drop rb.ptr.toNat = rest

/-- The decoder turns `bytes` into `value`, whatever follows them. -/
def Decodes {Value : Type} (decoder : ReadBlock → Except Failure (Value × ReadBlock))
    (bytes : Bytes) (value : Value) : Prop :=
  ∀ rb rest, Reads rb (bytes ++ rest) →
    ∃ next, decoder rb = .ok (value, next) ∧ Reads next rest

theorem Reads.read {rb : ReadBlock} {front rest : Bytes} (reads : Reads rb (front ++ rest)) :
    ∃ next, rb.read front.length = some (rb.ptr, next) ∧
      rb.slice rb.ptr front.length = front ∧ Reads next rest := by
  have positive := reads.ptr
  have length := reads.len
  rw [List.length_append] at length
  refine ⟨{ rb with ptr := rb.ptr + front.length, len := rb.len - front.length }, ?_, ?_, ?_⟩
  · have enough : ¬ rb.len < (front.length : Int) := by omega
    simp only [ReadBlock.read, if_neg enough]
  · rw [ReadBlock.slice, reads.rest, List.take_left]
  · refine ⟨?_, ?_, ?_⟩
    · change 0 ≤ rb.ptr + front.length
      omega
    · change rb.len - front.length = rest.length
      omega
    · have offset : (rb.ptr + front.length).toNat = rb.ptr.toNat + front.length := by omega
      change rb.buffer.drop (rb.ptr + front.length).toNat = rest
      rw [offset, ← List.drop_drop, reads.rest, List.drop_left]

theorem readWord_decodes (width line value : Nat) (fits : value < 256 ^ width) :
    Decodes (fun rb => readWord rb width line) (leBytes width value) value := by
  intro rb rest reads
  obtain ⟨next, read, slice, nextReads⟩ := reads.read
  rw [leBytes_length] at read slice
  refine ⟨next, ?_, nextReads⟩
  simp only [readWord, read, slice, leValue_leBytes fits]

theorem readByte_decodes (line : Nat) (byte : UInt8) :
    Decodes (fun rb => readWord rb 1 line) [byte] byte.toNat := by
  have bytes : leBytes 1 byte.toNat = [byte] := by simp [leBytes]
  rw [← bytes]
  exact readWord_decodes 1 line byte.toNat (by have := byte.toNat_lt; omega)

theorem getBuffer_decodes (bytes : Bytes) :
    Decodes (fun rb => getBuffer rb bytes.length) bytes (.string bytes) := by
  intro rb rest reads
  obtain ⟨next, read, slice, nextReads⟩ := reads.read
  refine ⟨next, ?_, nextReads⟩
  have notNegative : ¬ ((bytes.length : Int) < 0) := by omega
  simp only [getBuffer, read, if_neg notNegative, Int.toNat_natCast, slice]

/-- The type and cookie a header byte is taken apart into. -/
theorem combineType_toNat {type cookie : Nat} (typeBound : type < 8) (cookieBound : cookie < 32) :
    (combineType type cookie).toNat = type + 8 * cookie := by
  have small : (((type : Int) + 8 * cookie) % 256).toNat = type + 8 * cookie := by omega
  simp only [combineType, small, UInt8.toNat_ofNat']
  omega

theorem intBytes_decodes (width line : Nat) (value : Int) :
    Decodes (fun rb => readWord rb width line) (intBytes width value)
      (value % 256 ^ width).toNat := by
  have modulus : (0 : Int) < 256 ^ width := Int.pow_pos (by decide)
  have upper := Int.emod_lt_of_pos value modulus
  have lower := Int.emod_nonneg value (ne_of_gt modulus)
  apply readWord_decodes
  zify
  rw [Int.toNat_of_nonneg lower]
  exact upper

theorem emod_toNat_cast (value : Int) (width : Nat) :
    (((value % 256 ^ width).toNat : Nat) : Int) = value % ((256 ^ width : Nat) : Int) := by
  have modulus : (0 : Int) < 256 ^ width := Int.pow_pos (by decide)
  rw [Int.toNat_of_nonneg (Int.emod_nonneg value (ne_of_gt modulus))]
  push_cast
  rfl

/-- The signed reading of a word written in two's complement. -/
theorem signed_emod (value : Int) (width : Nat) (lower : -((256 ^ width : Nat) : Int) ≤ value * 2)
    (upper : value * 2 < ((256 ^ width : Nat) : Int)) :
    signed width (value % 256 ^ width).toNat = value := by
  rw [signed, emod_toNat_cast, Int.emod_bmod, Int.bmod_eq_of_le_mul_two lower upper]

/-- The unsigned reading of a word that holds a natural number. -/
theorem unsigned_emod (value : Int) (width : Nat) (lower : 0 ≤ value)
    (upper : value < ((256 ^ width : Nat) : Int)) :
    (((value % 256 ^ width).toNat : Nat) : Int) = value := by
  rw [emod_toNat_cast, Int.emod_eq_of_lt lower upper]

theorem getInteger_decodes (cookie width line : Nat) (interpret : Nat → Int) (value : Int)
    (form : ∀ rb, getInteger rb cookie = readWord rb width line >>= fun read =>
      pure (interpret read.1, read.2))
    (interpreted : interpret (value % 256 ^ width).toNat = value) :
    Decodes (fun rb => getInteger rb cookie) (intBytes width value) value := by
  intro rb rest reads
  obtain ⟨next, read, nextReads⟩ := intBytes_decodes width line value rb rest reads
  refine ⟨next, ?_, nextReads⟩
  simp only [form, read, ok_bind, interpreted]
  rfl

theorem int32Of_bounds (value : Int) : -2 ^ 31 ≤ int32Of value ∧ int32Of value < 2 ^ 31 := by
  simp only [int32Of, Int.bmod]
  split <;> omega

theorem wbInteger_getInteger (v : LuaInteger) :
    ∃ cookie tail, (wbInteger v.value).flatten = combineType typeNumber (cookie : Nat) :: tail ∧
      cookie < 8 ∧ Decodes (fun rb => getInteger rb cookie) tail v.value := by
  have lower := v.lower
  have upper := v.upper
  have narrowBounds := int32Of_bounds v.value
  simp only [wbInteger]
  split_ifs with zero wide negative byte word
  · refine ⟨typeNumberZero, [], rfl, by decide, fun rb rest reads => ⟨rb, ?_, reads⟩⟩
    simp only [getInteger, if_true, zero]
  · refine ⟨typeNumberQword, intBytes 8 v.value, by simp, by decide, ?_⟩
    exact getInteger_decodes _ 8 389 (signed 8) _ (fun rb => rfl)
      (signed_emod v.value 8 (by omega) (by omega))
  · refine ⟨typeNumberDword, intBytes 4 v.value, by simp, by decide, ?_⟩
    exact getInteger_decodes _ 4 381 (signed 4) _ (fun rb => rfl)
      (signed_emod v.value 4 (by omega) (by omega))
  · refine ⟨typeNumberByte, intBytes 1 v.value, by simp, by decide, ?_⟩
    exact getInteger_decodes _ 1 365 Nat.cast _ (fun rb => rfl)
      (unsigned_emod v.value 1 (by omega) (by omega))
  · refine ⟨typeNumberWord, intBytes 2 v.value, by simp, by decide, ?_⟩
    exact getInteger_decodes _ 2 373 Nat.cast _ (fun rb => rfl)
      (unsigned_emod v.value 2 (by omega) (by omega))
  · refine ⟨typeNumberDword, intBytes 4 v.value, by simp, by decide, ?_⟩
    exact getInteger_decodes _ 4 381 (signed 4) _ (fun rb => rfl)
      (signed_emod v.value 4 (by omega) (by omega))

section Scalars

variable (rawlen : List Entry → Nat)
variable (nested : ReadBlock → Except Failure (LuaValue × ReadBlock))

/-- `unpack_one` with the recursive call as a parameter. -/
def unpackHead (rb : ReadBlock) : Except Failure (LuaValue × ReadBlock) := do
  let (type, rb) ← readWord rb 1 525
  pushValue rawlen nested rb (type % 8) (type / 8)

/-- A header byte followed by what `push_value` reads for it. -/
theorem unpackHead_decodes (type cookie : Nat) (typeBound : type < 8) (cookieBound : cookie < 32)
    {tail : Bytes} {value : LuaValue}
    (decodes : Decodes (fun rb => pushValue rawlen nested rb type cookie) tail value) :
    Decodes (unpackHead rawlen nested) (combineType type cookie :: tail) value := by
  intro rb rest reads
  obtain ⟨middle, read, middleReads⟩ :=
    readByte_decodes 525 (combineType type cookie) rb (tail ++ rest) reads
  obtain ⟨next, result, nextReads⟩ := decodes middle rest middleReads
  refine ⟨next, ?_, nextReads⟩
  have typeEq : (type + 8 * cookie) % 8 = type := by omega
  have cookieEq : (type + 8 * cookie) / 8 = cookie := by omega
  rw [combineType_toNat typeBound cookieBound] at read
  simp only [unpackHead, read, ok_bind, typeEq, cookieEq, result]

theorem wbNil_decodes : Decodes (unpackHead rawlen nested) wbNil.flatten .nil :=
  unpackHead_decodes rawlen nested typeNil 0 (by decide) (by decide)
    fun rb rest reads => ⟨rb, rfl, reads⟩

theorem wbBoolean_decodes (boolean : Bool) :
    Decodes (unpackHead rawlen nested) (wbBoolean boolean).flatten (.boolean boolean) := by
  cases boolean with
  | false =>
      exact unpackHead_decodes rawlen nested typeBoolean 0 (by decide) (by decide)
        fun rb rest reads => ⟨rb, rfl, reads⟩
  | true =>
      exact unpackHead_decodes rawlen nested typeBoolean 1 (by decide) (by decide)
        fun rb rest reads => ⟨rb, rfl, reads⟩

theorem wbInteger_decodes (v : LuaInteger) :
    Decodes (unpackHead rawlen nested) (wbInteger v.value).flatten (.integer v) := by
  obtain ⟨cookie, tail, bytes, cookieBound, decodes⟩ := wbInteger_getInteger v
  rw [bytes]
  refine unpackHead_decodes rawlen nested typeNumber cookie (by decide) (by omega) ?_
  intro rb rest reads
  obtain ⟨next, read, nextReads⟩ := decodes rb rest reads
  refine ⟨next, ?_, nextReads⟩
  have notReal : cookie ≠ typeNumberReal := Nat.ne_of_lt cookieBound
  change (if cookie = typeNumberReal then _ else _) = _
  rw [if_neg notReal]
  simp only [read, ok_bind, LuaInteger.ofInt_value]
  rfl

theorem wbReal_decodes (bits : UInt64) :
    Decodes (unpackHead rawlen nested) (wbReal bits).flatten (.number bits) := by
  have bytes : (wbReal bits).flatten =
      combineType typeNumber (typeNumberReal : Nat) :: leBytes 8 bits.toNat := by simp [wbReal]
  rw [bytes]
  refine unpackHead_decodes rawlen nested typeNumber typeNumberReal (by decide) (by decide) ?_
  intro rb rest reads
  obtain ⟨next, read, nextReads⟩ := readWord_decodes 8 404 bits.toNat bits.toNat_lt rb rest reads
  refine ⟨next, ?_, nextReads⟩
  change (getReal rb >>= _) = _
  simp only [getReal, read, ok_bind, pure, Except.pure, UInt64.ofNat_toNat]

theorem wbPointer_decodes (address : UInt64) :
    Decodes (unpackHead rawlen nested) (wbPointer address).flatten (.lightuserdata address) := by
  have bytes : (wbPointer address).flatten =
      combineType typeUserdata (0 : Nat) :: leBytes 8 address.toNat := by simp [wbPointer]
  rw [bytes]
  refine unpackHead_decodes rawlen nested typeUserdata 0 (by decide) (by decide) ?_
  intro rb rest reads
  obtain ⟨next, read, nextReads⟩ :=
    readWord_decodes 8 414 address.toNat address.toNat_lt rb rest reads
  refine ⟨next, ?_, nextReads⟩
  change (getPointer rb >>= _) = _
  simp only [getPointer, read, ok_bind, pure, Except.pure, UInt64.ofNat_toNat]

theorem longString_decodes (width line : Nat) (toLen : Nat → Int) (str : Bytes)
    (fits : str.length < 256 ^ width) (lengthEq : toLen str.length = str.length) :
    Decodes (fun rb => readWord rb width line >>= fun read => getBuffer read.2 (toLen read.1))
      (intBytes width str.length ++ str) (.string str) := by
  intro rb rest reads
  rw [List.append_assoc] at reads
  have modulus : ((str.length : Int) % 256 ^ width).toNat = str.length := by
    have cast : (256 ^ width : Int) = ((256 ^ width : Nat) : Int) := by push_cast; rfl
    rw [cast, ← Int.natCast_mod, Int.toNat_natCast, Nat.mod_eq_of_lt fits]
  obtain ⟨middle, read, middleReads⟩ := intBytes_decodes width line str.length rb _ reads
  obtain ⟨next, result, nextReads⟩ := getBuffer_decodes str middle rest middleReads
  refine ⟨next, ?_, nextReads⟩
  simp only [read, ok_bind, modulus, lengthEq, result]

theorem wbString_decodes (str : Bytes) (short : str.length < 2 ^ 31) :
    Decodes (unpackHead rawlen nested) (wbString str (int32Of str.length)).flatten
      (.string str) := by
  have lengthEq : int32Of (str.length : Int) = str.length := int32Of_of_bounds (by omega) (by omega)
  have whole : str.take ((str.length : Int).toNat) = str := by simp
  rw [lengthEq]
  simp only [wbString, whole, maxCookie]
  split_ifs with cookie positive word
  · simp only [List.flatten_cons, List.flatten_nil, List.append_nil, List.singleton_append]
    exact unpackHead_decodes rawlen nested typeShortString str.length (by decide) (by omega)
      (getBuffer_decodes str)
  · have empty : str = [] := List.eq_nil_of_length_eq_zero (by omega)
    subst empty
    exact unpackHead_decodes rawlen nested typeShortString 0 (by decide) (by omega)
      (getBuffer_decodes [])
  · simp only [List.flatten_cons, List.flatten_nil, List.append_nil, List.singleton_append]
    refine unpackHead_decodes rawlen nested typeLongString 2 (by decide) (by decide) ?_
    exact longString_decodes 2 490 Nat.cast str (by omega) rfl
  · simp only [List.flatten_cons, List.flatten_nil, List.append_nil, List.singleton_append]
    refine unpackHead_decodes rawlen nested typeLongString 4 (by decide) (by decide) ?_
    exact longString_decodes 4 501 (fun n => int32Of n) str (by omega) lengthEq

end Scalars

end CrossOver.Lua
