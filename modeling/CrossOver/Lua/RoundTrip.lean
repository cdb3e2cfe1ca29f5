import CrossOver.Lua.Tables

/-!
# Unpacking undoes packing

The induction is on the depth left to the encoder.  The length of the stream is a
function of the values alone, `serializedSize`; from `2 ^ 31` bytes on the `int`
that counts it has overflowed.
-/

namespace CrossOver.Lua

open CrossOver.Lib

theorem wbInteger_positive (v : Int) : 0 < (wbInteger v).flatten.length := by
  simp only [wbInteger]
  split_ifs <;> simp

theorem wbString_positive (str : Bytes) (len : Int) : 0 < (wbString str len).flatten.length := by
  simp only [wbString]
  split_ifs <;> simp

theorem arrayHeader_positive (arraySize : Int) : 0 < (arrayHeader arraySize).flatten.length := by
  simp only [arrayHeader]
  split_ifs <;> simp

theorem packOne_string (left : Nat) (bytes : Bytes) :
    packOne (left + 1) (.string bytes) = .ok (wbString bytes (int32Of bytes.length)) := rfl

theorem packOne_positive (left : Nat) (value : LuaValue) (pushes : List Bytes)
    (success : packOne left value = .ok pushes) : 0 < pushes.flatten.length := by
  cases left with
  | zero => cases success
  | succ left =>
      cases value with
      | nil => cases success; decide
      | integer v => cases success; exact wbInteger_positive v.value
      | number bits => cases success; simp [wbReal]
      | boolean boolean => cases success; simp [wbBoolean]
      | string bytes =>
          obtain rfl := Except.ok.inj (packOne_string left bytes ▸ success)
          exact wbString_positive bytes _
      | lightuserdata address => cases success; simp [wbPointer]
      | unsupported typename => cases success
      | table metapairs border entries =>
          cases metapairs with
          | some pairs =>
              obtain ⟨packed, -, success⟩ := bind_eq_ok.mp success
              cases success
              simp
          | none =>
              obtain ⟨array, arrayPacked, success⟩ := bind_eq_ok.mp success
              obtain ⟨hash, -, success⟩ := bind_eq_ok.mp success
              obtain ⟨elements, -, arrayPacked⟩ := bind_eq_ok.mp arrayPacked
              obtain rfl := pure_eq_ok.mp success
              obtain rfl := pure_eq_ok.mp arrayPacked
              have header := arrayHeader_positive (int32Of border)
              simp only [List.flatten_append, List.length_append]
              omega

/-- `unpack_one` undoes `pack_one`. -/
theorem packOne_inverse (rawlen : List Entry → Nat) (left fuel : Nat) :
    Inverse (packOne left) (unpackOne rawlen fuel) fuel := by
  induction left generalizing fuel with
  | zero =>
      intro value pushes good success
      cases success
  | succ left inductionHypothesis =>
      intro value pushes good success short
      have positive := packOne_positive (left + 1) value pushes success
      obtain ⟨fuel, rfl⟩ : ∃ rest, fuel = rest + 1 := ⟨fuel - 1, by omega⟩
      change ∃ value', Same value value' ∧
        Decodes (unpackHead rawlen (unpackOne rawlen fuel)) pushes.flatten value'
      cases value with
      | nil =>
          cases success
          exact ⟨.nil, .nil, wbNil_decodes _ _⟩
      | integer v =>
          cases success
          exact ⟨.integer v, .integer v, wbInteger_decodes _ _ v⟩
      | number bits =>
          cases success
          exact ⟨.number bits, .number bits, wbReal_decodes _ _ bits⟩
      | boolean boolean =>
          cases success
          exact ⟨.boolean boolean, .boolean boolean, wbBoolean_decodes _ _ boolean⟩
      | string bytes =>
          obtain rfl := Except.ok.inj (packOne_string left bytes ▸ success)
          obtain ⟨wellFormed, -⟩ := good
          cases wellFormed with
          | string bytes bound =>
              exact ⟨.string bytes, .string bytes, wbString_decodes _ _ bytes bound⟩
      | lightuserdata address =>
          cases success
          exact ⟨.lightuserdata address, .lightuserdata address, wbPointer_decodes _ _ address⟩
      | unsupported typename => cases success
      | table metapairs border entries =>
          cases metapairs with
          | some pairs => cases good.wellFormed
          | none =>
              have fits : HeaderFits border := good.headers none border entries (.self _)
              obtain ⟨array, arrayPacked, success⟩ := bind_eq_ok.mp success
              obtain ⟨hash, hashPacked, success⟩ := bind_eq_ok.mp success
              obtain ⟨elements, elementsPacked, arrayPacked⟩ := bind_eq_ok.mp arrayPacked
              obtain rfl := pure_eq_ok.mp success
              obtain rfl := pure_eq_ok.mp arrayPacked
              obtain ⟨cookie, tail, size, header, cookieBound, sizeDecodes, sizeEq⟩ :=
                arrayHeader_decodes fits
              rw [List.flatten_append, List.flatten_append, header] at short ⊢
              simp only [List.length_append, List.length_cons] at short
              have nilDecodes : Decodes (unpackOne rawlen fuel) wbNil.flatten .nil := by
                obtain ⟨less, rfl⟩ : ∃ rest, fuel = rest + 1 := ⟨fuel - 1, by
                  have hashPositive := packPairs_length (packOne_positive left) hashPacked
                  omega⟩
                exact wbNil_decodes _ _
              obtain ⟨value', same, decodes⟩ := unpackTable_decodes rawlen good
                (inductionHypothesis fuel) nilDecodes (packOne_positive left) elementsPacked
                hashPacked (by omega) sizeEq sizeDecodes
              refine ⟨value', same, ?_⟩
              have whole := unpackHead_decodes rawlen (unpackOne rawlen fuel) typeTable cookie
                (by decide) cookieBound decodes
              simpa [List.append_assoc] using whole

section Size

def integerSize (v : Int) : Nat :=
  if v = 0 then 1
  else if v ≠ int32Of v then 9
  else if v < 0 then 5
  else if v < 0x100 then 2
  else if v < 0x10000 then 3
  else 5

def stringSize (length : Nat) : Nat :=
  if length < 32 then 1 + length
  else if length < 0x10000 then 3 + length
  else 5 + length

def arraySizes (one : LuaValue → Nat) (entries : List Entry) : Nat → Int → Nat
  | 0, _ => 0
  | count + 1, i => one (rawgeti entries i) + arraySizes one entries count (i + 1)

def pairSizes (one : LuaValue → Nat) : List Entry → Nat
  | [] => 1
  | pair :: rest => one pair.1 + one pair.2 + pairSizes one rest

def headerSize (arraySize : Int) : Nat :=
  if arraySize ≥ 31 then 1 + integerSize arraySize else 1

/-- The number of bytes a value takes, with `left` levels of nesting to go. -/
def serializedSize : Nat → LuaValue → Nat
  | 0, _ => 0
  | left + 1, value =>
      match value with
      | .nil => 1
      | .boolean _ => 1
      | .integer v => integerSize v.value
      | .number _ => 9
      | .lightuserdata _ => 9
      | .string bytes => stringSize bytes.length
      | .table _ border entries =>
          headerSize (int32Of border) +
            arraySizes (serializedSize left) entries (int32Of border).toNat 1 +
            pairSizes (serializedSize left)
              (entries.filter fun entry => !inArray (int32Of border) entry.1)
      | .unsupported _ => 0

theorem wbInteger_size (v : Int) : (wbInteger v).flatten.length = integerSize v := by
  simp only [wbInteger, integerSize]
  split_ifs <;> simp [intBytes]

theorem wbString_size (str : Bytes) : (wbString str str.length).flatten.length =
    stringSize str.length := by
  have cookie : (maxCookie : Int) = 32 := rfl
  by_cases short : str.length < 32
  · have shortInt : (str.length : Int) < 32 := by omega
    rw [wbString, cookie, if_pos shortInt, stringSize, if_pos short]
    split_ifs with positive
    · simp [Nat.add_comm]
    · have empty : str.length = 0 := by omega
      simp [empty]
  · have longInt : ¬ (str.length : Int) < 32 := by omega
    rw [wbString, cookie, if_neg longInt, stringSize, if_neg short]
    by_cases word : str.length < 0x10000
    · have wordInt : (str.length : Int) < 0x10000 := by omega
      rw [if_pos wordInt, if_pos word]
      simp [intBytes]
      omega
    · have wordInt : ¬ (str.length : Int) < 0x10000 := by omega
      rw [if_neg wordInt, if_neg word]
      simp [intBytes]
      omega

theorem arrayHeader_size (arraySize : Int) :
    (arrayHeader arraySize).flatten.length = headerSize arraySize := by
  have cookie : (maxCookie : Int) - 1 = 31 := rfl
  simp only [arrayHeader, headerSize, cookie]
  split_ifs
  · rw [List.flatten_cons, List.length_append, wbInteger_size]
    rfl
  · rfl

variable {packed : LuaValue → Except Failure (List Bytes)} {one : LuaValue → Nat}

theorem packArray_size {border : Nat} {entries : List Entry}
    (good : Good (.table none border entries))
    (sizes : ∀ value pushes, Good value → packed value = .ok pushes →
      pushes.flatten.length = one value)
    (count : Nat) (i : Int) (pushes : List Bytes)
    (success : packArray packed entries count i = .ok pushes) :
    pushes.flatten.length = arraySizes one entries count i := by
  induction count generalizing i pushes with
  | zero =>
      obtain rfl := Except.ok.inj success
      rfl
  | succ count inductionHypothesis =>
      obtain ⟨element, elementPacked, success⟩ := bind_eq_ok.mp success
      obtain ⟨rest, restPacked, success⟩ := bind_eq_ok.mp success
      obtain rfl := pure_eq_ok.mp success
      rw [List.flatten_append, List.length_append, arraySizes,
        sizes _ _ (rawgeti_good good i) elementPacked, inductionHypothesis _ _ restPacked]

theorem packPairs_size
    (sizes : ∀ value pushes, Good value → packed value = .ok pushes →
      pushes.flatten.length = one value)
    (pairs : List Entry) (goodKeys : ∀ pair ∈ pairs, Good pair.1)
    (goodValues : ∀ pair ∈ pairs, Good pair.2) (pushes : List Bytes)
    (success : packPairs packed pairs = .ok pushes) :
    pushes.flatten.length = pairSizes one pairs := by
  induction pairs generalizing pushes with
  | nil =>
      obtain rfl := Except.ok.inj success
      rfl
  | cons pair rest inductionHypothesis =>
      obtain ⟨keyPushes, keyPacked, success⟩ := bind_eq_ok.mp success
      obtain ⟨valuePushes, valuePacked, success⟩ := bind_eq_ok.mp success
      obtain ⟨restPushes, restPacked, success⟩ := bind_eq_ok.mp success
      obtain rfl := pure_eq_ok.mp success
      rw [List.flatten_append, List.flatten_append, List.length_append, List.length_append,
        pairSizes, sizes _ _ (goodKeys pair List.mem_cons_self) keyPacked,
        sizes _ _ (goodValues pair List.mem_cons_self) valuePacked,
        inductionHypothesis
          (fun other membership => goodKeys other (List.mem_cons_of_mem _ membership))
          (fun other membership => goodValues other (List.mem_cons_of_mem _ membership))
          _ restPacked]

theorem packOne_size (left : Nat) (value : LuaValue) (pushes : List Bytes) (good : Good value)
    (success : packOne left value = .ok pushes) :
    pushes.flatten.length = serializedSize left value := by
  induction left generalizing value pushes with
  | zero => cases success
  | succ left inductionHypothesis =>
      cases value with
      | nil => cases success; rfl
      | integer v => cases success; exact wbInteger_size v.value
      | number bits => cases success; simp [wbReal, serializedSize]
      | boolean boolean => cases success; simp [wbBoolean, serializedSize]
      | string bytes =>
          obtain ⟨wellFormed, -⟩ := good
          cases wellFormed with
          | string bytes bound =>
              obtain rfl := Except.ok.inj (packOne_string left bytes ▸ success)
              have lengthEq : int32Of (bytes.length : Int) = bytes.length :=
                int32Of_of_bounds (by omega) (by omega)
              rw [lengthEq, wbString_size]
              rfl
      | lightuserdata address => cases success; simp [wbPointer, serializedSize]
      | unsupported typename => cases success
      | table metapairs border entries =>
          cases metapairs with
          | some pairs => cases good.wellFormed
          | none =>
              obtain ⟨array, arrayPacked, success⟩ := bind_eq_ok.mp success
              obtain ⟨hash, hashPacked, success⟩ := bind_eq_ok.mp success
              obtain ⟨elements, elementsPacked, arrayPacked⟩ := bind_eq_ok.mp arrayPacked
              obtain rfl := pure_eq_ok.mp success
              obtain rfl := pure_eq_ok.mp arrayPacked
              have kept : ∀ pair ∈ entries.filter
                  (fun entry => !inArray (int32Of border) entry.1), pair ∈ entries :=
                fun pair membership => (List.mem_filter.mp membership).1
              have hashSize := packPairs_size inductionHypothesis _
                (fun pair membership => good.key (kept pair membership))
                (fun pair membership => good.value (kept pair membership)) hash hashPacked
              have elementsSize := packArray_size good inductionHypothesis _ 1 _ elementsPacked
              rw [List.flatten_append, List.flatten_append, List.length_append,
                List.length_append, arrayHeader_size, elementsSize, hashSize]
              rfl

theorem packFrom_size (values : List LuaValue) (good : ∀ value ∈ values, Good value)
    (pushes : List Bytes) (success : packFrom values = .ok pushes) :
    pushes.flatten.length = (values.map (serializedSize (maxDepth + 1))).sum := by
  induction values generalizing pushes with
  | nil => cases success; rfl
  | cons value rest inductionHypothesis =>
      obtain ⟨first, firstPacked, success⟩ := bind_eq_ok.mp success
      obtain ⟨others, othersPacked, success⟩ := bind_eq_ok.mp success
      obtain rfl := pure_eq_ok.mp success
      rw [List.flatten_append, List.length_append, List.map_cons, List.sum_cons,
        packOne_size _ _ _ (good value List.mem_cons_self) firstPacked,
        inductionHypothesis
          (fun other membership => good other (List.mem_cons_of_mem _ membership)) _ othersPacked]

end Size

theorem unpackLoop_decodes (rawlen : List Entry → Nat) (values : List LuaValue)
    (good : ∀ value ∈ values, Good value) (pushes : List Bytes)
    (success : packFrom values = .ok pushes) (depth fuel : Nat)
    (deep : pushes.flatten.length ≤ depth + 1) (enough : values.length < fuel) (rb : ReadBlock)
    (reads : Reads rb pushes.flatten) :
    ∃ returned, unpackLoop rawlen depth fuel rb = .ok returned ∧
      List.Forall₂ Same values returned := by
  induction values generalizing pushes fuel rb with
  | nil =>
      obtain rfl := Except.ok.inj success
      obtain ⟨fuel, rfl⟩ := Nat.exists_eq_add_one_of_ne_zero (Nat.ne_of_gt enough)
      have empty : rb.len < 1 := by
        have length := reads.len
        simp at length
        omega
      exact ⟨[], by simp only [unpackLoop, ReadBlock.read, if_pos empty], .nil⟩
  | cons value rest inductionHypothesis =>
      obtain ⟨first, firstPacked, success⟩ := bind_eq_ok.mp success
      obtain ⟨others, othersPacked, success⟩ := bind_eq_ok.mp success
      obtain rfl := pure_eq_ok.mp success
      rw [List.length_cons] at enough
      obtain ⟨fuel, rfl⟩ :=
        Nat.exists_eq_add_one_of_ne_zero (Nat.ne_of_gt (Nat.zero_lt_of_lt enough))
      rw [List.flatten_append] at reads deep
      rw [List.length_append] at deep
      obtain ⟨value', same, decodes⟩ := packOne_inverse rawlen (maxDepth + 1) (depth + 1) value first
        (good value List.mem_cons_self) firstPacked (by omega)
      obtain ⟨next, result, nextReads⟩ := decodes rb _ reads
      obtain ⟨returned, restResult, sameRest⟩ :=
        inductionHypothesis (fun other membership => good other (List.mem_cons_of_mem _ membership))
          others othersPacked fuel (by omega) (Nat.lt_of_succ_lt_succ enough) next nextReads
      refine ⟨value' :: returned, ?_, .cons same sameRest⟩
      have positive := packOne_positive _ _ _ firstPacked
      have readable : ¬ rb.len < 1 := by
        have length := reads.len
        rw [List.length_append] at length
        omega
      have readable' : ¬ rb.len < ((1 : Nat) : Int) := readable
      simp only [unpackOne, readWord, ReadBlock.read, if_neg readable', ok_bind] at result
      simp only [unpackLoop, ReadBlock.read, if_neg readable]
      simp only [Nat.cast_one] at result
      rw [result]
      simp only [ok_bind, restResult]
      rfl

theorem packFrom_length {values : List LuaValue} {pushes : List Bytes}
    (success : packFrom values = .ok pushes) : values.length ≤ pushes.flatten.length := by
  induction values generalizing pushes with
  | nil => simp
  | cons value rest inductionHypothesis =>
      obtain ⟨first, firstPacked, success⟩ := bind_eq_ok.mp success
      obtain ⟨others, othersPacked, success⟩ := bind_eq_ok.mp success
      obtain rfl := pure_eq_ok.mp success
      have positive := packOne_positive _ _ _ firstPacked
      have longer := inductionHypothesis othersPacked
      rw [List.flatten_append, List.length_append, List.length_cons]
      omega

/-- What `pack` returns when the stream it writes stays below `2 ^ 32` bytes. -/
theorem pack_eq {values : List LuaValue} {packed : Bytes} {size : Int}
    (success : pack values = .ok (packed, size)) :
    ∃ pushes, packFrom values = .ok pushes ∧
      (pushes.flatten.length < 2 ^ 32 → packed = pushes.flatten ∧ packed.length < 2 ^ 31) := by
  obtain ⟨pushes, pushed, success⟩ := bind_eq_ok.mp success
  refine ⟨pushes, pushed, fun bound => ?_⟩
  obtain ⟨wb, result, sound, content⟩ :=
    WriteBlock.pushAll_spec pushes WriteBlock.init WriteBlock.init_sound
  rw [WriteBlock.init_content, List.nil_append] at content
  have counted := sound.len
  rw [content] at counted
  simp only [result] at success
  have narrow : pushes.flatten.length < 2 ^ 31 := by
    by_contra wide
    have negative : wb.len < 0 := by
      rw [counted]
      simp only [int32Of, Int.bmod]
      split <;> omega
    rw [seri, if_pos negative] at success
    cases success
  rw [seri_content sound (by rwa [content])] at success
  have packedEq : wb.content = packed := congrArg Prod.fst (Except.ok.inj success)
  rw [← packedEq, content]
  exact ⟨rfl, narrow⟩

/-- Unpacking the packed bytes gives back the values, provided that the size of
every array part survives its header and the stream stays below `2 ^ 32` bytes. -/
theorem unpack_pack (rawlen : List Entry → Nat) (values : List LuaValue) (packed : Bytes)
    (size : Int) (wellFormed : ∀ value ∈ values, WellFormed value)
    (headers : ∀ value ∈ values, HeadersFit value)
    (small : (values.map (serializedSize (maxDepth + 1))).sum < 2 ^ 32)
    (success : pack values = .ok (packed, size)) :
    ∃ returned, unpack rawlen (.string packed) = .ok returned ∧
      List.Forall₂ Same values returned := by
  have good : ∀ value ∈ values, Good value :=
    fun value membership => ⟨wellFormed value membership, headers value membership⟩
  obtain ⟨pushes, pushed, stream⟩ := pack_eq success
  have total := packFrom_size values good pushes pushed
  obtain ⟨packedEq, narrow⟩ := stream (by rw [total]; exact small)
  have length : int32Of (packed.length : Int) = packed.length :=
    int32Of_of_bounds (by omega) (by omega)
  have count := packFrom_length pushed
  rw [← packedEq] at count
  simp only [unpack, unpackBuffer, length]
  split_ifs with empty
  · have noValues : values = [] := List.eq_nil_of_length_eq_zero (by omega)
    rw [noValues]
    exact ⟨[], rfl, .nil⟩
  · refine unpackLoop_decodes rawlen values good pushes pushed _ _ ?_ ?_ _ ?_
    · rw [← packedEq, Int.toNat_natCast]
      omega
    · rw [Int.toNat_natCast]
      omega
    · rw [← packedEq]
      exact ⟨Int.le_refl 0, rfl, rfl⟩

/-- A table with an array part, a hole and a string key. -/
def mixedTable : LuaValue :=
  .table none 3
    [(.integer (.ofInt 3), .number 0x7ff8000000000000),
      (.string [107], .integer (.ofInt (-70000))),
      (.integer (.ofInt 1), .boolean true)]

theorem mixedTable_wellFormed : WellFormed mixedTable := by
  refine .table _ _ ?_ ?_ ?_ ?_ ?_
  · simpa using ⟨.integer _, .string _ (by decide), .integer _⟩
  · simpa using ⟨.number _, .integer _, .boolean _⟩
  · simp [IsKey, LuaValue.isNil, LuaValue.normalizeKey]
  · simp [LuaValue.isNil]
  · simp only [List.pairwise_cons, List.Pairwise.nil, and_true]
    decide

theorem mixedTable_headersFit : HeadersFit mixedTable := by
  intro metapairs border entries inside
  cases inside with
  | self => exact Or.inl (by decide)
  | key membership inner =>
      simp only [List.mem_cons, List.not_mem_nil, or_false] at membership
      rcases membership with rfl | rfl | rfl <;> cases inner
  | value membership inner =>
      simp only [List.mem_cons, List.not_mem_nil, or_false] at membership
      rcases membership with rfl | rfl | rfl <;> cases inner

theorem unpack_pack_mixed :
    pack [mixedTable] = .ok ([30, 9, 0, 66, 0, 0, 0, 0, 0, 0, 248, 127, 12, 107, 34, 144, 238, 254,
      255, 0], 20) ∧
    ∃ returned, unpack (fun _ => 0) (.string [30, 9, 0, 66, 0, 0, 0, 0, 0, 0, 248, 127, 12, 107, 34,
        144, 238, 254, 255, 0]) = .ok returned ∧
      List.Forall₂ Same [mixedTable] returned := by
  refine ⟨rfl, unpack_pack (fun _ => 0) [mixedTable] _ 20 ?_ ?_ (by decide) rfl⟩
  · intro value membership
    rw [List.mem_singleton.mp membership]
    exact mixedTable_wellFormed
  · intro value membership
    rw [List.mem_singleton.mp membership]
    exact mixedTable_headersFit

/-- The powers of two up to `2 ^ 31` and one key behind the last of them, all in
the hash part: `lua_rawlen` doubles its way up to the last key. -/
def sparseTable : LuaValue :=
  .table none 2147483649
    (((List.range 32).map fun power => (.integer (LuaInteger.ofInt (2 ^ power)), .boolean true)) ++
      [(.integer (LuaInteger.ofInt 2147483649), .boolean true)])

def sparseBytes : Bytes :=
  [14] ++ ((List.range 32).flatMap fun power => (wbInteger (2 ^ power)).flatten ++ [9]) ++
    (wbInteger 2147483649).flatten ++ [9, 0]

theorem sparseTable_wellFormed : WellFormed sparseTable := by
  have keys : ∀ index, IsKey (.integer index) := fun index => ⟨rfl, rfl⟩
  refine .table _ _ ?_ ?_ ?_ ?_ ?_
  · simp only [List.mem_append, List.mem_map, List.mem_singleton]
    rintro entry (⟨power, -, rfl⟩ | rfl) <;> exact .integer _
  · simp only [List.mem_append, List.mem_map, List.mem_singleton]
    rintro entry (⟨power, -, rfl⟩ | rfl) <;> exact .boolean _
  · simp only [List.mem_append, List.mem_map, List.mem_singleton]
    rintro entry (⟨power, -, rfl⟩ | rfl) <;> exact keys _
  · simp only [List.mem_append, List.mem_map, List.mem_singleton]
    rintro entry (⟨power, -, rfl⟩ | rfl) <;> rfl
  · decide +kernel

/-- The array size of this table is negative as an `int`, and its header
announces one array element that is not there. -/
theorem sparseTable_lost :
    WellFormed sparseTable ∧ pack [sparseTable] = .ok (sparseBytes, 168) ∧
      ¬ ∃ returned, unpack (fun _ => 0) (.string sparseBytes) = .ok returned ∧
        List.Forall₂ Same [sparseTable] returned := by
  refine ⟨sparseTable_wellFormed, by decide +kernel, ?_⟩
  rintro ⟨returned, result, -⟩
  have fails : (unpack (fun _ => 0) (.string sparseBytes)).isOk = false := by decide +kernel
  rw [result] at fails
  cases fails

end CrossOver.Lua
