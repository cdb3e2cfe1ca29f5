import CrossOver.Lua.Pb.Meaning

/-!
# Values of one field

What `lpb_addtype` has appended is what `lpb_readtype` takes, whatever follows, and it comes
back cut to the type of the field.
-/

namespace CrossOver.Lua.Pb

open CrossOver.Lib

section Readers

variable {pos : Nat} {rest : Bytes}

theorem readvarint64_write32 (n : UInt32) (pos : Nat) (rest : Bytes) :
    readvarint64 ⟨pos, write32 n ++ rest⟩ =
      .ok (some (n.toUInt64, ⟨pos + (write32 n).length, rest⟩)) := by
  have fits : n.toNat < 128 ^ 10 := lt_of_lt_of_le n.toNat_lt (by decide)
  have same : UInt64.ofNat n.toNat = n.toUInt64 := by
    apply UInt64.toNat_inj.mp
    have size := n.toNat_lt
    rw [UInt64.toNat_ofNat', UInt32.toNat_toUInt64]
    omega
  rw [write32_eq_ten, readvarint64_eq, readvarintSlow_eq, Varint.decode_encode (by decide) fits,
    Option.map_some, Slice.from_append, same]

theorem readfixed_append {bytes : Bytes} {width : Nat} (size : bytes.length = width) :
    readfixed width ⟨pos, bytes ++ rest⟩ = some (leValue bytes, ⟨pos + width, rest⟩) := by
  subst size
  rw [readfixed, if_neg (by simp), List.take_left, List.drop_left, Slice.from_append]

theorem readfixed32_leBytes (n : UInt32) :
    readfixed32 ⟨pos, leBytes 4 n.toNat ++ rest⟩ = some (n, ⟨pos + 4, rest⟩) := by
  rw [readfixed32, readfixed_append (leBytes_length 4 _), Option.map_some,
    leValue_leBytes n.toNat_lt, UInt32.ofNat_toNat]

theorem readfixed64_leBytes (n : UInt64) :
    readfixed64 ⟨pos, leBytes 8 n.toNat ++ rest⟩ = some (n, ⟨pos + 8, rest⟩) := by
  rw [readfixed64, readfixed_append (leBytes_length 8 _), Option.map_some,
    leValue_leBytes n.toNat_lt, UInt64.ofNat_toNat]

theorem readslice_append (pos : Nat) (part rest : Bytes) :
    readslice ⟨pos, part ++ rest⟩ part.length =
      some (⟨pos, part⟩, ⟨pos + part.length, rest⟩) := by
  rw [readslice, if_neg (by simp), List.take_left, List.drop_left, Slice.from_append]

theorem lpbReadbytes_of_len {digits part : Bytes} {len : UInt64}
    (spelled : readvarint64 ⟨pos, digits ++ (part ++ rest)⟩ =
      .ok (some (len, ⟨pos + digits.length, part ++ rest⟩)))
    (size : len.toNat = part.length) (short : part.length ≤ maxSizet) :
    lpbReadbytes ⟨pos, digits ++ (part ++ rest)⟩ =
      .ok (⟨pos + digits.length, part⟩, ⟨pos + digits.length + part.length, rest⟩) := by
  simp only [lpbReadbytes, spelled, ok_bind]
  rw [size, if_neg (by omega), readslice_append]
  rfl

/-- A part with its length in front, as `pb_addlength` leaves it. -/
theorem lpbReadbytes_write64 {part : Bytes} (short : part.length ≤ maxSizet) :
    lpbReadbytes ⟨pos, write64 (UInt64.ofNat part.length) ++ part ++ rest⟩ =
      .ok (⟨pos + (write64 (UInt64.ofNat part.length)).length, part⟩,
        ⟨pos + (write64 (UInt64.ofNat part.length) ++ part).length, rest⟩) := by
  have size : (UInt64.ofNat part.length).toNat = part.length := by
    rw [UInt64.toNat_ofNat']
    rw [maxSizet] at short
    omega
  rw [List.append_assoc, lpbReadbytes_of_len (readvarint64_write64 _ _ _) size short,
    List.length_append, Nat.add_assoc]

theorem lpbReadbytes_addbytes {part : Bytes} (short : part.length ≤ maxSizet) :
    lpbReadbytes ⟨pos, addbytes part ++ rest⟩ =
      .ok (⟨pos + (write32 (UInt32.ofNat part.length)).length, part⟩,
        ⟨pos + (addbytes part).length, rest⟩) := by
  have size : (UInt32.ofNat part.length).toUInt64.toNat = part.length := by
    rw [UInt32.toNat_toUInt64, UInt32.toNat_ofNat']
    rw [maxSizet] at short
    omega
  rw [addbytes, List.append_assoc, lpbReadbytes_of_len (readvarint64_write32 _ _ _) size short,
    List.length_append, Nat.add_assoc]

end Readers

section Integers

theorem lowInteger_congr {width : Nat} {isSigned : Bool} {a b : Nat}
    (same : a % 2 ^ width = b % 2 ^ width) :
    lowInteger width isSigned a = lowInteger width isSigned b := by
  have unsigned : (a : Int) % (2 ^ width : Nat) = (b : Int) % (2 ^ width : Nat) := by
    rw [← Int.natCast_emod, ← Int.natCast_emod, same]
  have signed : Int.bmod a (2 ^ width) = Int.bmod b (2 ^ width) := by
    rw [← Int.emod_bmod (x := a), ← Int.emod_bmod (x := b), unsigned]
  have parts : (a : Int) % 2 ^ width = (b : Int) % 2 ^ width := by
    rwa [Nat.cast_pow] at unsigned
  rw [lowInteger, lowInteger, signed, parts]

theorem low32 (v : UInt64) : v.toUInt32.toNat % 2 ^ 32 = v.toNat % 2 ^ 32 := by
  rw [UInt64.toNat_toUInt32, Nat.mod_mod]

theorem readtype_varint {conv : Conversions} {opts : Options} {type : FieldType} {s t : Slice}
    {n : UInt64} (integer : type.isInteger = true) (wire : type.wtype = .varint)
    (found : readvarint64 s = .ok (some (n, t))) :
    readtype conv opts type s = .ok (pushinteger opts.int64Mode (readInteger type n), t) := by
  cases type
  case int64 | uint64 | int32 | uint32 | sint32 | sint64 => simp only [readtype, found]; rfl
  all_goals first | exact absurd integer (by decide) | exact absurd wire (by decide)

theorem readtype_bit32 {conv : Conversions} {opts : Options} {type : FieldType} {s t : Slice}
    {n : UInt32} (integer : type.isInteger = true) (wire : type.wtype = .bit32)
    (found : readfixed32 s = some (n, t)) :
    readtype conv opts type s =
      .ok (pushinteger opts.int64Mode (readInteger type n.toUInt64), t) := by
  cases type
  case fixed32 | sfixed32 => simp only [readtype, found]; rfl
  all_goals first | exact absurd integer (by decide) | exact absurd wire (by decide)

theorem readtype_bit64 {conv : Conversions} {opts : Options} {type : FieldType} {s t : Slice}
    {n : UInt64} (integer : type.isInteger = true) (wire : type.wtype = .bit64)
    (found : readfixed64 s = some (n, t)) :
    readtype conv opts type s = .ok (pushinteger opts.int64Mode (readInteger type n), t) := by
  cases type
  case fixed64 | sfixed64 => simp only [readtype, found]; rfl
  all_goals first | exact absurd integer (by decide) | exact absurd wire (by decide)

theorem readtype_integerBytes (conv : Conversions) (opts : Options) {type : FieldType}
    (integer : type.isInteger = true) (v : UInt64) (pos : Nat) (rest : Bytes) :
    readtype conv opts type ⟨pos, integerBytes type v ++ rest⟩ =
      .ok (pushinteger opts.int64Mode (type.cut v),
        ⟨pos + (integerBytes type v).length, rest⟩) := by
  have half := low32 v
  have word : v.toUInt32.toUInt64.toNat % 2 ^ 32 = v.toNat % 2 ^ 32 := by
    rw [UInt32.toNat_toUInt64, half]
  cases type
  case int32 =>
      have extended : (expandsig v.toUInt32).toNat % 2 ^ 32 = v.toNat % 2 ^ 32 := by
        rw [← half, ← toUInt32_expandsig v.toUInt32, UInt64.toNat_toUInt32, Nat.mod_mod,
          toUInt32_expandsig]
      have same : readInteger .int32 (expandsig v.toUInt32) = FieldType.int32.cut v :=
        lowInteger_congr extended
      rw [integerBytes, readtype_varint rfl rfl (readvarint64_write64 _ _ _), same]
  case uint32 =>
      have same : readInteger .uint32 v.toUInt32.toUInt64 = FieldType.uint32.cut v :=
        lowInteger_congr word
      rw [integerBytes, readtype_varint rfl rfl (readvarint64_write32 _ _ _), same]
  case sint32 =>
      have unfolded : (decodeSint32 (encodeSint32 v.toUInt32).toUInt64.toUInt32).toNat % 2 ^ 32 =
          v.toNat % 2 ^ 32 := by
        rw [UInt32.toUInt32_toUInt64, decodeSint32_encodeSint32, half]
      have same : readInteger .sint32 (encodeSint32 v.toUInt32).toUInt64 =
          FieldType.sint32.cut v := lowInteger_congr unfolded
      rw [integerBytes, readtype_varint rfl rfl (readvarint64_write32 _ _ _), same]
  case fixed32 =>
      have same : readInteger .fixed32 v.toUInt32.toUInt64 = FieldType.fixed32.cut v :=
        lowInteger_congr word
      rw [integerBytes, readtype_bit32 rfl rfl (readfixed32_leBytes _), same, leBytes_length]
  case sfixed32 =>
      have same : readInteger .sfixed32 v.toUInt32.toUInt64 = FieldType.sfixed32.cut v :=
        lowInteger_congr word
      rw [integerBytes, readtype_bit32 rfl rfl (readfixed32_leBytes _), same, leBytes_length]
  case sint64 =>
      have same : readInteger .sint64 (encodeSint64 v) = FieldType.sint64.cut v :=
        congrArg (fun n : UInt64 => lowInteger 64 true n.toNat) (decodeSint64_encodeSint64 v)
      rw [integerBytes, readtype_varint rfl rfl (readvarint64_write64 _ _ _), same]
  case int64 =>
      have same : readInteger .int64 v = FieldType.int64.cut v := rfl
      rw [integerBytes, readtype_varint rfl rfl (readvarint64_write64 _ _ _), same]
      all_goals simp
  case uint64 =>
      have same : readInteger .uint64 v = FieldType.uint64.cut v := rfl
      rw [integerBytes, readtype_varint rfl rfl (readvarint64_write64 _ _ _), same]
      all_goals simp
  case fixed64 =>
      have same : readInteger .fixed64 v = FieldType.fixed64.cut v := rfl
      rw [integerBytes, readtype_bit64 rfl rfl (readfixed64_leBytes _), same, leBytes_length]
  case sfixed64 =>
      have same : readInteger .sfixed64 v = FieldType.sfixed64.cut v := rfl
      rw [integerBytes, readtype_bit64 rfl rfl (readfixed64_leBytes _), same, leBytes_length]
  all_goals cases integer

end Integers

section Beyond

variable {s t : Slice}

theorem readfixed_beyond {width n : Nat} (positive : 0 < width)
    (found : readfixed width s = some (n, t)) : t.Beyond s := by
  rw [readfixed] at found
  split at found
  case isTrue => cases found
  case isFalse room =>
      cases found
      exact skipslice_beyond positive (if_neg room)

theorem readfixed32_beyond {n : UInt32} (found : readfixed32 s = some (n, t)) : t.Beyond s := by
  rcases Option.map_eq_some_iff.mp found with ⟨⟨value, rest⟩, fixed, equal⟩
  cases equal
  exact readfixed_beyond (by decide) fixed

theorem readfixed64_beyond {n : UInt64} (found : readfixed64 s = some (n, t)) : t.Beyond s := by
  rcases Option.map_eq_some_iff.mp found with ⟨⟨value, rest⟩, fixed, equal⟩
  cases equal
  exact readfixed_beyond (by decide) fixed

theorem lpbReadbytes_beyond {sv : Slice} (found : lpbReadbytes s = .ok (sv, t)) : t.Beyond s := by
  rcases bind_eq_ok.mp found with ⟨number, read, taken⟩
  rcases number with - | ⟨len, u⟩
  · cases taken
  · simp only at taken
    split at taken
    case isTrue => cases taken
    case isFalse =>
        rw [readslice] at taken
        split at taken
        case h_1 _ _ room =>
            split at room
            · cases room
            · cases room
              cases taken
              exact (readvarint64_beyond read).drop (by omega)
        case h_2 => cases taken

section Types

variable {value : LuaValue}

theorem varint_beyond {f : UInt64 → LuaValue} (found : (do
    match ← readvarint64 s with
    | none => offsetError "invalid varint value at offset " s
    | some (v, t) => return (f v, t)) = Except.ok (value, t)) : t.Beyond s := by
  rcases bind_eq_ok.mp found with ⟨number, spelled, equal⟩
  rcases number with - | ⟨v, u⟩
  · cases equal
  · cases equal
    exact readvarint64_beyond spelled

theorem fixed32_beyond {f : UInt32 → LuaValue} (found : (match readfixed32 s with
    | none => offsetError "invalid fixed32 value at offset " s
    | some (v, t) => .ok (f v, t)) = Except.ok (value, t)) : t.Beyond s := by
  split at found
  case h_1 => cases found
  case h_2 number =>
      cases found
      exact readfixed32_beyond number

theorem fixed64_beyond {f : UInt64 → LuaValue} (found : (match readfixed64 s with
    | none => offsetError "invalid fixed64 value at offset " s
    | some (v, t) => .ok (f v, t)) = Except.ok (value, t)) : t.Beyond s := by
  split at found
  case h_1 => cases found
  case h_2 number =>
      cases found
      exact readfixed64_beyond number

theorem readtype_beyond {conv : Conversions} {opts : Options} {type : FieldType}
    (found : readtype conv opts type s = .ok (value, t)) : t.Beyond s := by
  cases type
  case float | fixed32 | sfixed32 => exact fixed32_beyond found
  case double | fixed64 | sfixed64 => exact fixed64_beyond found
  case group => cases found
  case bytes | string | message =>
      rcases bind_eq_ok.mp found with ⟨⟨sv, u⟩, read, equal⟩
      cases equal
      exact lpbReadbytes_beyond read
  all_goals exact varint_beyond found

end Types

end Beyond

section Types

variable {conv : Conversions} {type : FieldType} {value : LuaValue}
  {bytes : Bytes} {zero : Bool}

theorem addtype_integer (integer : type.isInteger = true) :
    addtype conv type value =
      (tointegerx conv value >>= fun v => .ok (v.map fun v => (integerBytes type v, v == 0))) := by
  cases type
  case int64 | uint64 | int32 | uint32 | sint32 | sint64 | fixed32 | fixed64 | sfixed32 | sfixed64 =>
    rfl
  all_goals cases integer

theorem scalar_integer (opts : Options) (integer : type.isInteger = true) {v : UInt64}
    (number : tointegerx conv value = .ok (some v)) :
    Meaning.scalar conv opts type value = pushinteger opts.int64Mode (type.cut v) := by
  cases type
  case int64 | uint64 | int32 | uint32 | sint32 | sint64 | fixed32 | fixed64 | sfixed32 | sfixed64 =>
    simp only [Meaning.scalar, number]
  all_goals cases integer

theorem addtype_string (added : (match value with
      | .string s => .ok (some (addbytes s, s.isEmpty))
      | _ => .ok none : Except Failure (Option (Bytes × Bool))) = .ok (some (bytes, zero))) :
    ∃ s, value = .string s ∧ bytes = addbytes s := by
  split at added
  case h_1 s =>
      cases added
      exact ⟨s, rfl, rfl⟩
  case h_2 => cases added

/-- What `lpb_addtype` has appended is read back, cut to the type. -/
theorem readtype_addtype (opts : Options) (added : addtype conv type value = .ok (some (bytes, zero)))
    (short : bytes.length ≤ maxSizet) (pos : Nat) (rest : Bytes) :
    readtype conv opts type ⟨pos, bytes ++ rest⟩ =
      .ok (Meaning.scalar conv opts type value, ⟨pos + bytes.length, rest⟩) := by
  by_cases integer : type.isInteger = true
  · rw [addtype_integer integer] at added
    rcases bind_eq_ok.mp added with ⟨number, converted, equal⟩
    cases number with
    | none => cases equal
    | some v =>
        cases equal
        rw [readtype_integerBytes conv opts integer, scalar_integer opts integer converted]
  · cases type
    case bool =>
        cases added
        simp only [readtype, readvarint64_write32, ok_bind, Meaning.scalar]
        cases toboolean value <;> rfl
    case double =>
        rw [addtype] at added
        rcases Option.map_eq_some_iff.mp (Except.ok.inj added) with ⟨v, number, equal⟩
        cases equal
        simp only [readtype, readfixed64_leBytes, Meaning.scalar, number, leBytes_length]
        rfl
    case float =>
        rw [addtype] at added
        rcases Option.map_eq_some_iff.mp (Except.ok.inj added) with ⟨v, number, equal⟩
        cases equal
        simp only [readtype, readfixed32_leBytes, Meaning.scalar, number, leBytes_length]
        rfl
    case string | bytes =>
        rcases addtype_string added with ⟨s, rfl, rfl⟩
        have inner : s.length ≤ maxSizet := by
          rw [addbytes, List.length_append] at short
          omega
        simp only [readtype, lpbReadbytes_addbytes inner, ok_bind, Meaning.scalar]
        rfl
    all_goals first | cases added | exact absurd rfl integer

/-- Every value takes at least one byte. -/
theorem addtype_ne_nil (added : addtype conv type value = .ok (some (bytes, zero))) :
    bytes ≠ [] := by
  rintro rfl
  have found := readtype_addtype ⟨false, .nodef, .number⟩ added (Nat.zero_le _) 0 []
  exact absurd (readtype_beyond found).shorter (lt_irrefl 0)

end Types

end CrossOver.Lua.Pb
