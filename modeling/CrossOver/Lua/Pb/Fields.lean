import CrossOver.Lua.Pb.Turns

/-!
# `lua_pb`: one field

What `lpbE_field` appends is what `lpbD_rawfield` takes, and the tag in front of it leads
there.
-/

namespace CrossOver.Lua.Pb

open CrossOver.Lib

/-- The numbers are ones that a tag has room for, each for one field, and only the fields of an
enumeration point to one. -/
structure Ty.WellFormed (db : Database) (t : Ty) : Prop where
  positive : ∀ f ∈ t.fields, 0 ≤ f.number.toInt
  room : ∀ f ∈ t.fields, f.number.toInt < 2 ^ 29
  unique : ∀ f ∈ t.fields, t.field f.number = some f
  points : ∀ f ∈ t.fields, ∀ type ∈ db.typeOf f, type.isEnum = true →
    f.typeId = .enum ∧ type.isMap = false

def Database.WellFormed (db : Database) : Prop :=
  ∀ n, (db.types n).isEnum = false → (db.types n).WellFormed db

def Field.WellFormed (db : Database) (f : Field) : Prop :=
  f.typeId = .message → ∀ type ∈ db.typeOf f, type.WellFormed db

theorem Database.WellFormed.typeOf {db : Database} (formed : db.WellFormed) {f : Field} {type : Ty}
    (points : db.typeOf f = some type) (message : type.isEnum = false) : type.WellFormed db := by
  rcases Option.map_eq_some_iff.mp points with ⟨n, -, rfl⟩
  exact formed n message

theorem Database.WellFormed.field {db : Database} (formed : db.WellFormed) {t : Ty}
    (formedType : t.WellFormed db) {f : Field} (member : f ∈ t.fields) : f.WellFormed db := by
  intro message type points
  refine formed.typeOf points (Bool.eq_false_iff.mpr fun enum => ?_)
  have other := (formedType.points f member type points enum).1
  rw [message] at other
  cases other

theorem Database.WellFormed.map {db : Database} (formed : db.WellFormed) {t : Ty}
    (formedType : t.WellFormed db) {f : Field} (member : f ∈ t.fields) {type : Ty}
    (points : db.typeOf f = some type) (isMap : type.isMap = true) : type.WellFormed db := by
  refine formed.typeOf points (Bool.eq_false_iff.mpr fun enum => ?_)
  have other := (formedType.points f member type points enum).2
  rw [isMap] at other
  cases other

section Tags

variable {db : Database}

theorem WireType.number_lt (type : WireType) : type.number.toNat < 8 := by
  cases type <;> decide

theorem pair_toNat {number : UInt32} (room : number.toNat < 2 ^ 29) (type : WireType) :
    (pair number type).toNat = 8 * number.toNat + type.number.toNat := by
  have low : (type.number &&& 7).toNat = type.number.toNat := by cases type <;> rfl
  have high : (number <<< 3).toNat = number.toNat <<< 3 := by
    rw [UInt32.toNat_shiftLeft]
    change number.toNat <<< 3 % 2 ^ 32 = _
    rw [Nat.shiftLeft_eq]
    omega
  rw [pair, UInt32.toNat_or, low, high, Nat.shiftLeft_eq, Nat.mul_comm]
  exact (Nat.two_pow_add_eq_or_of_lt (i := 3) type.number_lt number.toNat).symm

theorem gettag_pair {number : UInt32} (room : number.toNat < 2 ^ 29) (type : WireType) :
    gettag (pair number type) = number := by
  have small := type.number_lt
  apply UInt32.toNat_inj.mp
  rw [gettag, UInt32.toNat_shiftRight, pair_toNat room]
  change (8 * number.toNat + type.number.toNat) >>> 3 = _
  rw [Nat.shiftRight_eq_div_pow]
  omega

theorem gettype_pair {number : UInt32} (room : number.toNat < 2 ^ 29) (type : WireType) :
    gettype (pair number type) = type := by
  have small := type.number_lt
  have low : (pair number type &&& 7).toNat = type.number.toNat := by
    rw [UInt32.toNat_and, pair_toNat room]
    change _ &&& (2 ^ 3 - 1) = _
    rw [Nat.and_two_pow_sub_one_eq_mod]
    omega
  rw [gettype, low]
  cases type <;> rfl

/-- The field that a tag has been made of. -/
theorem Ty.WellFormed.number_room {t : Ty} (formed : t.WellFormed db) {f : Field}
    (member : f ∈ t.fields) : f.number.toUInt32.toNat < 2 ^ 29 := by
  have positive : (0 : Int32) ≤ f.number := Int32.le_iff_toInt_le.mpr (formed.positive f member)
  have room := formed.room f member
  rw [Int32.toNat_toUInt32_of_le positive, ← Int32.toNat_toInt]
  omega

theorem Ty.WellFormed.gettag_tag {t : Ty} (formed : t.WellFormed db) {f : Field}
    (member : f ∈ t.fields) (type : WireType) :
    gettag (pair f.number.toUInt32 type) = f.number.toUInt32 :=
  gettag_pair (formed.number_room member) type

theorem Ty.WellFormed.field_tag {t : Ty} (formed : t.WellFormed db) {f : Field}
    (member : f ∈ t.fields) (type : WireType) :
    t.field (gettag (pair f.number.toUInt32 type)).toInt32 = some f := by
  rw [formed.gettag_tag member]
  exact formed.unique f member

theorem Ty.WellFormed.gettype_tag {t : Ty} (formed : t.WellFormed db) {f : Field}
    (member : f ∈ t.fields) (type : WireType) :
    gettype (pair f.number.toUInt32 type) = type :=
  gettype_pair (formed.number_room member) type

end Tags

section Values

variable {conv : Conversions} {db : Database} (opts : Options)
  {nestedE : Option Ty → List Entry → Bytes → Except Failure Bytes}
  {nestedD : Ty → Slice → List Entry → Except Failure (List Entry)}
  {nestedM : Ty → List Entry → List Entry → Except Failure (List Entry)}
  {f : Field} {value : LuaValue} {b out : Bytes}

/-- The messages inside are appended, and come back as they should. -/
def Agrees (db : Database) (nestedE : Option Ty → List Entry → Bytes → Except Failure Bytes)
    (nestedD : Ty → Slice → List Entry → Except Failure (List Entry))
    (nestedM : Ty → List Entry → List Entry → Except Failure (List Entry)) : Prop :=
  ∀ type entries b out, (∀ t, type = some t → t.WellFormed db) → nestedE type entries b = .ok out →
    ∃ inner, out = b ++ inner ∧ ∀ t, type = some t → inner.length ≤ maxSizet →
      ∀ pos start, nestedD t ⟨pos, inner⟩ start = nestedM t entries start

/-- The bytes of a field, without the tag. -/
structure Read (conv : Conversions) (db : Database) (opts : Options)
    (nestedD : Ty → Slice → List Entry → Except Failure (List Entry)) (f : Field) (bytes : Bytes)
    (made : Except Failure LuaValue) : Prop where
  nonempty : bytes ≠ []
  read : bytes.length ≤ maxSizet → ∀ pos rest,
    Decode.rawfield conv db opts nestedD f ⟨pos, bytes ++ rest⟩ =
      made >>= fun made => .ok (made, ⟨pos + bytes.length, rest⟩)

theorem write64_ne_nil (n : UInt64) : write64 n ≠ [] := by
  rw [write64_eq]
  exact Varint.encode_ne_nil (by decide) _

theorem write32_ne_nil (n : UInt32) : write32 n ≠ [] := by
  rw [write32_eq]
  exact Varint.encode_ne_nil (by decide) _

/-- The number of an enumeration is written as `lpbD_rawfield` reads it. -/
theorem enum_written (encoded : Encode.enum conv db f value b = .ok out) :
    ∃ bytes, out = b ++ bytes ∧ bytes ≠ [] ∧ ∀ pos rest, readvarint64 ⟨pos, bytes ++ rest⟩ =
      .ok (some (Meaning.enumNumber conv db f value, ⟨pos + bytes.length, rest⟩)) := by
  cases value with
  | integer v =>
      cases encoded
      exact ⟨_, rfl, write64_ne_nil _, fun pos rest => readvarint64_write64 _ pos rest⟩
  | number v =>
      cases encoded
      exact ⟨_, rfl, write64_ne_nil _, fun pos rest => readvarint64_write64 _ pos rest⟩
  | string s =>
      cases named : (db.typeOf f).bind (·.fname s) with
      | none =>
          rw [Encode.enum, named] at encoded
          cases encoded
      | some ev =>
          rw [Encode.enum, named] at encoded
          cases encoded
          refine ⟨_, rfl, write32_ne_nil _, fun pos rest => ?_⟩
          rw [Meaning.enumNumber, named]
          exact readvarint64_write32 _ pos rest
  | _ => cases encoded

theorem enum_read (encoded : Encode.enum conv db f value b = .ok out) (type : f.typeId = .enum) :
    ∃ bytes, out = b ++ bytes ∧
      Read conv db opts nestedD f bytes (Meaning.value conv db opts nestedM f value) := by
  rcases enum_written encoded with ⟨bytes, appended, nonempty, spelled⟩
  refine ⟨bytes, appended, nonempty, fun _ pos rest => ?_⟩
  unfold Decode.rawfield Meaning.value
  simp only [type, spelled, ok_bind, Meaning.enum]
  rfl

theorem checktable_eq_ok {entries : List Entry} (checked : checktable f value = .ok entries) :
    ∃ metatable length, value = .table metatable length entries := by
  unfold checktable at checked
  split at checked
  · cases checked
    exact ⟨_, _, rfl⟩
  · cases checked

theorem addlength_append (b inner : Bytes) :
    addlength (b ++ inner) b.length = b ++ (write64 (UInt64.ofNat inner.length) ++ inner) := by
  rw [addlength, List.take_left, List.drop_left, List.length_append, Nat.add_sub_cancel_left,
    List.append_assoc]

theorem message_read (agrees : Agrees db nestedE nestedD nestedM) (formed : f.WellFormed db)
    {entries : List Entry} (checked : checktable f value = .ok entries)
    (encoded : nestedE (db.typeOf f) entries b = .ok out) (type : f.typeId = .message) :
    ∃ bytes, addlength out b.length = b ++ bytes ∧
      Read conv db opts nestedD f bytes (Meaning.value conv db opts nestedM f value) := by
  rcases agrees _ _ _ _ (fun t points => formed type t points) encoded with ⟨inner, rfl, same⟩
  rcases checktable_eq_ok checked with ⟨metatable, length, rfl⟩
  refine ⟨_, addlength_append b inner, by simp [write64_ne_nil], fun short pos rest => ?_⟩
  have inside : inner.length ≤ maxSizet := by
    rw [List.length_append] at short
    omega
  unfold Decode.rawfield Meaning.value
  simp only [type, lpbReadbytes_write64 inside, ok_bind]
  cases points : db.typeOf f with
  | none => rfl
  | some type =>
      by_cases dead : type.isDead = true
      · simp only [dead, if_true]
        rfl
      · simp only [dead, Bool.false_eq_true, if_false,
          same type points inside, bind_assoc]
        rfl

/-- The bytes of a field that is neither an enumeration nor a message. -/
theorem scalar_read {bytes : Bytes} {zero : Bool}
    (added : addtype conv f.typeId value = .ok (some (bytes, zero))) :
    Read conv db opts nestedD f bytes (Meaning.value conv db opts nestedM f value) := by
  refine ⟨addtype_ne_nil added, fun short pos rest => ?_⟩
  have read := readtype_addtype opts added short pos rest
  unfold Decode.rawfield Meaning.value
  generalize f.typeId = type at added read
  cases type
  case enum | message | group => cases added
  all_goals exact read

theorem isZero_addtype {type : FieldType} {bytes : Bytes} {zero : Bool}
    (added : addtype conv type value = .ok (some (bytes, zero))) :
    Meaning.isZero conv type value = zero := by
  unfold Meaning.isZero
  cases type
  case enum | message | group => cases added
  all_goals simp only [added]

/-- What `lpbE_field` appends, and how much of it may be left out again. -/
theorem field_read (agrees : Agrees db nestedE nestedD nestedM) (formed : f.WellFormed db)
    {ignored : Nat} (encoded : Encode.field conv db nestedE f value b = .ok (out, ignored)) :
    ∃ bytes, out = b ++ bytes ∧
      ignored = (if Meaning.isZero conv f.typeId value then bytes.length else 0) ∧
      Read conv db opts nestedD f bytes (Meaning.value conv db opts nestedM f value) := by
  unfold Encode.field at encoded
  split at encoded
  case h_1 type =>
      rcases bind_eq_ok.mp encoded with ⟨number, written, equal⟩
      cases equal
      rcases enum_read opts written type with ⟨bytes, appended, read⟩
      exact ⟨bytes, appended, by rw [type]; rfl, read⟩
  case h_2 type =>
      rcases bind_eq_ok.mp encoded with ⟨entries, checked, encoded⟩
      rcases bind_eq_ok.mp encoded with ⟨inner, written, equal⟩
      cases equal
      rcases message_read opts agrees formed checked written type with ⟨bytes, appended, read⟩
      exact ⟨bytes, appended, by rw [type]; rfl, read⟩
  case h_3 =>
      rcases bind_eq_ok.mp encoded with ⟨found, added, equal⟩
      rcases found with - | ⟨bytes, zero⟩
      · cases equal
      · cases equal
        exact ⟨bytes, rfl, by rw [isZero_addtype added], scalar_read opts added⟩

end Values

end CrossOver.Lua.Pb
