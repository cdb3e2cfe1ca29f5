import CrossOver.Lua.Bson.Replace

/-!
# What replacing a field comes to

The index names the last field of a fixed size with the key, and the bytes of that
field are replaced.  Decoding stores the fields one after the other, so what
comes out is an assignment to the key in the decoded table, unless a later
field has the same name.
-/

namespace CrossOver.Lua.Bson

open CrossOver.Lib

section Lookup

variable {key : Bytes} {value : LuaValue}

theorem rawgetField_mem {entries : List Entry} (found : rawgetField entries key = value)
    (notNil : value.isNil = false) : (.string key, value) ∈ entries := by
  induction entries with
  | nil =>
      rw [← found] at notNil
      cases notNil
  | cons entry rest inductionHypothesis =>
      obtain ⟨name, held⟩ := entry
      rw [rawgetField] at found
      by_cases same : LuaValue.rawEqual (.string key) name = true
      · rw [if_pos same] at found
        rw [rawEqual_eq same, found]
        exact List.mem_cons_self
      · rw [if_neg same] at found
        exact List.mem_cons_of_mem _ (inductionHypothesis found)

structure Indexed (fields : List Field) (key : Bytes) (front : List Field) (field : Field)
    (back : List Field) : Prop where
  split : fields = front ++ field :: back
  name : field.key = key
  sized : field.sized = true
  last : ∀ later ∈ back, later.sized = true → later.key ≠ key

def payloadOffset (front : List Field) (field : Field) : Nat :=
  4 + (fieldsBytes front).length + field.key.length + 2

theorem fieldEntry_sized {start : Int} {field : Field} (sized : field.sized = true) :
    fieldEntry start field =
      some (.string field.key, .integer (fieldId field.type (start + field.key.length + 2))) :=
  if_pos sized

theorem fieldEntry_unsized {start : Int} {field : Field} (unsized : ¬ field.sized = true) :
    fieldEntry start field = none := if_neg unsized

theorem indexFields_mem {fields : List Field} {start : Int} {stored : List Entry}
    (found : (.string key, value) ∈ indexFields start fields stored) :
    ((.string key, value) ∈ stored ∧ ∀ field ∈ fields, field.sized = true → field.key ≠ key) ∨
      ∃ front field back, Indexed fields key front field back ∧
        value = .integer (fieldId field.type
          (start + (fieldsBytes front).length + field.key.length + 2)) := by
  induction fields generalizing start stored with
  | nil => exact .inl ⟨found, fun field among => absurd among List.not_mem_nil⟩
  | cons field rest inductionHypothesis =>
      rw [indexFields] at found
      rcases inductionHypothesis found with ⟨here, unnamed⟩ |
        ⟨front, noted, back, indexed, isValue⟩
      · by_cases sized : field.sized = true
        · rw [fieldEntry_sized sized] at here
          rcases mem_setSlot.mp here with ⟨old, differ⟩ | ⟨-, new⟩
          · refine .inl ⟨old, fun other among otherSized => ?_⟩
            rcases List.mem_cons.mp among with rfl | later
            · rintro rfl
              simp [LuaValue.rawEqual] at differ
            · exact unnamed other later otherSized
          · cases new
            refine .inr ⟨[], field, rest, ⟨rfl, rfl, sized, unnamed⟩, ?_⟩
            rw [show (fieldsBytes []).length = 0 from rfl, Int.natCast_zero, Int.add_zero]
        · rw [fieldEntry_unsized sized] at here
          refine .inl ⟨here, fun other among otherSized => ?_⟩
          rcases List.mem_cons.mp among with rfl | later
          · exact absurd otherSized sized
          · exact unnamed other later otherSized
      · obtain ⟨rfl, name, sized, last⟩ := indexed
        refine .inr ⟨field :: front, noted, back, ⟨rfl, name, sized, last⟩, ?_⟩
        rw [isValue, fieldsBytes_cons, List.length_append, Int.natCast_add, ← Int.add_assoc]

theorem indexed_of_rawgetField {fields : List Field} {id : LuaInteger}
    (found : rawgetField (indexFields 4 fields []) key = .integer id) :
    ∃ front field back, Indexed fields key front field back ∧
      id = fieldId field.type (payloadOffset front field) := by
  rcases indexFields_mem (rawgetField_mem found rfl) with ⟨nowhere, -⟩ |
    ⟨front, field, back, indexed, isId⟩
  · cases nowhere
  · refine ⟨front, field, back, indexed, ?_⟩
    rw [payloadOffset]
    push_cast
    exact LuaValue.integer.inj isId

end Lookup

section Place

theorem memcpy_middle {front old new : Bytes} (back : Bytes) (same : new.length = old.length) :
    memcpy (front ++ (old ++ back)) front.length new = front ++ (new ++ back) := by
  rw [memcpy, List.take_left, same, List.append_assoc, ← List.drop_drop, List.drop_left,
    List.drop_left]

theorem document_around (front : List Field) (field : Field) (back : List Field) :
    ∃ head tail, head.length = payloadOffset front field ∧
      ∀ payload : Bytes, payload.length = field.payload.length →
        document (fieldsBytes (front ++ { field with payload := payload } :: back)) =
          head ++ (payload ++ tail) := by
  refine ⟨intBytes 4 ((fieldsBytes (front ++ field :: back)).length + 5) ++ (fieldsBytes front ++
    ([field.type] ++ (field.key ++ [0]))), fieldsBytes back ++ [0], ?_, ?_⟩
  · simp only [List.length_append, intBytes_length, List.length_singleton, payloadOffset]
    omega
  · intro payload same
    have size : (fieldsBytes (front ++ { field with payload := payload } :: back)).length =
        (fieldsBytes (front ++ field :: back)).length := by
      simp only [fieldsBytes_append, fieldsBytes_cons, List.length_append, field_bytes_length, same]
    have content : fieldsBytes (front ++ { field with payload := payload } :: back) =
        (fieldsBytes front ++ ([field.type] ++ (field.key ++ [0]))) ++
          (payload ++ fieldsBytes back) := by
      rw [fieldsBytes_append, fieldsBytes_cons]
      simp only [Field.bytes, element, List.append_assoc]
    rw [document, size, content]
    simp only [List.append_assoc]

theorem store_payload (front : List Field) (field : Field) (back : List Field) {payload : Bytes}
    (same : payload.length = field.payload.length) :
    Lib.store (document (fieldsBytes (front ++ field :: back))) (payloadOffset front field)
        payload =
      some (document (fieldsBytes (front ++ { field with payload := payload } :: back))) := by
  obtain ⟨head, tail, place, around⟩ := document_around front field back
  have before := around field.payload rfl
  have after := around payload same
  rw [before, after, ← place, Lib.store]
  by_cases empty : payload = []
  · rw [if_pos empty]
    rw [empty] at same
    rw [List.eq_nil_of_length_eq_zero same.symm, empty]
  · rw [if_neg empty, if_pos, Int.toNat_natCast, memcpy_middle tail same]
    simp only [List.length_append]
    omega

end Place

section Accepted

variable {rt : Runtime} {conversions : Conversions}

theorem sized_type_lt {field : Field} (sized : field.sized = true) : field.type.toNat < 32 := by
  have positive : 0 < (fixedWidth field.type).getD 0 := of_decide_eq_true sized
  unfold fixedWidth at positive
  split_ifs at positive with eight int32 boolean objectid empty
  · rcases eight with same | same | same | same <;> rw [same] <;> decide
  · rw [int32]
    decide
  · rw [boolean]
    decide
  · rw [objectid]
    decide
  · cases positive
  · cases positive

theorem payload_width {type : UInt8} {payload : Bytes} {width : Nat}
    (wellFormed : Payload type payload) (fixed : fixedWidth type = some width) :
    payload.length = width := by
  cases wellFormed with
  | fixed same => exact Option.some.inj (same.symm.trans fixed)
  | raw data known =>
      rw [rawBehind_unsized known] at fixed
      cases fixed
  | _ => exact absurd fixed (by simp [fixedWidth, bsonReal, bsonDate, bsonTimestamp, bsonInt64,
      bsonInt32, bsonBoolean, bsonObjectid, bsonNull, bsonMinkey, bsonMaxkey, bsonString,
      bsonBinary, bsonRegex, bsonDocument, bsonArray])

theorem fieldId_packed {type : UInt8} (known : type.toNat < 32) (offset : Nat) :
    (fieldId type offset).value = int32Of (32 * offset + type.toNat) := by
  have packed : type.toNat ||| offset <<< bsonTypeShift = 2 ^ 5 * offset + type.toNat := by
    rw [Nat.shiftLeft_eq, Nat.or_comm, Nat.mul_comm]
    exact (Nat.two_pow_add_eq_or_of_lt known offset).symm
  have bounds : -2 ^ 63 ≤ int32Of (32 * offset + type.toNat) ∧
      int32Of (32 * offset + type.toNat) < 2 ^ 63 := by
    simp only [int32Of, Int.bmod]
    split <;> omega
  rw [fieldId, Int.toNat_natCast, packed]
  push_cast
  exact ofInt_value_of_bounds _ bounds.1 bounds.2

/-- The type and the place in the index, while the place is small enough for both in an `int`. -/
theorem fieldId_near {type : UInt8} {offset : Nat} (known : type.toNat < 32)
    (near : offset < 2 ^ 26) :
    int32Of (fieldId type offset).value % 2 ^ bsonTypeShift = type.toNat ∧
      int32Of (fieldId type offset).value / 2 ^ bsonTypeShift = offset := by
  have shift : (2 : Int) ^ bsonTypeShift = 32 := by decide
  have whole : int32Of (32 * offset + type.toNat) = 32 * offset + type.toNat :=
    int32Of_of_bounds (by omega) (by omega)
  rw [fieldId_packed known offset, whole, whole, shift]
  omega

/-- Beyond that the place comes out as one in front of the document. -/
theorem fieldId_far {type : UInt8} {offset : Nat} (known : type.toNat < 32)
    (far : 2 ^ 26 ≤ offset) (inside : offset < 2 ^ 27) :
    int32Of (fieldId type offset).value % 2 ^ bsonTypeShift = type.toNat ∧
      int32Of (fieldId type offset).value / 2 ^ bsonTypeShift < 0 := by
  have shift : (2 : Int) ^ bsonTypeShift = 32 := by decide
  have wrapped : int32Of (32 * offset + type.toNat) = 32 * offset + type.toNat - 2 ^ 32 := by
    simp only [int32Of, Int.bmod]
    split <;> omega
  rw [fieldId_packed known offset, wrapped, int32Of_of_bounds (by omega) (by omega), shift]
  omega

variable {index : List Entry} {key : Bytes} {value : LuaValue} {front back : List Field}
  {field : Field}

/-- The write for an entry of the index of this type and this place. -/
theorem lreplace_run {document : Bytes} {id : LuaInteger} {type : UInt8} {offset : Int}
    (found : rawgetField index key = .integer id)
    (isType : int32Of id.value % 2 ^ bsonTypeShift = type.toNat)
    (isOffset : int32Of id.value / 2 ^ bsonTypeShift = offset) :
    lreplace rt conversions (some index) document (.string key) value =
      (replacement rt conversions type value >>= fun data => overwrite document offset data) := by
  rw [lreplace]
  dsimp only [indexed]
  rw [found]
  dsimp only
  rw [isType, isOffset, Int.toNat_natCast, UInt8.ofNat_toNat]

/-- A value that is not rejected has bytes of the width of the field. -/
theorem accepted_replaces {document : Bytes} {id : LuaInteger} {offset : Int}
    (found : rawgetField index key = .integer id)
    (isType : int32Of id.value % 2 ^ bsonTypeShift = field.type.toNat)
    (isOffset : int32Of id.value / 2 ^ bsonTypeShift = offset) (wellFormed : field.WellFormed)
    (accepted : ∀ message, lreplace rt conversions (some index) document (.string key) value ≠
      .error (.luaError message)) :
    ∃ payload written, payload.length = field.payload.length ∧
      replacement rt conversions field.type value = .ok payload ∧
      Replaces conversions field.type value payload written := by
  cases chosen : replacement rt conversions field.type value with
  | error failure =>
      obtain ⟨message, rfl⟩ := replacement_settles _ _ _ chosen
      rw [lreplace_run found isType isOffset, chosen] at accepted
      exact absurd rfl (accepted message)
  | ok payload =>
      obtain ⟨written, replaces⟩ := replacement_replaces chosen
      exact ⟨payload, written, (payload_width wellFormed.payload replaces.width).symm, rfl,
        replaces⟩

/-- It is written over the payload of the field. -/
theorem lreplace_near (sized : field.sized = true) (wellFormed : field.WellFormed)
    (found : rawgetField index key = .integer (fieldId field.type (payloadOffset front field)))
    (near : payloadOffset front field < 2 ^ 26)
    (accepted : ∀ message, lreplace rt conversions (some index)
      (document (fieldsBytes (front ++ field :: back))) (.string key) value ≠
        .error (.luaError message)) :
    ∃ payload written, payload.length = field.payload.length ∧
      Replaces conversions field.type value payload written ∧
      lreplace rt conversions (some index) (document (fieldsBytes (front ++ field :: back)))
          (.string key) value =
        .ok (document (fieldsBytes (front ++ { field with payload := payload } :: back))) := by
  obtain ⟨isType, isOffset⟩ := fieldId_near (sized_type_lt sized) near
  obtain ⟨payload, written, width, chosen, replaces⟩ :=
    accepted_replaces found isType isOffset wellFormed accepted
  refine ⟨payload, written, width, replaces, ?_⟩
  rw [lreplace_run found isType isOffset, chosen, ok_bind, overwrite,
    store_payload front field back width]

/-- Or in front of the document. -/
theorem lreplace_far {document : Bytes} (sized : field.sized = true)
    (wellFormed : field.WellFormed)
    (found : rawgetField index key = .integer (fieldId field.type (payloadOffset front field)))
    (far : 2 ^ 26 ≤ payloadOffset front field) (inside : payloadOffset front field < 2 ^ 27)
    (accepted : ∀ message, lreplace rt conversions (some index) document (.string key) value ≠
      .error (.luaError message)) :
    lreplace rt conversions (some index) document (.string key) value = .error .outOfBounds := by
  obtain ⟨isType, negative⟩ := fieldId_far (sized_type_lt sized) far inside
  obtain ⟨payload, written, width, chosen, replaces⟩ :=
    accepted_replaces found isType rfl wellFormed accepted
  have positive : 0 < (fixedWidth field.type).getD 0 := of_decide_eq_true sized
  rw [replaces.width, Option.getD_some] at positive
  have notEmpty : payload ≠ [] := List.length_pos_iff.mp positive
  rw [lreplace_run found isType rfl, chosen, ok_bind, overwrite, Lib.store, if_neg notEmpty,
    if_neg]
  omega

end Accepted

section Decoded

variable {rt : Runtime} {fuel : Nat}

structure IsRead (rt : Runtime) (fuel : Nat) (read : Field × LuaValue) : Prop where
  noZero : 0 ∉ read.1.key
  made : Made read.2
  decodes : Decodes (readValue (unpackDict rt fuel) read.1.type) read.1.payload read.2

theorem field_isRead (rt : Runtime) {field : Field} (wellFormed : field.WellFormed)
    (enough : field.payload.length ≤ fuel) (short : field.payload.length < 2 ^ 31) :
    ∃ value, IsRead rt fuel (field, value) := by
  obtain ⟨value, made, decodes⟩ := payload_decodes rt (field.payload.length + 1) (by omega)
    wellFormed.payload short fuel enough
  exact ⟨value, wellFormed.noZero, made, decodes⟩

theorem fields_isRead (rt : Runtime) {fields : List Field}
    (wellFormed : ∀ field ∈ fields, field.WellFormed)
    (enough : (fieldsBytes fields).length ≤ fuel) (short : (fieldsBytes fields).length < 2 ^ 31) :
    ∃ read : List (Field × LuaValue), read.map Prod.fst = fields ∧
      ∀ field ∈ read, IsRead rt fuel field := by
  have decoded : ∀ field ∈ fields, ∃ value, Made value ∧
      Decodes (readValue (unpackDict rt fuel) field.type) field.payload value := by
    intro field among
    have inside := fieldsBytes_payload_le among
    obtain ⟨value, isRead⟩ := field_isRead rt (wellFormed field among)
      (Nat.le_trans inside enough) (Nat.lt_of_le_of_lt inside short)
    exact ⟨value, isRead.made, isRead.decodes⟩
  obtain ⟨read, names, values⟩ := exists_values rt fields decoded
  refine ⟨read, names, fun field among => ⟨?_, (values field among).1, (values field among).2⟩⟩
  exact (wellFormed field.1 (names ▸ List.mem_map_of_mem among)).noZero

theorem ldecode_read {read : List (Field × LuaValue)} (each : ∀ field ∈ read, IsRead rt fuel field)
    (enough : (document (fieldsBytes (read.map Prod.fst))).length ≤ fuel + 1)
    (short : (document (fieldsBytes (read.map Prod.fst))).length < 2 ^ 31) :
    ldecode rt (fuel + 1) (some (document (fieldsBytes (read.map Prod.fst)))) =
      .ok (some (.table none (rt.rawlen (storeFields false read []))
        (storeFields false read []))) :=
  ldecode_decodes rt (unpackDict_fields rt false read (fun field among => (each field among).noZero)
    (fun field among => (each field among).decodes) enough short) short

end Decoded

section Update

variable (rt : Runtime) (conversions : Conversions)

/-- Decoding gives the table of before with the key set to the value, and all else as it was. -/
def Updates (before after : Bytes) (key : Bytes) (value : LuaValue) : Prop :=
  ∃ border entries border' entries' written,
    ldecode rt before.length (some before) = .ok (some (.table none border entries)) ∧
    ldecode rt after.length (some after) = .ok (some (.table none border' entries')) ∧
    LuaEqual value written ∧
    Same (.table none border' entries')
      (.table none border (setSlot entries (.string key) written))

/-- The value that the document has for a key. -/
def decodedField (document key : Bytes) : LuaValue :=
  match ldecode rt document.length (some document) with
  | .ok (some (.table _ _ entries)) => rawgetField entries key
  | _ => .nil

/-- The value is one that the field keeps.  Where a later field has the same name, it is the
value that the document has. -/
structure Keeps (before key : Bytes) (field : Field) (back : List Field) (value : LuaValue) :
    Prop where
  last : (∀ later ∈ back, later.key ≠ key) → Stores conversions field.type value
  again : (∃ later ∈ back, later.key = key) → Stands value (decodedField rt before key)

variable {rt conversions} {index : List Entry} {key : Bytes} {value : LuaValue}
  {front back : List Field} {field : Field}

theorem updates_iff {before after : Bytes} {border border' : Nat} {entries : List Entry}
    {present : LuaValue}
    (decodedBefore : ldecode rt before.length (some before) =
      .ok (some (.table none border entries)))
    (decodedAfter : ldecode rt after.length (some after) =
      .ok (some (.table none border' (setSlot entries (.string key) present))))
    (refl : ∀ entry ∈ entries, Same entry.1 entry.1 ∧ Same entry.2 entry.2)
    (hasKey : HasKey entries (.string key)) (notNil : present.isNil = false) :
    Updates rt before after key value ↔ Stands value present := by
  rw [← assigned_iff border border' refl hasKey notNil]
  constructor
  · rintro ⟨_, _, _, _, written, ranBefore, ranAfter, luaEqual, same⟩
    rw [decodedBefore] at ranBefore
    rw [decodedAfter] at ranAfter
    cases ranBefore
    cases ranAfter
    exact ⟨written, luaEqual, same⟩
  · rintro ⟨written, luaEqual, same⟩
    exact ⟨border, entries, border', _, written, decodedBefore, decodedAfter, luaEqual, same⟩

theorem stored_updates_iff {before after : Bytes} {border border' : Nat} {start : List Entry}
    {later : List (Field × LuaValue)} {present : LuaValue}
    (decodedBefore : ldecode rt before.length (some before) =
      .ok (some (.table none border (storeFields false later start))))
    (decodedAfter : ldecode rt after.length (some after) =
      .ok (some (.table none border'
        (storeFields false later (setSlot start (.string key) present)))))
    (proper : Proper (storeFields false later start)) (hasKey : HasKey start (.string key))
    (notNil : present.isNil = false) (made : ∀ field ∈ later, field.2.isNil = false) :
    Updates rt before after key value ↔
      ((∀ field ∈ later, field.1.key ≠ key) → Stands value present) ∧
        ((∃ field ∈ later, field.1.key = key) → Stands value (decodedField rt before key)) := by
  have present' := storeFields_hasKey false made hasKey
  by_cases again : ∃ field ∈ later, field.1.key = key
  · have same : decodedField rt before key = rawgetField (storeFields false later start) key := by
      rw [decodedField, decodedBefore]
    have found := proper.notNil _ (rawgetField_of_hasKey present')
    have kept := setSlot_rawgetField proper.functional present' found
    rw [storeFields_lost again made notNil hasKey, ← kept] at decodedAfter
    rw [updates_iff decodedBefore decodedAfter proper.refl present' found, same]
    constructor
    · intro stands
      refine ⟨fun new => ?_, fun _ => stands⟩
      obtain ⟨field, among, isKey⟩ := again
      exact absurd isKey (new field among)
    · exact fun both => both.2 again
  · have new : ∀ field ∈ later, field.1.key ≠ key :=
      fun field among isKey => again ⟨field, among, isKey⟩
    rw [storeFields_last new made notNil hasKey] at decodedAfter
    rw [updates_iff decodedBefore decodedAfter proper.refl present' notNil]
    exact ⟨fun stands => ⟨fun _ => stands, fun absurdity => absurd absurdity again⟩,
      fun both => both.1 new⟩

theorem payload_updates_iff
    (wellFormed : ∀ other ∈ front ++ field :: back, other.WellFormed)
    (short : (document (fieldsBytes (front ++ field :: back))).length < 2 ^ 31)
    {payload : Bytes} {written : LuaValue} (width : payload.length = field.payload.length)
    (replaces : Replaces conversions field.type value payload written) :
    Updates rt (document (fieldsBytes (front ++ field :: back)))
        (document (fieldsBytes (front ++ { field with payload := payload } :: back)))
        field.key value ↔
      Keeps rt conversions (document (fieldsBytes (front ++ field :: back))) field.key field back
        value := by
  obtain ⟨fuel, size⟩ : ∃ fuel,
      (document (fieldsBytes (front ++ field :: back))).length = fuel + 1 := by
    rw [document_length]
    exact ⟨_, rfl⟩
  have length := document_length (fieldsBytes (front ++ field :: back))
  obtain ⟨read, names, each⟩ := fields_isRead rt wellFormed (by omega : _ ≤ fuel) (by omega)
  obtain ⟨frontRead, rest, rfl, rfl, restNames⟩ := List.map_eq_append_iff.mp names
  obtain ⟨⟨field, old⟩, backRead, rfl, rfl, rfl⟩ := List.map_eq_cons_iff.mp restNames
  dsimp only at *
  -- the document before
  have before := ldecode_read each (by rw [names]; omega) (by rw [names]; omega)
  rw [names, ← size] at before
  -- the document after
  have fieldWell := wellFormed field (by simp)
  have eachAfter : ∀ other ∈ frontRead ++ ({ field with payload := payload }, written) :: backRead,
      IsRead rt fuel other := by
    intro other among
    rcases List.mem_append.mp among with inFront | behind
    · exact each other (List.mem_append_left _ inFront)
    · rcases List.mem_cons.mp behind with rfl | inBack
      · exact ⟨fieldWell.noZero, replaces.made, replaces.decodes _⟩
      · exact each other (List.mem_append_right _ (List.mem_cons_of_mem _ inBack))
  have namesAfter : (frontRead ++ ({ field with payload := payload }, written) :: backRead).map
      Prod.fst = frontRead.map Prod.fst ++ { field with payload := payload } ::
        backRead.map Prod.fst := by
    rw [List.map_append, List.map_cons]
  have sizeAfter : (document (fieldsBytes (frontRead.map Prod.fst ++
      { field with payload := payload } :: backRead.map Prod.fst))).length = fuel + 1 := by
    rw [← size]
    simp only [document_length, fieldsBytes_append, fieldsBytes_cons, List.length_append,
      field_bytes_length, width]
  have after := ldecode_read eachAfter (by rw [namesAfter]; omega) (by rw [namesAfter]; omega)
  rw [namesAfter, ← sizeAfter] at after
  -- both tables from the one with the old value
  have proper := storeFields_proper false fun other among => (each other among).made
  rw [storeFields_append, storeFields_cons] at before after proper
  have oldMade := (each (field, old) (by simp)).made
  have overwritten : ∀ stored, setSlot stored (.string field.key) written =
      setSlot (setSlot stored (.string field.key) old) (.string field.key) written :=
    fun stored => (setSlot_overwrite (string_self _) oldMade.notNil replaces.made.notNil).symm
  change ldecode rt _ _ = .ok (some (.table none (rt.rawlen (storeFields false backRead
    (setSlot _ (.string field.key) written))) (storeFields false backRead
    (setSlot _ (.string field.key) written)))) at after
  rw [overwritten] at after
  rw [stored_updates_iff before after proper
    (setSlot_hasKey_self _ (string_self _) oldMade.notNil) replaces.made.notNil
    fun other among => (each other (by simp [among])).made.notNil, replaces.stands_iff]
  constructor
  · rintro ⟨last, again⟩
    refine ⟨fun new => last fun other among => new _ (List.mem_map_of_mem among), ?_⟩
    rintro ⟨later, among, isKey⟩
    obtain ⟨read, readIn, rfl⟩ := List.mem_map.mp among
    exact again ⟨read, readIn, isKey⟩
  · rintro ⟨last, again⟩
    constructor
    · intro new
      refine last fun later among => ?_
      obtain ⟨read, readIn, rfl⟩ := List.mem_map.mp among
      exact new read readIn
    · rintro ⟨read, readIn, isKey⟩
      exact again ⟨read.1, List.mem_map_of_mem readIn, isKey⟩

/-- The field that `lmakeindex` has for a key of a document. -/
structure Noted (before key : Bytes) (front : List Field) (field : Field) (back : List Field) :
    Prop where
  document : before = document (fieldsBytes (front ++ field :: back))
  wellFormed : ∀ other ∈ front ++ field :: back, other.WellFormed
  indexed : Indexed (front ++ field :: back) key front field back

theorem noted_of_rawgetField {before : Bytes} (wellFormed : Document before)
    (short : before.length < 2 ^ 31) (made : lmakeindex before.length before = .ok index)
    {id : LuaInteger} (found : rawgetField index key = .integer id) :
    ∃ front field back, Noted before key front field back ∧
      id = fieldId field.type (payloadOffset front field) := by
  obtain ⟨fields, rfl, each⟩ := document_fields wellFormed
  have count := fieldsBytes_count_le fields
  have length := document_length (fieldsBytes fields)
  have enough : fields.length < (document (fieldsBytes fields)).length := by omega
  have indexes := lmakeindex_fields enough each short
  rw [indexes] at made
  cases made
  obtain ⟨front, field, back, indexed, isId⟩ := indexed_of_rawgetField found
  have split := indexed.split
  subst split
  exact ⟨front, field, back, ⟨rfl, each, indexed⟩, isId⟩

/-- An accepted value updates the key exactly if its field keeps the value and lies within the
first `2 ^ 26` bytes. -/
theorem lreplace_updates_iff (rt : Runtime) (conversions : Conversions) {before : Bytes}
    (wellFormed : Document before) (short : before.length < 2 ^ 31)
    (made : lmakeindex before.length before = .ok index) {id : LuaInteger}
    (found : rawgetField index key = .integer id)
    (accepted : ∀ message, lreplace rt conversions (some index) before (.string key) value ≠
      .error (.luaError message)) :
    ∃ front field back, Noted before key front field back ∧
      (payloadOffset front field < 2 ^ 27 →
        ((∃ after, lreplace rt conversions (some index) before (.string key) value = .ok after ∧
            Updates rt before after key value) ↔
          payloadOffset front field < 2 ^ 26 ∧
            Keeps rt conversions before key field back value)) := by
  obtain ⟨front, field, back, noted, rfl⟩ := noted_of_rawgetField wellFormed short made found
  refine ⟨front, field, back, noted, fun inside => ?_⟩
  obtain ⟨rfl, each, -, rfl, sized, -⟩ := noted
  have fieldWell := each field (by simp)
  by_cases near : payloadOffset front field < 2 ^ 26
  · obtain ⟨payload, written, width, replaces, run⟩ :=
      lreplace_near sized fieldWell found near accepted
    rw [run, ← payload_updates_iff each short width replaces]
    constructor
    · rintro ⟨after, same, updates⟩
      cases same
      exact ⟨near, updates⟩
    · rintro ⟨-, updates⟩
      exact ⟨_, rfl, updates⟩
  · have run := lreplace_far sized fieldWell found (Nat.le_of_not_lt near) inside accepted
    constructor
    · rintro ⟨after, same, -⟩
      rw [run] at same
      cases same
    · rintro ⟨isNear, -⟩
      exact absurd isNear near

/-- `{ a = 1, b = true, c = '\0\14\4\0\0\0abc\0' }` -/
def pageEntries : List Entry :=
  [(.string [97], .integer (.ofInt 1)), (.string [98], .boolean true),
    (.string [99], .string ([0, bsonSymbol] ++ (intBytes 4 4 ++ [97, 98, 99, 0])))]

def pageField : Field := ⟨bsonInt32, [97], intBytes 4 1⟩

def pageFlag : Field := ⟨bsonBoolean, [98], [1]⟩

def pageSymbol : Field := ⟨bsonSymbol, [99], intBytes 4 4 ++ [97, 98, 99, 0]⟩

def page : Bytes := document (fieldsBytes ([] ++ pageField :: [pageFlag, pageSymbol]))

def pageIndex : List Entry := indexFields 4 [pageField, pageFlag, pageSymbol] []

def plainConversions : Conversions where
  ofInteger _ := 0
  ofString _ := none

theorem pageSymbol_payload : Payload bsonSymbol (intBytes 4 4 ++ [97, 98, 99, 0]) :=
  @Payload.raw bsonSymbol 0 [97, 98, 99, 0] rfl

theorem page_wellFormed :
    ∀ field ∈ [] ++ pageField :: [pageFlag, pageSymbol], field.WellFormed := by
  intro field among
  rcases List.mem_cons.mp among with rfl | among
  · exact ⟨by decide, .fixed rfl⟩
  · rcases List.mem_cons.mp among with rfl | among
    · exact ⟨by decide, .fixed rfl⟩
    · rw [List.mem_singleton.mp among]
      exact ⟨by decide, pageSymbol_payload⟩

theorem page_document : Document page :=
  .mk (.cons (by decide) (.fixed rfl) (.cons (by decide) (.fixed rfl)
    (.cons (by decide) pageSymbol_payload .nil)))

theorem page_indexed : lmakeindex page.length page = .ok pageIndex :=
  lmakeindex_fields (by decide) page_wellFormed (by decide)

theorem page_found : rawgetField pageIndex [97] =
    .integer (fieldId pageField.type (payloadOffset [] pageField)) := rfl

theorem page_replaced (i : LuaInteger) :
    lreplace plainRuntime plainConversions (some pageIndex) page
        (.string [97]) (.integer i) =
      .ok (document (fieldsBytes ([] ++ { pageField with payload := intBytes 4 i.value } ::
        [pageFlag, pageSymbol]))) := by
  have chosen : replacement plainRuntime plainConversions pageField.type (.integer i) =
      .ok (intBytes 4 i.value) := rfl
  have near : payloadOffset [] pageField < 2 ^ 26 := by decide
  have sized : pageField.sized = true := by decide
  have parts := fieldId_near (sized_type_lt sized) near
  have width : (intBytes 4 i.value).length = pageField.payload.length := by
    rw [intBytes_length]
    rfl
  rw [lreplace_run page_found parts.1 parts.2, chosen, ok_bind, page, overwrite,
    store_payload [] pageField [pageFlag, pageSymbol] width]

theorem lreplace_updates_page :
    ∃ front field back, Noted page [97] front field back ∧
      (payloadOffset front field < 2 ^ 27 →
        ((∃ after, lreplace plainRuntime plainConversions
            (some pageIndex) page (.string [97])
              (.integer (.ofInt 7)) = .ok after ∧
            Updates plainRuntime page after [97] (.integer (.ofInt 7))) ↔
          payloadOffset front field < 2 ^ 26 ∧
            Keeps plainRuntime plainConversions page [97] field back (.integer (.ofInt 7)))) :=
  lreplace_updates_iff plainRuntime plainConversions page_document (by decide) page_indexed
    page_found (by
      intro message failed
      rw [page_replaced] at failed
      cases failed)

/-- The low half of an integer is stored without an error. -/
theorem lreplace_truncates :
    lencode plainRuntime (.table none 0 pageEntries) = .ok page ∧
      lmakeindex page.length page = .ok pageIndex ∧
      ∃ after, lreplace plainRuntime plainConversions
          (some pageIndex) page (.string [97])
            (.integer (.ofInt 4294967301)) = .ok after ∧
        ¬ Updates plainRuntime page after [97] (.integer (.ofInt 4294967301)) := by
  refine ⟨by decide +kernel, page_indexed, _, page_replaced _, ?_⟩
  intro updates
  have replaces := int32_replaces plainConversions (.ofInt 4294967301)
  have kept := (payload_updates_iff page_wellFormed (by decide)
    (by rw [intBytes_length]; rfl) replaces).mp updates
  have stores := kept.last (by decide)
  revert stores
  decide

end Update

end CrossOver.Lua.Bson
