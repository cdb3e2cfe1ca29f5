import CrossOver.Lua.Bson.Fields
import CrossOver.Lua.Bson.RoundTrip

/-!
# Assignments to a decoded table

Decoding stores the fields one after the other.  A field with the key of an earlier
one overwrites it in its place, and assignments to different keys commute once one
of the keys is there.  So what changes one field changes one slot of the result, or
nothing if a later field has the same name.
-/

namespace CrossOver.Lua.Bson

open CrossOver.Lib

section Slots

variable {stored : List Entry} {key other value first second : LuaValue}

theorem setSlot_of_hasKey (present : HasKey stored key) (notNil : value.isNil = false) :
    setSlot stored key value =
      stored.map fun entry => if LuaValue.rawEqual key entry.1 then (key, value) else entry := by
  have found : (stored.any fun entry => LuaValue.rawEqual key entry.1) = true := by
    rw [List.any_eq_true]
    exact present
  simp only [setSlot, notNil, found, Bool.false_eq_true, if_false, if_true]

theorem not_hasKey (absent : ¬ HasKey stored key) :
    ∀ entry ∈ stored, LuaValue.rawEqual key entry.1 = false := fun entry among =>
  eq_false_of_ne_true fun same => absent ⟨entry, among, same⟩

/-- The second value of one key stays. -/
theorem setSlot_overwrite (isSelf : LuaValue.rawEqual key key = true)
    (firstNotNil : first.isNil = false) (secondNotNil : second.isNil = false) :
    setSlot (setSlot stored key first) key second = setSlot stored key second := by
  rw [setSlot_of_hasKey (setSlot_hasKey_self stored isSelf firstNotNil) secondNotNil]
  by_cases present : HasKey stored key
  · rw [setSlot_of_hasKey present firstNotNil, setSlot_of_hasKey present secondNotNil,
      List.map_map]
    refine List.map_congr_left fun entry _ => ?_
    dsimp only [Function.comp_apply]
    by_cases same : LuaValue.rawEqual key entry.1 = true
    · rw [if_pos same, if_pos isSelf, if_pos same]
    · rw [if_neg same, if_neg same]
  · have absent := not_hasKey present
    rw [setSlot_of_new absent firstNotNil, setSlot_of_new absent secondNotNil, List.map_append,
      List.map_singleton, if_pos isSelf]
    refine congrArg (· ++ [(key, second)]) ?_
    refine (List.map_congr_left fun entry among => ?_).trans (List.map_id' stored)
    rw [absent entry among]
    rfl

/-- Assignments to different keys commute where one of the keys is there already. -/
theorem setSlot_comm (differ : LuaValue.rawEqual key other = false) (present : HasKey stored key)
    (firstNotNil : first.isNil = false) (secondNotNil : second.isNil = false) :
    setSlot (setSlot stored other first) key second =
      setSlot (setSlot stored key second) other first := by
  have differToo : LuaValue.rawEqual other key = false := by
    rw [rawEqual_comm, differ]
  rw [setSlot_of_hasKey (setSlot_hasKey firstNotNil present) secondNotNil]
  by_cases presentOther : HasKey stored other
  · rw [setSlot_of_hasKey (setSlot_hasKey secondNotNil presentOther) firstNotNil,
      setSlot_of_hasKey present secondNotNil, setSlot_of_hasKey presentOther firstNotNil,
      List.map_map, List.map_map]
    refine List.map_congr_left fun entry _ => ?_
    dsimp only [Function.comp_apply]
    by_cases isOther : LuaValue.rawEqual other entry.1 = true
    · have notKey : ¬ LuaValue.rawEqual key entry.1 = true := by
        rw [← rawEqual_eq isOther, differ]
        exact Bool.false_ne_true
      rw [if_pos isOther, if_neg notKey, if_pos isOther, if_neg (by rw [differ]; decide)]
    · rw [if_neg isOther]
      by_cases isKey : LuaValue.rawEqual key entry.1 = true
      · rw [if_pos isKey, if_neg (by rw [differToo]; decide)]
      · rw [if_neg isKey, if_neg isOther]
  · have absent := not_hasKey presentOther
    have absentToo : ∀ entry ∈ setSlot stored key second,
        LuaValue.rawEqual other entry.1 = false := by
      intro entry among
      rcases mem_setSlot.mp among with ⟨old, -⟩ | ⟨-, rfl⟩
      · exact absent entry old
      · exact differToo
    rw [setSlot_of_new absent firstNotNil, setSlot_of_new absentToo firstNotNil,
      setSlot_of_hasKey present secondNotNil, List.map_append, List.map_singleton,
      if_neg (by rw [differ]; decide)]

end Slots

section Stored

variable {array : Bool} {stored : List Entry} {key : Bytes} {value : LuaValue}
  {later : List (Field × LuaValue)}

theorem storeFields_cons (field : Field × LuaValue) (rest : List (Field × LuaValue))
    (stored : List Entry) : storeFields array (field :: rest) stored =
      storeFields array rest (setSlot stored (elementKey array field.1.key) field.2) := rfl

theorem storeFields_append (front back : List (Field × LuaValue)) (stored : List Entry) :
    storeFields array (front ++ back) stored =
      storeFields array back (storeFields array front stored) := List.foldl_append

theorem storeFields_hasKey (array : Bool) (made : ∀ field ∈ later, field.2.isNil = false)
    (present : HasKey stored (.string key)) :
    HasKey (storeFields array later stored) (.string key) := by
  induction later generalizing stored with
  | nil => exact present
  | cons field rest inductionHypothesis =>
      exact inductionHypothesis (fun other among => made other (List.mem_cons_of_mem _ among))
        (setSlot_hasKey (made field List.mem_cons_self) present)

/-- A value that no later field has the key of may be assigned at the end. -/
theorem storeFields_last (isNew : ∀ field ∈ later, field.1.key ≠ key)
    (made : ∀ field ∈ later, field.2.isNil = false) (notNil : value.isNil = false)
    (present : HasKey stored (.string key)) :
    storeFields false later (setSlot stored (.string key) value) =
      setSlot (storeFields false later stored) (.string key) value := by
  induction later generalizing stored with
  | nil => rfl
  | cons field rest inductionHypothesis =>
      have fieldMade := made field List.mem_cons_self
      have differ : LuaValue.rawEqual (.string key) (.string field.1.key) = false := by
        have apart := isNew field List.mem_cons_self
        simp [LuaValue.rawEqual, apart.symm]
      rw [storeFields_cons, storeFields_cons]
      change storeFields false rest (setSlot _ (.string field.1.key) _) = setSlot (storeFields false
        rest (setSlot _ (.string field.1.key) _)) _ _
      rw [← setSlot_comm differ present fieldMade notNil]
      exact inductionHypothesis (fun other among => isNew other (List.mem_cons_of_mem _ among))
        (fun other among => made other (List.mem_cons_of_mem _ among))
        (setSlot_hasKey fieldMade present)

theorem storeFields_lost (again : ∃ field ∈ later, field.1.key = key)
    (made : ∀ field ∈ later, field.2.isNil = false) (notNil : value.isNil = false)
    (present : HasKey stored (.string key)) :
    storeFields false later (setSlot stored (.string key) value) =
      storeFields false later stored := by
  induction later generalizing stored with
  | nil =>
      obtain ⟨field, among, -⟩ := again
      cases among
  | cons field rest inductionHypothesis =>
      have fieldMade := made field List.mem_cons_self
      have isSelf : LuaValue.rawEqual (.string key) (.string key) = true := by
        simp [LuaValue.rawEqual]
      rw [storeFields_cons, storeFields_cons]
      change storeFields false rest (setSlot _ (.string field.1.key) _) = storeFields false
        rest (setSlot _ (.string field.1.key) _)
      by_cases same : field.1.key = key
      · rw [same, setSlot_overwrite isSelf notNil fieldMade]
      · have differ : LuaValue.rawEqual (.string key) (.string field.1.key) = false := by
          simp [LuaValue.rawEqual, Ne.symm same]
        obtain ⟨found, among, isKey⟩ := again
        have behind := (List.mem_cons.mp among).resolve_left fun here => same (here ▸ isKey)
        rw [← setSlot_comm differ present fieldMade notNil]
        exact inductionHypothesis ⟨found, behind, isKey⟩
          (fun other among => made other (List.mem_cons_of_mem _ among))
          (setSlot_hasKey fieldMade present)

end Stored

section Values

/-- `==` of Lua, with tables compared by their pairs. -/
inductive LuaEqual : LuaValue → LuaValue → Prop
  | same {first second : LuaValue} (same : Same first second) : LuaEqual first second
  | integer {i : LuaInteger} {bits : UInt64} (exactly : floatToInteger bits = some i) :
      LuaEqual (.integer i) (.number bits)
  | number {i : LuaInteger} {bits : UInt64} (exactly : floatToInteger bits = some i) :
      LuaEqual (.number bits) (.integer i)

/-- The value is equal to the one that is there. -/
def Stands (value present : LuaValue) : Prop := ∃ equal, LuaEqual value equal ∧ Same present equal

variable {value : LuaValue}

theorem stands_number {bits : UInt64} : Stands value (.number bits) ↔
    value = .number bits ∨ ∃ i, value = .integer i ∧ floatToInteger bits = some i := by
  constructor
  · rintro ⟨equal, luaEqual, same⟩
    cases same
    cases luaEqual with
    | same same =>
        cases same
        exact .inl rfl
    | integer exactly => exact .inr ⟨_, rfl, exactly⟩
  · rintro (rfl | ⟨i, rfl, exactly⟩)
    · exact ⟨_, .same (.number bits), .number bits⟩
    · exact ⟨_, .integer exactly, .number bits⟩

theorem stands_integer {i : LuaInteger} : Stands value (.integer i) ↔
    value = .integer i ∨ ∃ bits, value = .number bits ∧ floatToInteger bits = some i := by
  constructor
  · rintro ⟨equal, luaEqual, same⟩
    cases same
    cases luaEqual with
    | same same =>
        cases same
        exact .inl rfl
    | number exactly => exact .inr ⟨_, rfl, exactly⟩
  · rintro (rfl | ⟨bits, rfl, exactly⟩)
    · exact ⟨_, .same (.integer i), .integer i⟩
    · exact ⟨_, .number exactly, .integer i⟩

theorem stands_boolean {present : Bool} :
    Stands value (.boolean present) ↔ value = .boolean present := by
  constructor
  · rintro ⟨equal, luaEqual, same⟩
    cases same
    cases luaEqual with
    | same same =>
        cases same
        rfl
  · rintro rfl
    exact ⟨_, .same (.boolean present), .boolean present⟩

theorem stands_string {str : Bytes} : Stands value (.string str) ↔ value = .string str := by
  constructor
  · rintro ⟨equal, luaEqual, same⟩
    cases same
    cases luaEqual with
    | same same =>
        cases same
        rfl
  · rintro rfl
    exact ⟨_, .same (.string str), .string str⟩

end Values

section Assigned

variable {stored : List Entry} {key : Bytes} {value : LuaValue}

/-- No key has two values. -/
def Functional (stored : List Entry) : Prop :=
  ∀ first ∈ stored, ∀ second ∈ stored, LuaValue.rawEqual first.1 second.1 = true → first = second

theorem Functional.setSlot (functional : Functional stored) (slot value : LuaValue) :
    Functional (setSlot stored slot value) := by
  intro first firstIn second secondIn same
  rcases mem_setSlot.mp firstIn with ⟨firstOld, firstOther⟩ | ⟨-, rfl⟩
  · rcases mem_setSlot.mp secondIn with ⟨secondOld, -⟩ | ⟨-, rfl⟩
    · exact functional first firstOld second secondOld same
    · rw [rawEqual_comm, same] at firstOther
      cases firstOther
  · rcases mem_setSlot.mp secondIn with ⟨-, secondOther⟩ | ⟨-, rfl⟩
    · rw [same] at secondOther
      cases secondOther
    · rfl

theorem storeFields_functional (array : Bool) (fields : List (Field × LuaValue))
    (functional : Functional stored) : Functional (storeFields array fields stored) := by
  induction fields generalizing stored with
  | nil => exact functional
  | cons field rest inductionHypothesis => exact inductionHypothesis (functional.setSlot _ _)

/-- A table as the decoder makes it. -/
structure Proper (stored : List Entry) : Prop where
  functional : Functional stored
  refl : ∀ entry ∈ stored, Same entry.1 entry.1 ∧ Same entry.2 entry.2
  notNil : ∀ entry ∈ stored, entry.2.isNil = false

theorem storeFields_proper (array : Bool) {fields : List (Field × LuaValue)}
    (made : ∀ field ∈ fields, Made field.2) : Proper (storeFields array fields []) where
  functional := storeFields_functional array fields fun _ nowhere => absurd nowhere List.not_mem_nil
  refl := made_storeFields made
  notNil entry among := by
    rcases mem_storeFields among with nowhere | ⟨field, fieldIn, rfl⟩
    · cases nowhere
    · exact (made field fieldIn).notNil

theorem string_self (key : Bytes) : LuaValue.rawEqual (.string key) (.string key) = true := by
  simp [LuaValue.rawEqual]

theorem rawgetField_of_hasKey (present : HasKey stored (.string key)) :
    (.string key, rawgetField stored key) ∈ stored := by
  induction stored with
  | nil =>
      obtain ⟨entry, among, -⟩ := present
      cases among
  | cons entry rest inductionHypothesis =>
      obtain ⟨name, held⟩ := entry
      rw [rawgetField]
      by_cases same : LuaValue.rawEqual (.string key) name = true
      · rw [if_pos same, rawEqual_eq same]
        exact List.mem_cons_self
      · rw [if_neg same]
        obtain ⟨entry, among, isKey⟩ := present
        have behind := (List.mem_cons.mp among).resolve_left fun here =>
          same (by rw [← isKey, here])
        exact List.mem_cons_of_mem _ (inductionHypothesis ⟨entry, behind, isKey⟩)

/-- Assigning the value that is there changes nothing. -/
theorem setSlot_rawgetField (functional : Functional stored) (present : HasKey stored (.string key))
    (notNil : (rawgetField stored key).isNil = false) :
    setSlot stored (.string key) (rawgetField stored key) = stored := by
  rw [setSlot_of_hasKey present notNil]
  refine (List.map_congr_left fun entry among => ?_).trans (List.map_id' stored)
  by_cases same : LuaValue.rawEqual (.string key) entry.1 = true
  · rw [if_pos same]
    exact functional _ (rawgetField_of_hasKey present) entry among same
  · rw [if_neg same]

theorem sameEntries_setSlot {first second : LuaValue}
    (refl : ∀ entry ∈ stored, Same entry.1 entry.1 ∧ Same entry.2 entry.2)
    (present : HasKey stored (.string key)) (firstNotNil : first.isNil = false)
    (same : Same first second) :
    SameEntries (setSlot stored (.string key) first) (setSlot stored (.string key) second) := by
  have secondNotNil : second.isNil = false := by rw [same.isNil_eq, firstNotNil]
  rw [setSlot_of_hasKey present firstNotNil, setSlot_of_hasKey present secondNotNil]
  clear present
  induction stored with
  | nil => exact .nil
  | cons entry rest inductionHypothesis =>
      have others := inductionHypothesis fun other among =>
        refl other (List.mem_cons_of_mem _ among)
      have here := refl entry List.mem_cons_self
      rw [List.map_cons, List.map_cons]
      by_cases isKey : LuaValue.rawEqual (.string key) entry.1 = true
      · rw [if_pos isKey, if_pos isKey]
        exact .cons (.string key) same others
      · rw [if_neg isKey, if_neg isKey]
        exact .cons here.1 here.2 others

/-- A table with a value in the slot is the one with the slot set to an equal value, exactly
when the value in the slot is one of the equal values. -/
theorem assigned_iff {present : LuaValue} (border border' : Nat)
    (refl : ∀ entry ∈ stored, Same entry.1 entry.1 ∧ Same entry.2 entry.2)
    (hasKey : HasKey stored (.string key)) (notNil : present.isNil = false) :
    (∃ written, LuaEqual value written ∧
      Same (.table none border' (setSlot stored (.string key) present))
        (.table none border (setSlot stored (.string key) written))) ↔ Stands value present := by
  constructor
  · rintro ⟨written, luaEqual, same⟩
    obtain ⟨⟨name, held⟩, among, sameKey, sameValue⟩ := same.partner
      (mem_setSlot.mpr (.inr ⟨notNil, rfl⟩))
    cases sameKey
    rcases mem_setSlot.mp among with ⟨-, other⟩ | ⟨-, isWritten⟩
    · rw [string_self] at other
      cases other
    · cases isWritten
      exact ⟨_, luaEqual, sameValue⟩
  · rintro ⟨written, luaEqual, same⟩
    exact ⟨written, luaEqual, .table (List.Perm.refl _)
      (sameEntries_setSlot refl hasKey notNil same)⟩

end Assigned

end CrossOver.Lua.Bson
