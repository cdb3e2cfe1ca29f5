import CrossOver.Lua.Bson.Packing
import CrossOver.Lua.Bson.Unpacking
import CrossOver.Lua.Tables

/-!
# Documents come back, arrays do not

A document is decoded to an equal table.  The elements of an array are named by
a table that is never filled in, so the first ones all come back at index one.
-/

namespace CrossOver.Lua.Bson

open CrossOver.Lib

section Stored

theorem setSlot_length_le (stored : List Entry) (key value : LuaValue) :
    (setSlot stored key value).length ≤ stored.length + 1 := by
  simp only [setSlot]
  split_ifs
  · have shorter := List.length_filter_le (fun entry => !LuaValue.rawEqual key entry.1) stored
    omega
  · simp
  · simp

def HasKey (stored : List Entry) (key : LuaValue) : Prop :=
  ∃ entry ∈ stored, LuaValue.rawEqual key entry.1 = true

theorem setSlot_length_of_hasKey {stored : List Entry} {key value : LuaValue}
    (present : HasKey stored key) (notNil : value.isNil = false) :
    (setSlot stored key value).length = stored.length := by
  have found : (stored.any fun entry => LuaValue.rawEqual key entry.1) = true := by
    rw [List.any_eq_true]
    exact present
  simp [setSlot, notNil, found]

theorem setSlot_hasKey_self (stored : List Entry) {key value : LuaValue}
    (isSelf : LuaValue.rawEqual key key = true) (notNil : value.isNil = false) :
    HasKey (setSlot stored key value) key :=
  ⟨(key, value), mem_setSlot.mpr (.inr ⟨notNil, rfl⟩), isSelf⟩

theorem setSlot_hasKey {stored : List Entry} {key other value : LuaValue}
    (notNil : value.isNil = false) (present : HasKey stored key) :
    HasKey (setSlot stored other value) key := by
  obtain ⟨entry, membership, equal⟩ := present
  cases replaced : LuaValue.rawEqual other entry.1 with
  | false => exact ⟨entry, mem_setSlot.mpr (.inl ⟨membership, replaced⟩), equal⟩
  | true =>
      refine ⟨(other, value), mem_setSlot.mpr (.inr ⟨notNil, rfl⟩), ?_⟩
      rw [rawEqual_eq replaced]
      exact equal

theorem elementKey_self (array : Bool) (name : Bytes) :
    LuaValue.rawEqual (elementKey array name) (elementKey array name) = true := by
  cases array <;> simp [elementKey, LuaValue.rawEqual]

variable (decoded : LuaValue → LuaValue)

theorem storeElements_cons (array : Bool) (entry : Entry) (rest stored : List Entry) :
    storeElements decoded array (entry :: rest) stored =
      storeElements decoded array rest
        (setSlot stored (elementKey array (entryName entry.1)) (decoded entry.2)) := rfl

theorem storeElements_length_le (array : Bool) (entries stored : List Entry) :
    (storeElements decoded array entries stored).length ≤ stored.length + entries.length := by
  induction entries generalizing stored with
  | nil => exact Nat.le_refl _
  | cons entry rest inductionHypothesis =>
      have one := setSlot_length_le stored (elementKey array (entryName entry.1)) (decoded entry.2)
      have others := inductionHypothesis
        (setSlot stored (elementKey array (entryName entry.1)) (decoded entry.2))
      rw [storeElements_cons decoded, List.length_cons]
      omega

/-- An element whose index is taken does not make the table longer. -/
theorem storeElements_taken (entries stored : List Entry) {entry : Entry}
    (notNil : ∀ other ∈ entries, (decoded other.2).isNil = false) (membership : entry ∈ entries)
    (present : HasKey stored (elementKey true (entryName entry.1))) :
    (storeElements decoded true entries stored).length < stored.length + entries.length := by
  induction entries generalizing stored with
  | nil => cases membership
  | cons first rest inductionHypothesis =>
      have firstNotNil := notNil first List.mem_cons_self
      rw [storeElements_cons decoded, List.length_cons]
      rcases List.mem_cons.mp membership with here | later
      · subst here
        have same := setSlot_length_of_hasKey present firstNotNil
        have others := storeElements_length_le decoded true rest
          (setSlot stored (elementKey true (entryName entry.1)) (decoded entry.2))
        omega
      · have one := setSlot_length_le stored (elementKey true (entryName first.1))
          (decoded first.2)
        have others := inductionHypothesis
          (setSlot stored (elementKey true (entryName first.1)) (decoded first.2))
          (fun other membership => notNil other (List.mem_cons_of_mem _ membership)) later
          (setSlot_hasKey firstNotNil present)
        omega

theorem storeElements_collision (entries stored : List Entry) {first second : Entry}
    (notNil : ∀ other ∈ entries, (decoded other.2).isNil = false) (firstIn : first ∈ entries)
    (secondIn : second ∈ entries) (different : first ≠ second)
    (sameIndex : elementKey true (entryName first.1) = elementKey true (entryName second.1)) :
    (storeElements decoded true entries stored).length < stored.length + entries.length := by
  induction entries generalizing stored with
  | nil => cases firstIn
  | cons entry rest inductionHypothesis =>
      have entryNotNil := notNil entry List.mem_cons_self
      have restNotNil : ∀ other ∈ rest, (decoded other.2).isNil = false :=
        fun other membership => notNil other (List.mem_cons_of_mem _ membership)
      have one := setSlot_length_le stored (elementKey true (entryName entry.1)) (decoded entry.2)
      have present : HasKey
          (setSlot stored (elementKey true (entryName entry.1)) (decoded entry.2))
          (elementKey true (entryName entry.1)) :=
        setSlot_hasKey_self stored (elementKey_self true _) entryNotNil
      rw [storeElements_cons decoded, List.length_cons]
      rcases List.mem_cons.mp firstIn with firstHere | firstLater
      · have secondLater := (List.mem_cons.mp secondIn).resolve_left
          fun here => different (firstHere.trans here.symm)
        subst firstHere
        have taken := storeElements_taken decoded rest _ restNotNil secondLater
          (by rw [← sameIndex]; exact present)
        exact lt_of_lt_of_le taken (by omega)
      · rcases List.mem_cons.mp secondIn with secondHere | secondLater
        · subst secondHere
          have taken := storeElements_taken decoded rest _ restNotNil firstLater
            (by rw [sameIndex]; exact present)
          exact lt_of_lt_of_le taken (by omega)
        · have others := inductionHypothesis
            (setSlot stored (elementKey true (entryName entry.1)) (decoded entry.2)) restNotNil
            firstLater secondLater
          omega

theorem storeElements_distinct (entries stored : List Entry)
    (keys : ∀ entry ∈ entries, elementKey false (entryName entry.1) = entry.1)
    (distinct : entries.Pairwise
      (fun first second => LuaValue.rawEqual first.1 second.1 = false))
    (new : ∀ entry ∈ entries, ∀ old ∈ stored, LuaValue.rawEqual entry.1 old.1 = false)
    (notNil : ∀ entry ∈ entries, (decoded entry.2).isNil = false) :
    storeElements decoded false entries stored =
      stored ++ entries.map fun entry => (entry.1, decoded entry.2) := by
  induction entries generalizing stored with
  | nil => simp [storeElements]
  | cons entry rest inductionHypothesis =>
      obtain ⟨headDistinct, restDistinct⟩ := List.pairwise_cons.mp distinct
      rw [storeElements_cons decoded, keys entry List.mem_cons_self,
        setSlot_of_new (new entry List.mem_cons_self) (notNil entry List.mem_cons_self),
        inductionHypothesis _
          (fun other membership => keys other (List.mem_cons_of_mem _ membership)) restDistinct ?_
          (fun other membership => notNil other (List.mem_cons_of_mem _ membership)),
        List.append_assoc]
      · rfl
      · intro other membership old oldIn
        rcases List.mem_append.mp oldIn with before | added
        · exact new other (List.mem_cons_of_mem _ membership) old before
        · rw [List.mem_singleton.mp added, rawEqual_comm]
          exact headDistinct other membership

end Stored

section Returned

variable {arrays : Prop} (rt : Runtime)

theorem returned_notNil (left : Nat) (value : LuaValue) (encodable : Encodable arrays left value) :
    (returned rt left value).isNil = false := by
  cases encodable with
  | scalar scalar =>
      rw [returned_scalar rt left scalar]
      cases scalar <;> rfl
  | table keys distinct values => rfl
  | array allowed isarray keys values => rfl

/-- The entries that come back for a table with string keys. -/
theorem returned_table {left : Nat} {entries : List Entry}
    (keys : ∀ entry ∈ entries, ∃ str, entry.1 = .string str ∧ 0 ∉ str)
    (distinct : entries.Pairwise
      (fun first second => LuaValue.rawEqual first.1 second.1 = false))
    (values : ∀ entry ∈ entries, Encodable arrays left entry.2) :
    storeElements (returned rt left) false entries [] =
      entries.map fun entry => (entry.1, returned rt left entry.2) := by
  refine storeElements_distinct _ entries [] ?_ distinct (by simp) ?_
  · intro entry membership
    obtain ⟨str, key, -⟩ := keys entry membership
    rw [key]
    rfl
  · exact fun entry membership => returned_notNil rt left entry.2 (values entry membership)

theorem same_scalar {value : LuaValue} (scalar : Scalar value) : Same value value := by
  cases scalar with
  | boolean value => exact .boolean value
  | integer value => exact .integer value
  | number bits => exact .number bits
  | plain str plain => exact .string str
  | special str special => exact .string str

theorem sameEntries_map {decoded : LuaValue → LuaValue} (entries : List Entry)
    (keys : ∀ entry ∈ entries, Same entry.1 entry.1)
    (values : ∀ entry ∈ entries, Same entry.2 (decoded entry.2)) :
    SameEntries entries (entries.map fun entry => (entry.1, decoded entry.2)) := by
  induction entries with
  | nil => exact .nil
  | cons entry rest inductionHypothesis =>
      exact .cons (keys entry List.mem_cons_self) (values entry List.mem_cons_self)
        (inductionHypothesis
          (fun other membership => keys other (List.mem_cons_of_mem _ membership))
          (fun other membership => values other (List.mem_cons_of_mem _ membership)))

/-- A table with string keys comes back once the values in it do. -/
theorem same_returned_table {left : Nat} {entries : List Entry}
    (keys : ∀ entry ∈ entries, ∃ str, entry.1 = .string str ∧ 0 ∉ str)
    (distinct : entries.Pairwise
      (fun first second => LuaValue.rawEqual first.1 second.1 = false))
    (values : ∀ entry ∈ entries, Encodable arrays left entry.2)
    (same : ∀ entry ∈ entries, Same entry.2 (returned rt left entry.2)) :
    Same (.table none 0 entries) (returned rt (left + 1) (.table none 0 entries)) := by
  simp only [returned, holdsArray_zero, returned_table rt keys distinct values]
  refine .table (List.Perm.refl _) (sameEntries_map _ ?_ same)
  intro entry membership
  obtain ⟨str, key, -⟩ := keys entry membership
  rw [key]
  exact .string str

/-- Without arrays everything comes back. -/
theorem same_returned (left : Nat) (value : LuaValue) (encodable : Encodable False left value) :
    Same value (returned rt left value) := by
  induction encodable with
  | scalar scalar =>
      rw [returned_scalar rt _ scalar]
      exact same_scalar scalar
  | table keys distinct values inductionHypothesis =>
      exact same_returned_table rt keys distinct values inductionHypothesis
  | array allowed isarray keys values => cases allowed

end Returned

/-- `bson.decode` undoes `bson.encode` on tables with string keys, and the encoding
is a document with the right length at every level. -/
theorem ldecode_lencode (rt : Runtime) (border : Nat) (entries : List Entry)
    (encodable : Encodable False (maxDepth + 1) (.table none border entries))
    (small : (format (maxDepth + 1) (.table none border entries)).2.length < 2 ^ 30) :
    ∃ bytes decoded, bytes = (format (maxDepth + 1) (.table none border entries)).2 ∧
      lencode rt (.table none border entries) = .ok bytes ∧
      (∀ fuel, bytes.length ≤ fuel → ldecode rt fuel (some bytes) = .ok (some decoded)) ∧
      Same (.table none border entries) decoded ∧ Document bytes := by
  have same := same_returned rt (maxDepth + 1) _ encodable
  have wellFormed := format_document encodable
  simp only [format_table] at small
  cases encodable with
  | scalar scalar => cases scalar
  | table keys distinct values =>
      have encodable := Encodable.table keys distinct values
      refine ⟨_, _, rfl, lencode_format rt encodable small, ?_, same, wellFormed⟩
      intro fuel enough
      exact ldecode_document rt encodable enough (by omega)
  | array allowed isarray keys values => cases allowed

/-- One value of every kind and a document in a document. -/
def mixedEntries : List Entry :=
  [(.string [97], .boolean true),
    (.string [98], .integer ⟨-70000, by decide, by decide⟩),
    (.string [99], .integer ⟨2 ^ 40, by decide, by decide⟩),
    (.string [100], .number 0x3ff8000000000000),
    (.string [101], .string [0]),
    (.string [102], .string (lbinary [1, 2])),
    (.string [103], .string (ldate 1700000000)),
    (.string [104], .string (ltimestamp 5 (-1))),
    (.string [105], .string (lregex [97, 42] [105])),
    (.string [106], .string null),
    (.string [], .table none 0 [(.string [107], .string minkey)])]

theorem mixedEntries_encodable : Encodable False (maxDepth + 1) (.table none 0 mixedEntries) := by
  refine .table ?_ ?_ ?_
  · simp [mixedEntries]
  · simp [mixedEntries, LuaValue.rawEqual]
  · simp only [mixedEntries, List.mem_cons, List.not_mem_nil, or_false]
    rintro entry (rfl | rfl | rfl | rfl | rfl | rfl | rfl | rfl | rfl | rfl | rfl)
    · exact .scalar (.boolean true)
    · exact .scalar (.integer _)
    · exact .scalar (.integer _)
    · exact .scalar (.number _)
    · exact .scalar (.plain _ (by simp [IsPlain]))
    · exact .scalar (.special _ (.binary _))
    · exact .scalar (.special _ (.date _))
    · exact .scalar (.special _ (.timestamp _ _))
    · exact .scalar (.special _ (.regex _ _ (by decide) (by decide)))
    · exact .scalar (.special _ .null)
    · refine .table (by simp) (by simp) ?_
      intro entry membership
      rw [List.mem_singleton.mp membership]
      exact .scalar (.special _ .minkey)

/-- The runtime of the examples: floats are not formatted and no value is a userdata. -/
def plainRuntime : Runtime where
  formatNumber := fun _ => []
  userdata := fun _ => []
  rawlen := fun _ => 0

theorem ldecode_lencode_mixed :
    ∃ bytes decoded, bytes = (format (maxDepth + 1) (.table none 0 mixedEntries)).2 ∧
      lencode plainRuntime (.table none 0 mixedEntries) = .ok bytes ∧
      (∀ fuel, bytes.length ≤ fuel → ldecode plainRuntime fuel (some bytes) = .ok (some decoded)) ∧
      Same (.table none 0 mixedEntries) decoded ∧ Document bytes :=
  ldecode_lencode plainRuntime 0 mixedEntries mixedEntries_encodable (by decide +kernel)

section Arrays

def rawgetField : List Entry → Bytes → LuaValue
  | [], _ => .nil
  | (key, value) :: rest, name =>
      if LuaValue.rawEqual (.string name) key then value else rawgetField rest name

/-- The names written for the elements are their decimal positions, and the array
comes back under its key of the document. -/
structure ArraySurvives (rt : Runtime) (entries : List Entry) (key : Bytes) (border : Nat)
    (elements : List Entry) : Prop where
  names : ∀ i : Nat, i < border → arrayKey (.integer (LuaInteger.ofInt (i + 1))) = decimal i
  decoded : ∃ bytes fuel border' decoded, lencode rt (.table none 0 entries) = .ok bytes ∧
    ldecode rt fuel (some bytes) = .ok (some (.table none border' decoded)) ∧
    Same (.table none border elements) (rawgetField decoded key)

theorem rawgetField_map (decoded : LuaValue → LuaValue) {entries : List Entry} {key : Bytes}
    {value : LuaValue}
    (distinct : entries.Pairwise
      (fun first second => LuaValue.rawEqual first.1 second.1 = false))
    (membership : (.string key, value) ∈ entries) :
    rawgetField (entries.map fun entry => (entry.1, decoded entry.2)) key = decoded value := by
  induction entries with
  | nil => cases membership
  | cons entry rest inductionHypothesis =>
      obtain ⟨headDistinct, restDistinct⟩ := List.pairwise_cons.mp distinct
      rcases List.mem_cons.mp membership with here | later
      · subst here
        simp [rawgetField, LuaValue.rawEqual]
      · have different := headDistinct _ later
        rw [rawEqual_comm] at different
        simp only [List.map_cons, rawgetField, different, Bool.false_eq_true, if_false]
        exact inductionHypothesis restDistinct later

/-- The elements at the first two indices share their name. -/
theorem returned_array_shorter (rt : Runtime) {left border : Nat} {elements : List Entry}
    (keys : (elements.map Prod.fst).Perm (sequenceKeys border))
    (values : ∀ entry ∈ elements, Encodable True left entry.2) (two : 2 ≤ border) :
    (storeElements (returned rt left) true elements []).length < border := by
  have count : elements.length = border := by
    have lengths := keys.length_eq
    simpa [sequenceKeys] using lengths
  have found : ∀ i : Nat, i < border → ∃ entry ∈ elements,
      entry.1 = .integer (LuaInteger.ofInt (i + 1)) := by
    intro i bound
    have inKeys : LuaValue.integer (LuaInteger.ofInt (i + 1)) ∈ elements.map Prod.fst :=
      keys.symm.subset (List.mem_map.mpr ⟨i, List.mem_range.mpr bound, rfl⟩)
    obtain ⟨entry, membership, key⟩ := List.mem_map.mp inKeys
    exact ⟨entry, membership, key⟩
  obtain ⟨first, firstIn, firstKey⟩ := found 0 (by omega)
  obtain ⟨second, secondIn, secondKey⟩ := found 1 (by omega)
  have shorter := storeElements_collision (returned rt left) elements []
    (fun other membership => returned_notNil rt left other.2 (values other membership))
    firstIn secondIn (by
      intro same
      rw [← same, firstKey] at secondKey
      have indices := congrArg toInteger secondKey
      revert indices
      decide) (by
      rw [firstKey, secondKey]
      rfl)
  simpa [count] using shorter

theorem Encodable.array_cases {arrays : Prop} {left border : Nat} {elements : List Entry}
    (encodable : Encodable arrays left (.table none border elements)) (nonempty : 1 ≤ border) :
    ∃ inner, left = inner + 1 ∧ isArray border elements = .ok true ∧
      (elements.map Prod.fst).Perm (sequenceKeys border) ∧
      ∀ entry ∈ elements, Encodable arrays inner entry.2 := by
  cases encodable with
  | scalar scalar => cases scalar
  | table keys distinct values => omega
  | array allowed isarray keys values => exact ⟨_, rfl, isarray, keys, values⟩

/-- No array survives: the name of its first element is empty, and one with two
elements or more comes back with fewer of them. -/
theorem array_never_survives (rt : Runtime) (entries : List Entry) (key : Bytes) (border : Nat)
    (elements : List Entry)
    (encodable : Encodable True (maxDepth + 1) (.table none 0 entries))
    (membership : (.string key, .table none border elements) ∈ entries) (nonempty : 1 ≤ border) :
    ¬ ArraySurvives rt entries key border elements ∧
      (2 ≤ border → (format (maxDepth + 1) (.table none 0 entries)).2.length < 2 ^ 30 →
        ∃ bytes border' decoded border'' kept,
          lencode rt (.table none 0 entries) = .ok bytes ∧
          (∀ fuel, bytes.length ≤ fuel →
            ldecode rt fuel (some bytes) = .ok (some (.table none border' decoded))) ∧
          rawgetField decoded key = .table none border'' kept ∧ kept.length < border) := by
  constructor
  · intro survives
    have first := survives.names 0 (by omega)
    revert first
    decide
  · intro two small
    simp only [format_table] at small
    cases encodable with
    | scalar scalar => cases scalar
    | array allowed isarray keys values => cases isarray
    | table keys distinct values =>
        have encodable := Encodable.table keys distinct values
        have inner := values _ membership
        have elementsReturned := returned_table rt keys distinct values
        have field := rawgetField_map (returned rt maxDepth) distinct membership
        obtain ⟨left, levels, isarray, elementKeys, elementValues⟩ :=
          inner.array_cases nonempty
        have shorter := returned_array_shorter rt elementKeys elementValues two
        rw [levels, returned, holdsArray, isarray] at field
        refine ⟨_, rt.rawlen (storeElements (returned rt maxDepth) false entries []),
          storeElements (returned rt maxDepth) false entries [],
          rt.rawlen (storeElements (returned rt left) true elements []), _,
          lencode_format rt encodable small, ?_, ?_, shorter⟩
        · intro fuel enough
          exact ldecode_document rt encodable enough (by omega)
        · rw [elementsReturned, levels]
          exact field

/-- Two booleans under the key `a`. -/
def pairElements : List Entry :=
  [(.integer ⟨1, by decide, by decide⟩, .boolean true),
    (.integer ⟨2, by decide, by decide⟩, .boolean false)]

def pairEntries : List Entry := [(.string [97], .table none 2 pairElements)]

theorem pairEntries_encodable : Encodable True (maxDepth + 1) (.table none 0 pairEntries) := by
  refine .table (by simp [pairEntries]) (by simp [pairEntries]) ?_
  intro entry membership
  rw [List.mem_singleton.mp membership]
  refine .array trivial rfl (List.Perm.refl _) ?_
  simp only [pairElements, List.mem_cons, List.not_mem_nil, or_false]
  rintro entry (rfl | rfl)
  · exact .scalar (.boolean true)
  · exact .scalar (.boolean false)

theorem pairEntries_fewer :
    ∃ bytes border' decoded border'' kept,
      lencode plainRuntime (.table none 0 pairEntries) = .ok bytes ∧
      (∀ fuel, bytes.length ≤ fuel →
        ldecode plainRuntime fuel (some bytes) = .ok (some (.table none border' decoded))) ∧
      rawgetField decoded [97] = .table none border'' kept ∧ kept.length < 2 :=
  (array_never_survives plainRuntime pairEntries [97] 2 pairElements pairEntries_encodable
    (List.mem_singleton_self _) (by decide)).2 (by decide) (by decide +kernel)

/-- The second boolean takes the place of the first. -/
theorem pairEntries_not_survives :
    (∃ bytes, lencode plainRuntime (.table none 0 pairEntries) = .ok bytes ∧
      ldecode plainRuntime 64 (some bytes) = .ok (some (.table none 0
        [(.string [97], .table none 0 [(.integer ⟨1, by decide, by decide⟩, .boolean false)])]))) ∧
    ¬ ArraySurvives plainRuntime pairEntries [97] 2 pairElements := by
  have size : (document (formatElements maxDepth pairEntries)).length = 19 := by decide +kernel
  refine ⟨⟨_, lencode_format plainRuntime pairEntries_encodable (by omega), ?_⟩, ?_⟩
  · exact ldecode_document plainRuntime pairEntries_encodable (by omega) (by omega)
  · intro survives
    have first := survives.names 0 (by decide)
    revert first
    decide

end Arrays

end CrossOver.Lua.Bson
