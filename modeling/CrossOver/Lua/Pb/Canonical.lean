import CrossOver.Lua.Pb.RoundTrip

/-!
# `lua_pb`: canonical tables come back unchanged

The values a decoder makes of a field are canonical for it; a table of them, without the
zeros that proto3 does not write and in types that copy no defaults, can be encoded and is
decoded to the same table.
-/

namespace CrossOver.Lua.Pb

open CrossOver.Lib

def sequenceFrom (index : Nat) (items : List LuaValue) : List Entry :=
  items.zipIdx index |>.map fun item => (.integer (.ofInt item.2), item.1)

def sequence (items : List LuaValue) : List Entry := sequenceFrom 1 items

structure Conversions.Faithful (conv : Conversions) : Prop extends conv.Standard where
  number : ∀ bits, conv.tonumberx (.number bits) = some bits
  border : ∀ items : List LuaValue, (∀ item ∈ items, item ≠ .nil) → items.length < 2 ^ 31 →
    conv.rawlen (sequence items) = items.length

section Scalars

variable {conv : Conversions} {opts : Options}

/-- The values of a field that is neither an enumeration nor a message. -/
inductive CanonicalScalar (conv : Conversions) (opts : Options) : FieldType → LuaValue → Prop where
  | bool (value : Bool) : CanonicalScalar conv opts .bool (.boolean value)
  | double (bits : UInt64) : CanonicalScalar conv opts .double (.number bits)
  | float {bits : UInt64} : conv.decodeFloat (conv.encodeFloat bits) = bits →
      CanonicalScalar conv opts .float (.number bits)
  | string (s : Bytes) : CanonicalScalar conv opts .string (.string s)
  | bytes (s : Bytes) : CanonicalScalar conv opts .bytes (.string s)
  | integer {type : FieldType} (v : UInt64) : type.isInteger = true →
      CanonicalScalar conv opts type (pushinteger opts.int64Mode (type.cut v))

theorem lowInteger_value (width : Nat) (isSigned : Bool) (a : Nat) :
    (lowInteger width isSigned a).value =
      Int.bmod (if isSigned then Int.bmod a (2 ^ width) else a % 2 ^ width) (2 ^ 64) := rfl

theorem lowInteger_again {width : Nat} {isSigned : Bool}
    (size : (width, isSigned) = (32, true) ∨ (width, isSigned) = (32, false) ∨
      (width, isSigned) = (64, true)) (a : Nat) :
    lowInteger width isSigned
        (UInt64.ofNat ((lowInteger width isSigned a).value % 2 ^ 64).toNat).toNat =
      lowInteger width isSigned a := by
  apply lowInteger_congr
  rw [UInt64.toNat_ofNat', lowInteger_value]
  rcases size with equal | equal | equal
  · cases equal
    rw [if_pos rfl, Int.bmod, Int.bmod]
    split <;> split <;> omega
  · cases equal
    rw [if_neg Bool.false_ne_true, Int.bmod]
    split <;> omega
  · cases equal
    rw [if_pos rfl, Int.bmod, Int.bmod]
    split <;> split <;> omega

theorem FieldType.cut_again (type : FieldType) (v : UInt64) :
    type.cut (UInt64.ofNat ((type.cut v).value % 2 ^ 64).toNat) = type.cut v := by
  cases type
  case int32 | sint32 | sfixed32 => exact lowInteger_again (.inl rfl) _
  case uint32 | fixed32 => exact lowInteger_again (.inr (.inl rfl)) _
  all_goals exact lowInteger_again (.inr (.inr rfl)) _

theorem pushinteger_ne_nil (mode : Int64Mode) (n : LuaInteger) : pushinteger mode n ≠ .nil := by
  unfold pushinteger
  split <;> exact LuaValue.noConfusion

theorem CanonicalScalar.encoded (faithful : conv.Faithful) {type : FieldType} {value : LuaValue}
    (canonical : CanonicalScalar conv opts type value) :
    (∃ found, addtype conv type value = .ok (some found)) ∧
      Meaning.scalar conv opts type value = value ∧ value ≠ .nil := by
  cases canonical with
  | bool value => exact ⟨⟨_, rfl⟩, rfl, LuaValue.noConfusion⟩
  | double bits =>
      rw [addtype, Meaning.scalar, faithful.number]
      exact ⟨⟨_, rfl⟩, rfl, LuaValue.noConfusion⟩
  | float kept =>
      rw [addtype, Meaning.scalar, faithful.number, Option.map_some, Option.map_some, kept]
      exact ⟨⟨_, rfl⟩, rfl, LuaValue.noConfusion⟩
  | string s => exact ⟨⟨_, rfl⟩, rfl, LuaValue.noConfusion⟩
  | bytes s => exact ⟨⟨_, rfl⟩, rfl, LuaValue.noConfusion⟩
  | integer v integer =>
      have read := integers_roundTrip faithful.toStandard opts.int64Mode (type.cut v)
      refine ⟨?_, ?_, pushinteger_ne_nil _ _⟩
      · rw [addtype_integer integer, read]
        exact ⟨_, rfl⟩
      · rw [scalar_integer opts integer read, type.cut_again]

end Scalars

section Assignments

variable {entries : List Entry} {name : Bytes} {value old : LuaValue}

/-- No key twice. -/
def Distinct (entries : List Entry) : Prop :=
  entries.Pairwise fun earlier later => LuaValue.rawEqual later.1 earlier.1 = false

/-- No entry has the key. -/
def Fresh (key : LuaValue) (entries : List Entry) : Prop :=
  ∀ entry ∈ entries, LuaValue.rawEqual key entry.1 = false

theorem Distinct.fresh {done rest : List Entry} {entry : Entry}
    (distinct : Distinct (done ++ entry :: rest)) : Fresh entry.1 done := fun other among =>
  (List.pairwise_append.mp distinct).2.2 other among entry List.mem_cons_self

theorem getfield_append (fresh : Fresh (.string name) entries) (more : List Entry) :
    getfield (entries ++ more) name = getfield more name := by
  induction entries with
  | nil => rfl
  | cons entry entries inductionHypothesis =>
      have behind := inductionHypothesis fun other among => fresh other (List.mem_cons_of_mem _ among)
      have here := fresh entry List.mem_cons_self
      rcases entry with ⟨key, value⟩
      cases key with
      | string key =>
          have other : key ≠ name := by
            rintro rfl
            simp [LuaValue.rawEqual] at here
          rw [List.cons_append, getfield, if_neg other, behind]
      | _ => exact behind

theorem getfield_fresh (fresh : Fresh (.string name) entries) : getfield entries name = .nil := by
  have found := getfield_append fresh []
  rwa [List.append_nil] at found

theorem getfield_last (fresh : Fresh (.string name) entries) (value : LuaValue) :
    getfield (entries ++ [(.string name, value)]) name = value := by
  rw [getfield_append fresh, getfield, if_pos rfl]

theorem isNil_false (notNil : value ≠ .nil) : value.isNil = false := by
  cases value with
  | nil => exact absurd rfl notNil
  | _ => rfl

theorem setSlot_last (fresh : Fresh (.string name) entries) (notNil : value ≠ .nil) :
    setSlot (entries ++ [(.string name, old)]) (.string name) value =
      entries ++ [(.string name, value)] := by
  have same : LuaValue.rawEqual (.string name) (.string name) = true := by simp [LuaValue.rawEqual]
  have kept : entries.map (fun entry =>
      if LuaValue.rawEqual (.string name) entry.1 then (LuaValue.string name, value) else entry) =
      entries := by
    rw [List.map_congr_left (g := id) fun entry among => by rw [fresh entry among]; rfl,
      List.map_id]
  rw [setSlot, isNil_false notNil, if_neg Bool.false_ne_true, if_pos (by simp [same]),
    List.map_append, kept, List.map_singleton, if_pos same]

theorem sequence_append (items : List LuaValue) (item : LuaValue) :
    sequence (items ++ [item]) =
      sequence items ++ [(.integer (.ofInt (items.length + 1)), item)] := by
  simp only [sequence, sequenceFrom, List.zipIdx_append, List.map_append, List.zipIdx_singleton,
    List.map_singleton]
  rw [Nat.add_comm 1 items.length]
  rfl

theorem sequence_fresh {items : List LuaValue} (short : items.length < 2 ^ 31) :
    Fresh (.integer (.ofInt (items.length + 1))) (sequence items) := by
  intro entry among
  rcases List.mem_map.mp among with ⟨⟨item, index⟩, there, rfl⟩
  have bound := List.snd_lt_of_mem_zipIdx there
  have different : LuaInteger.ofInt (items.length + 1) ≠ LuaInteger.ofInt index := fun same =>
    absurd (ofInt_inj_of_bounds same (by omega) (by omega) (by omega) (by omega)) (by omega)
  simpa [LuaValue.rawEqual] using different

theorem rawgeti_sequenceFrom (index : Nat) (items : List LuaValue)
    (small : index + items.length < 2 ^ 32) (i : Nat) (inside : i < items.length) :
    rawgeti (sequenceFrom index items) (index + i : Nat) = items[i] := by
  induction items generalizing index i with
  | nil => cases inside
  | cons item items inductionHypothesis =>
      have value : (LuaInteger.ofInt index).value = index :=
        ofInt_value_of_bounds index (by omega) (by omega)
      change rawgeti ((.integer (.ofInt index), item) :: sequenceFrom (index + 1) items) _ = _
      rw [rawgeti, value]
      cases i with
      | zero => exact if_pos rfl
      | succ i =>
          rw [List.length_cons] at small inside
          have later := inductionHypothesis (index + 1) (by omega) i (by omega)
          rw [if_neg (by omega), show index + (i + 1) = index + 1 + i by omega, later]
          rfl

theorem elements_cons {room : Nat} {i : Int} (found : rawgeti entries i = value)
    (notNil : value ≠ .nil) :
    elements entries (room + 1) i = value :: elements entries room (i + 1) := by
  rw [elements, found]
  cases value with
  | nil => exact absurd rfl notNil
  | _ => rfl

theorem elements_sequence {items : List LuaValue} (notNil : ∀ item ∈ items, item ≠ .nil)
    (short : items.length < 2 ^ 31) (room index : Nat) (whole : index + room = items.length) :
    elements (sequence items) room (index + 1 : Nat) = items.drop index := by
  induction room generalizing index with
  | zero => rw [elements, List.drop_eq_nil_of_le (by omega)]
  | succ room inductionHypothesis =>
      have inside : index < items.length := by omega
      have here := rawgeti_sequenceFrom 1 items (by omega) index inside
      rw [Nat.add_comm 1 index] at here
      change rawgeti (sequence items) _ = _ at here
      rw [elements_cons here (notNil _ (List.getElem_mem inside)), List.drop_eq_getElem_cons inside]
      congr 1
      exact inductionHypothesis (index + 1) (by omega)

end Assignments

section Values

variable (conv : Conversions) (db : Database) (opts : Options)
  (inside : Ty → List Entry → Prop)

/-- The values of an enumeration: a name that its number leads back to, or a number. -/
inductive CanonicalEnum (f : Field) : LuaValue → Prop where
  | name {type : Ty} {ev found : Field} {name : Bytes} : db.typeOf f = some type →
      type.fname name = some ev → type.field ev.number = some found → found.name = name →
      opts.enumAsValue = false → CanonicalEnum f (.string name)
  | number {v : UInt64} :
      opts.enumAsValue = true ∨ (db.typeOf f).bind (·.field v.toUInt32.toInt32) = none →
      pushinteger opts.int64Mode (signed64 v) = .integer (signed64 v) →
      conv.toUint64 ((conv.tonumberx (.integer (signed64 v))).getD 0) = v →
      CanonicalEnum f (.integer (signed64 v))

def CanonicalValue (f : Field) (value : LuaValue) : Prop :=
  match f.typeId with
  | .enum => CanonicalEnum conv db opts f value
  | .message => ∃ type entries, db.typeOf f = some type ∧ type.isDead = false ∧
      inside type entries ∧ value = newTable conv entries
  | type => CanonicalScalar conv opts type value

/-- A key or a value of a map: what is not written is the default. -/
def CanonicalPart (f : Field) (value : LuaValue) : Prop :=
  CanonicalValue conv db opts inside f value ∧
    (Meaning.isZero conv f.typeId value = true → pushdefault conv db opts f true = some value)

inductive CanonicalEntry (t : Ty) : Entry → Prop where
  | single {f : Field} {name : Bytes} {value : LuaValue} : t.fname name = some f →
      (db.typeOf f).any (·.isMap) = false → f.repeated = false →
      ((db.typeOf f).all fun type => !type.isDead) = true →
      CanonicalValue conv db opts inside f value →
      ¬ ((t.isProto3 && f.oneofIdx == 0) = true ∧ Meaning.isZero conv f.typeId value = true) →
      CanonicalEntry t (.string name, value)
  | list {f : Field} {name : Bytes} {items : List LuaValue} : t.fname name = some f →
      (db.typeOf f).any (·.isMap) = false → f.repeated = true →
      items ≠ [] ∨ f.packed = true → items.length < 2 ^ 31 →
      (∀ item ∈ items, CanonicalValue conv db opts inside f item) →
      CanonicalEntry t (.string name, newTable conv (sequence items))
  | map {f kf vf : Field} {type : Ty} {name : Bytes} {pairs : List Entry} :
      t.fname name = some f → db.typeOf f = some type → type.isMap = true →
      type.field 1 = some kf → type.field 2 = some vf → pairs ≠ [] →
      Distinct pairs →
      (∀ pair ∈ pairs, pair.1.normalizeKey = .ok pair.1 ∧
        CanonicalPart conv db opts inside kf pair.1 ∧
        CanonicalPart conv db opts inside vf pair.2) →
      CanonicalEntry t (.string name, newTable conv pairs)

/-- Every name once, and every value one that a decoder makes. -/
structure CanonicalEntries (t : Ty) (entries : List Entry) : Prop where
  once : Distinct entries
  each : ∀ entry ∈ entries, CanonicalEntry conv db opts inside t entry

end Values

/-- The canonical tables of a type, less than `depth` deep. -/
def Canonical (conv : Conversions) (db : Database) (opts : Options) :
    Nat → Ty → List Entry → Prop
  | 0 => fun _ _ => False
  | depth + 1 => CanonicalEntries conv db opts (Canonical conv db opts depth)

section Kept

variable {conv : Conversions} {db : Database} {opts : Options} {inside : Ty → List Entry → Prop}
  {nestedE : Option Ty → List Entry → Bytes → Except Failure Bytes}
  {nestedM : Ty → List Entry → List Entry → Except Failure (List Entry)}
  {f : Field} {value : LuaValue}

structure NestedKept (inside : Ty → List Entry → Prop)
    (nestedE : Option Ty → List Entry → Bytes → Except Failure Bytes)
    (nestedM : Ty → List Entry → List Entry → Except Failure (List Entry)) : Prop where
  encodes : ∀ t entries b, inside t entries → ∃ out, nestedE (some t) entries b = .ok out
  keeps : ∀ t entries, inside t entries → nestedM t entries [] = .ok entries

theorem CanonicalEnum.kept (canonical : CanonicalEnum conv db opts f value) :
    (∀ b, ∃ out, Encode.enum conv db f value b = .ok out) ∧
      Meaning.enum conv db opts f value = value ∧ value ≠ .nil := by
  cases canonical with
  | @name type ev found name points named numbered same asName =>
      refine ⟨fun b => ?_, ?_, LuaValue.noConfusion⟩
      · rw [Encode.enum, points, Option.bind_some, named]
        exact ⟨_, rfl⟩
      · have number : Meaning.enumNumber conv db f (.string name) =
            ev.number.toUInt32.toUInt64 := by
          rw [Meaning.enumNumber, points, Option.bind_some, named]
        rw [Meaning.enum, number, points, asName]
        simp only [UInt32.toUInt32_toUInt64, Int32.toInt32_toUInt32, Bool.false_eq_true, if_false,
          Option.bind_some, numbered, same]
  | number unnamed small exact' =>
      refine ⟨fun b => ⟨_, rfl⟩, ?_, LuaValue.noConfusion⟩
      rw [Meaning.enum, Meaning.enumNumber, exact']
      rcases unnamed with asValue | unnamed
      · simp only [asValue, if_true, small]
      · simp only [unnamed, ite_self, small]

/-- The types of the database come without defaults. -/
def Bare (db : Database) (opts : Options) : Prop :=
  ∀ n, copiesDefaults opts (db.types n) = false

theorem Bare.typeOf (bare : Bare db opts) {type : Ty} (points : db.typeOf f = some type) :
    pushtypetable conv db opts type = [] := by
  rcases Option.map_eq_some_iff.mp points with ⟨n, -, rfl⟩
  rw [pushtypetable, bare n]
  rfl

theorem CanonicalValue.kept (faithful : conv.Faithful) (bare : Bare db opts)
    (nested : NestedKept inside nestedE nestedM)
    (canonical : CanonicalValue conv db opts inside f value) :
    (∀ b, ∃ found, Encode.field conv db nestedE f value b = .ok found) ∧
      Meaning.value conv db opts nestedM f value = .ok value ∧ value ≠ .nil := by
  unfold CanonicalValue at canonical
  split at canonical
  case h_1 type =>
      rcases canonical.kept with ⟨encodes, same, notNil⟩
      unfold Encode.field Meaning.value
      simp only [type, same]
      refine ⟨fun b => ?_, trivial, notNil⟩
      rcases encodes b with ⟨out, encoded⟩
      exact ⟨_, by rw [encoded]; rfl⟩
  case h_2 type =>
      rcases canonical with ⟨inner, entries, points, alive, there, rfl⟩
      unfold Encode.field Meaning.value
      simp only [type, points, newTable, checktable, alive, bare.typeOf points,
        nested.keeps inner entries there]
      refine ⟨fun b => ?_, rfl, LuaValue.noConfusion⟩
      rcases nested.encodes inner entries b there with ⟨out, encoded⟩
      exact ⟨_, by rw [ok_bind, encoded]; rfl⟩
  case h_3 notEnum notMessage =>
      rcases canonical.encoded faithful with ⟨⟨found, added⟩, same, notNil⟩
      unfold Encode.field Meaning.value
      generalize f.typeId = type at *
      refine ⟨fun b => ⟨(b ++ found.1, if found.2 then found.1.length else 0), ?_⟩, ?_, notNil⟩
      · cases type
        case enum => exact absurd rfl notEnum
        case message => exact absurd rfl notMessage
        all_goals
          simp only [added, ok_bind]
          rfl
      · cases type
        case enum => exact absurd rfl notEnum
        case message => exact absurd rfl notMessage
        all_goals exact congrArg Except.ok same

theorem tagfield_encodes
    (encodes : ∀ b, ∃ found, Encode.field conv db nestedE f value b = .ok found)
    (ignorezero : Bool) (b : Bytes) :
    ∃ out, Encode.tagfield conv db nestedE f ignorezero value b = .ok out := by
  rcases encodes (b ++ Encode.tag f f.typeId.wtype) with ⟨found, encoded⟩
  exact ⟨_, by rw [Encode.tagfield, encoded]; rfl⟩

theorem foldlM_encodes {Item : Type} {step : Bytes → Item → Except Failure Bytes}
    {items : List Item} (each : ∀ item ∈ items, ∀ b, ∃ out, step b item = .ok out) (b : Bytes) :
    ∃ out, items.foldlM step b = .ok out := by
  induction items generalizing b with
  | nil => exact ⟨b, rfl⟩
  | cons item items inductionHypothesis =>
      rcases each item List.mem_cons_self b with ⟨middle, encoded⟩
      rw [List.foldlM_cons, encoded]
      exact inductionHypothesis (fun other among => each other (List.mem_cons_of_mem _ among)) middle

end Kept

section Tables

variable {conv : Conversions} {db : Database} {opts : Options}
  {nestedM : Ty → List Entry → List Entry → Except Failure (List Entry)}
  {done inner later : List Entry} {f : Field}

def withTable (conv : Conversions) (done : List Entry) (name : Bytes) (inner : List Entry) :
    List Entry :=
  if inner = [] then done else done ++ [(.string name, newTable conv inner)]

theorem withTable_nil (name : Bytes) : withTable conv done name [] = done := if_pos rfl

theorem withTable_filled (name : Bytes) (filled : inner ≠ []) :
    withTable conv done name inner = done ++ [(.string name, newTable conv inner)] :=
  if_neg filled

theorem fetchtable_withTable (fresh : Fresh (.string f.name) done) (inner : List Entry) :
    Decode.fetchtable f (withTable conv done f.name inner) = .ok inner := by
  by_cases empty : inner = []
  · rw [withTable, if_pos empty, Decode.fetchtable, getfield_fresh fresh, empty]
  · rw [withTable, if_neg empty, Decode.fetchtable, getfield_last fresh, newTable]

theorem setSlot_withTable (fresh : Fresh (.string f.name) done) (inner : List Entry)
    (filled : later ≠ []) :
    setSlot (withTable conv done f.name inner) (.string f.name) (newTable conv later) =
      withTable conv done f.name later := by
  unfold withTable
  rw [if_neg filled]
  split
  case isTrue => exact setSlot_of_new fresh rfl
  case isFalse => exact setSlot_last fresh LuaValue.noConfusion

theorem element_list (faithful : conv.Faithful) (fresh : Fresh (.string f.name) done)
    {items rest : List LuaValue} (notNil : ∀ item ∈ items ++ rest, item ≠ .nil)
    (short : (items ++ rest).length < 2 ^ 31)
    (same : ∀ item ∈ rest, Meaning.value conv db opts nestedM f item = .ok item) :
    rest.foldlM (Meaning.element conv db opts nestedM f)
        (withTable conv done f.name (sequence items)) =
      .ok (withTable conv done f.name (sequence (items ++ rest))) := by
  induction rest generalizing items with
  | nil => rw [List.append_nil]; rfl
  | cons item rest inductionHypothesis =>
      have room : items.length < 2 ^ 31 := by
        rw [List.length_append] at short
        omega
      have border := faithful.border items
        (fun other among => notNil other (List.mem_append_left _ among)) room
      have stored : setSlot (sequence items) (.integer (.ofInt (items.length + 1))) item =
          sequence (items ++ [item]) := by
        rw [setSlot_of_new (sequence_fresh room) (isNil_false (notNil item (by simp))),
          sequence_append]
      have filled : sequence (items ++ [item]) ≠ [] := by simp [sequence_append]
      have first : Meaning.element conv db opts nestedM f
          (withTable conv done f.name (sequence items)) item =
          .ok (withTable conv done f.name (sequence (items ++ [item]))) := by
        rw [Meaning.element, fetchtable_withTable fresh, ok_bind,
          same item List.mem_cons_self, ok_bind]
        simp only [border, stored, setSlot_withTable fresh _ filled]
        rfl
      rw [List.foldlM_cons, first, ok_bind, inductionHypothesis]
      · rw [List.append_assoc, List.singleton_append]
      · rwa [List.append_assoc, List.singleton_append]
      · rwa [List.append_assoc, List.singleton_append]
      · exact fun other among => same other (List.mem_cons_of_mem _ among)

theorem packed_list (items : List LuaValue) {rest : List LuaValue} (notNil : ∀ item ∈ items ++ rest, item ≠ .nil)
    (short : (items ++ rest).length < 2 ^ 31)
    (same : ∀ item ∈ rest, Meaning.value conv db opts nestedM f item = .ok item) :
    rest.foldlM (fun (state : List Entry × Nat) item => do
        let made ← Meaning.value conv db opts nestedM f item
        return (setSlot state.1 (.integer (.ofInt (state.2 + 1))) made, state.2 + 1))
        (sequence items, items.length) =
      .ok (sequence (items ++ rest), (items ++ rest).length) := by
  induction rest generalizing items with
  | nil => rw [List.append_nil]; rfl
  | cons item rest inductionHypothesis =>
      have room : items.length < 2 ^ 31 := by
        rw [List.length_append] at short
        omega
      have stored : setSlot (sequence items) (.integer (.ofInt (items.length + 1))) item =
          sequence (items ++ [item]) := by
        rw [setSlot_of_new (sequence_fresh room) (isNil_false (notNil item (by simp))),
          sequence_append]
      have again : items ++ item :: rest = items ++ [item] ++ rest := by simp
      have length : items.length + 1 = (items ++ [item]).length := by simp
      rw [List.foldlM_cons, same item List.mem_cons_self, ok_bind, stored, again]
      rw [again] at notNil short
      rw [length]
      exact inductionHypothesis _ notNil short fun other among =>
        same other (List.mem_cons_of_mem _ among)

theorem mapEntry_list (fresh : Fresh (.string f.name) done) {kf vf : Field}
    {pairs rest : List Entry}
    (distinct : Distinct (pairs ++ rest))
    (normal : ∀ pair ∈ rest, pair.1.normalizeKey = .ok pair.1 ∧ pair.2 ≠ .nil)
    (same : ∀ pair ∈ rest, Meaning.mapPart conv db opts nestedM kf pair.1 = .ok (some pair.1) ∧
      Meaning.mapPart conv db opts nestedM vf pair.2 = .ok (some pair.2)) :
    rest.foldlM (Meaning.mapEntry conv db opts nestedM f kf vf) (withTable conv done f.name pairs) =
      .ok (withTable conv done f.name (pairs ++ rest)) := by
  induction rest generalizing pairs with
  | nil => rw [List.append_nil]; rfl
  | cons pair rest inductionHypothesis =>
      have new := distinct.fresh
      rcases normal pair List.mem_cons_self with ⟨key, notNil⟩
      rcases same pair List.mem_cons_self with ⟨sameKey, sameValue⟩
      have stored : rawsetKey pairs pair.1 pair.2 = .ok (pairs ++ [pair]) := by
        rw [rawsetKey, rawset, key]
        exact congrArg Except.ok (setSlot_of_new new (isNil_false notNil))
      have filled : pairs ++ [pair] ≠ [] := by simp
      have first : Meaning.mapEntry conv db opts nestedM f kf vf
          (withTable conv done f.name pairs) pair =
          .ok (withTable conv done f.name (pairs ++ [pair])) := by
        rw [Meaning.mapEntry, fetchtable_withTable fresh, ok_bind, sameKey, ok_bind, sameValue,
          ok_bind, Decode.assign, stored, ok_bind, setSlot_withTable fresh _ filled]
        rfl
      have again : pairs ++ pair :: rest = pairs ++ [pair] ++ rest := by simp
      rw [again] at distinct
      rw [List.foldlM_cons, first, ok_bind, again]
      exact inductionHypothesis distinct
        (fun other among => normal other (List.mem_cons_of_mem _ among))
        fun other among => same other (List.mem_cons_of_mem _ among)

end Tables

section Entries

variable {conv : Conversions} {db : Database} {opts : Options} {inside : Ty → List Entry → Prop}
  {nestedE : Option Ty → List Entry → Bytes → Except Failure Bytes}
  {nestedM : Ty → List Entry → List Entry → Except Failure (List Entry)}
  {t : Ty} {entry : Entry} {f : Field} {name : Bytes}

theorem CanonicalPart.kept (faithful : conv.Faithful) (bare : Bare db opts)
    (nested : NestedKept inside nestedE nestedM) {value : LuaValue}
    (canonical : CanonicalPart conv db opts inside f value) :
    Meaning.mapPart conv db opts nestedM f value = .ok (some value) := by
  unfold Meaning.mapPart
  split
  case isTrue zero => rw [canonical.2 zero]
  case isFalse => rw [(canonical.1.kept faithful bare nested).2.1]; rfl

theorem elements_encode {items : List LuaValue}
    (each : ∀ item ∈ items, ∀ b, ∃ found, Encode.field conv db nestedE f item b = .ok found)
    (b : Bytes) : ∃ out, items.foldlM (fun inner value => do
      let (inner, _) ← Encode.field conv db nestedE f value inner
      return inner) b = .ok out := by
  refine foldlM_encodes (fun item among b => ?_) b
  rcases each item among b with ⟨found, encoded⟩
  exact ⟨_, by rw [encoded]; rfl⟩

def KeptEntry (conv : Conversions) (db : Database) (opts : Options)
    (nestedE : Option Ty → List Entry → Bytes → Except Failure Bytes)
    (nestedM : Ty → List Entry → List Entry → Except Failure (List Entry))
    (t : Ty) (entry : Entry) : Prop :=
  (∀ b, ∃ out, Encode.entry conv db nestedE t b entry = .ok out) ∧
    ∀ done, Fresh entry.1 done →
      Meaning.entry conv db opts nestedM t done entry = .ok (done ++ [entry])

theorem kept_single (faithful : conv.Faithful) (bare : Bare db opts)
    (nested : NestedKept inside nestedE nestedM) {value : LuaValue}
    (named : t.fname name = some f) (plain : (db.typeOf f).any (·.isMap) = false)
    (once : f.repeated = false) (alive : ((db.typeOf f).all fun type => !type.isDead) = true)
    (canonical : CanonicalValue conv db opts inside f value)
    (written : ¬ ((t.isProto3 && f.oneofIdx == 0) = true ∧
      Meaning.isZero conv f.typeId value = true)) :
    KeptEntry conv db opts nestedE nestedM t (.string name, value) := by
  rcases canonical.kept faithful bare nested with ⟨encodes, same, notNil⟩
  have isName := (Ty.fname_mem named).2
  simp only [KeptEntry, Encode.entry, Meaning.entry, named, plain, once, alive,
    Bool.false_eq_true, if_false, if_true]
  refine ⟨tagfield_encodes encodes _, fun done fresh => ?_⟩
  rw [Meaning.single, if_neg written, same, ok_bind, isName,
    setSlot_of_new fresh (isNil_false notNil)]
  rfl

theorem kept_list (faithful : conv.Faithful) (bare : Bare db opts)
    (nested : NestedKept inside nestedE nestedM) {items : List LuaValue}
    (named : t.fname name = some f) (plain : (db.typeOf f).any (·.isMap) = false)
    (many : f.repeated = true) (filled : items ≠ [] ∨ f.packed = true)
    (short : items.length < 2 ^ 31)
    (canonical : ∀ item ∈ items, CanonicalValue conv db opts inside f item) :
    KeptEntry conv db opts nestedE nestedM t (.string name, newTable conv (sequence items)) := by
  have isName := (Ty.fname_mem named).2
  have kept := fun item among => (canonical item among).kept faithful bare nested
  have notNil : ∀ item ∈ items, item ≠ .nil := fun item among => (kept item among).2.2
  have same := fun item among => (kept item among).2.1
  have size : (sequence items).length = items.length := by simp [sequence, sequenceFrom]
  have whole : elements (sequence items) (sequence items).length 1 = items := by
    rw [size]
    exact elements_sequence notNil short items.length 0 (Nat.zero_add _)
  simp only [KeptEntry, Encode.entry, Meaning.entry, named, plain, many, Bool.false_eq_true,
    if_false, if_true, Encode.repeated, newTable, checktable, Meaning.entriesOf, ok_bind, whole]
  by_cases packed : f.packed = true
  · simp only [packed, if_true]
    refine ⟨fun b => ?_, fun done fresh => ?_⟩
    · rcases elements_encode (fun item among => (kept item among).1) (b ++ Encode.tag f .bytes)
        with ⟨out, encoded⟩
      exact ⟨_, by rw [encoded]; rfl⟩
    · rw [← isName] at fresh ⊢
      have empty : conv.rawlen [] = 0 :=
        faithful.border [] (fun _ among => absurd among List.not_mem_nil) (by decide)
      have fetched : Decode.fetchtable f (withTable conv done f.name []) = .ok [] :=
        fetchtable_withTable fresh []
      rw [withTable_nil] at fetched
      have folded : items.foldlM (fun (state : List Entry × Nat) item => do
          let made ← Meaning.value conv db opts nestedM f item
          return (setSlot state.1 (.integer (.ofInt (state.2 + 1))) made, state.2 + 1))
          (([], 0) : List Entry × Nat) = .ok (sequence items, items.length) :=
        packed_list [] notNil short same
      rw [Meaning.packed, fetched, ok_bind, empty, folded, ok_bind]
      exact congrArg Except.ok (setSlot_of_new fresh rfl)
  · simp only [packed, Bool.false_eq_true, if_false]
    refine ⟨foldlM_encodes fun item among => tagfield_encodes (kept item among).1 false,
      fun done fresh => ?_⟩
    have inner : sequence items ≠ [] := by
      have some' := filled.resolve_right packed
      simpa [sequence, sequenceFrom] using some'
    rw [← isName] at fresh ⊢
    have folded : items.foldlM (Meaning.element conv db opts nestedM f)
        (withTable conv done f.name (sequence [])) =
        .ok (withTable conv done f.name (sequence ([] ++ items))) :=
      element_list faithful fresh notNil short same
    rw [List.nil_append, withTable_filled _ inner] at folded
    exact folded

theorem kept_map (faithful : conv.Faithful) (bare : Bare db opts)
    (nested : NestedKept inside nestedE nestedM) {kf vf : Field} {type : Ty}
    {pairs : List Entry} (named : t.fname name = some f) (points : db.typeOf f = some type)
    (isMap : type.isMap = true) (hasKey : type.field 1 = some kf)
    (hasValue : type.field 2 = some vf) (filled : pairs ≠ []) (distinct : Distinct pairs)
    (canonical : ∀ pair ∈ pairs, pair.1.normalizeKey = .ok pair.1 ∧
      CanonicalPart conv db opts inside kf pair.1 ∧
      CanonicalPart conv db opts inside vf pair.2) :
    KeptEntry conv db opts nestedE nestedM t (.string name, newTable conv pairs) := by
  have isName := (Ty.fname_mem named).2
  have keyKept := fun pair among => (canonical pair among).2.1.1.kept faithful bare nested
  have valueKept := fun pair among => (canonical pair among).2.2.1.kept faithful bare nested
  simp only [KeptEntry, Encode.entry, Meaning.entry, named, points, Option.any_some, isMap,
    if_true, Encode.map, Option.bind_some, hasKey, hasValue, newTable, checktable,
    Meaning.entriesOf, ok_bind]
  refine ⟨foldlM_encodes fun pair among b => ?_, fun done fresh => ?_⟩
  · rcases tagfield_encodes (keyKept pair among).1 true (b ++ Encode.tag f .bytes) with
      ⟨middle, first⟩
    rcases tagfield_encodes (valueKept pair among).1 true middle with ⟨out, second⟩
    exact ⟨_, by rw [Encode.mapEntry, first, ok_bind, second]; rfl⟩
  · rw [← isName] at fresh ⊢
    have whole : pairs.foldlM (Meaning.mapEntry conv db opts nestedM f kf vf)
        (withTable conv done f.name []) = .ok (withTable conv done f.name ([] ++ pairs)) :=
      mapEntry_list fresh distinct
        (fun pair among => ⟨(canonical pair among).1, (valueKept pair among).2.2⟩)
        fun pair among => ⟨(canonical pair among).2.1.kept faithful bare nested,
          (canonical pair among).2.2.kept faithful bare nested⟩
    rw [List.nil_append, withTable_nil, withTable_filled _ filled] at whole
    exact whole

theorem CanonicalEntry.kept (faithful : conv.Faithful) (bare : Bare db opts)
    (nested : NestedKept inside nestedE nestedM)
    (canonical : CanonicalEntry conv db opts inside t entry) :
    KeptEntry conv db opts nestedE nestedM t entry := by
  cases canonical with
  | single named plain once alive canonical written =>
      exact kept_single faithful bare nested named plain once alive canonical written
  | list named plain many filled short canonical =>
      exact kept_list faithful bare nested named plain many filled short canonical
  | map named points isMap hasKey hasValue filled distinct canonical =>
      exact kept_map faithful bare nested named points isMap hasKey hasValue filled distinct
        canonical

theorem CanonicalEntries.kept (faithful : conv.Faithful) (bare : Bare db opts)
    (nested : NestedKept inside nestedE nestedM) :
    NestedKept (CanonicalEntries conv db opts inside) (Encode.message conv db nestedE)
      (Meaning.message conv db opts nestedM) := by
  constructor
  · intro t entries b canonical
    exact foldlM_encodes (fun entry among => ((canonical.each entry among).kept faithful bare
      nested).1) b
  · intro t entries canonical
    have folded (done rest : List Entry) (whole : entries = done ++ rest) :
        rest.foldlM (Meaning.entry conv db opts nestedM t) done = .ok entries := by
      induction rest generalizing done with
      | nil => rw [whole, List.append_nil]; rfl
      | cons entry rest inductionHypothesis =>
          have among : entry ∈ entries := by simp [whole]
          have fresh : Fresh entry.1 done := Distinct.fresh (whole ▸ canonical.once)
          have first := ((canonical.each entry among).kept faithful bare nested).2 done fresh
          rw [List.foldlM_cons, first, ok_bind]
          exact inductionHypothesis (done ++ [entry]) (by simp [whole])
    exact folded [] entries rfl

theorem canonical_kept (faithful : conv.Faithful) (bare : Bare db opts) (depth : Nat) :
    NestedKept (Canonical conv db opts depth) (encode conv db depth)
      (meaning conv db opts depth) := by
  induction depth with
  | zero => exact ⟨fun _ _ _ never => never.elim, fun _ _ never => never.elim⟩
  | succ depth inductionHypothesis =>
      have kept := CanonicalEntries.kept faithful bare inductionHypothesis
      exact ⟨kept.encodes, kept.keeps⟩

end Entries

/-- A canonical table is encoded, if the buffer holds the bytes, and they are decoded to the same
table. -/
theorem canonical_roundTrip {conv : Conversions} {db : Database} {opts : Options} {slots : Nat}
    {t : Ty} {entries : List Entry} (faithful : conv.Faithful) (bare : Bare db opts)
    (formed : db.WellFormed) (formedType : t.WellFormed db)
    (canonical : Canonical conv db opts (levels slots) t entries) (cmd : Option UInt32) :
    ∃ bytes, encode conv db (levels slots) (some t) entries (cmdBytes cmd) = .ok bytes ∧
      (bytes.length ≤ maxBuffer → encodeMessage conv db slots t cmd entries = .ok bytes ∧
        decodeMessage conv db opts slots t cmd.isSome bytes (some []) = .ok entries) := by
  have kept := canonical_kept faithful bare (levels slots)
  rcases kept.encodes t entries (cmdBytes cmd) canonical with ⟨bytes, written⟩
  refine ⟨bytes, written, fun fits => ?_⟩
  have encoded := encodeMessage_eq_ok.mpr ⟨written, fits⟩
  refine ⟨encoded, ?_⟩
  rw [message_roundTrip opts formed formedType encoded]
  exact kept.keeps t entries canonical

namespace Sample

theorem plain_faithful : plainConversions.Faithful where
  integer _ := rfl
  marked _ := rfl
  string _ := rfl
  number _ := rfl
  border items _ _ := by simp [plainConversions, sequence, sequenceFrom]

theorem database_bare : Bare database options := fun _ => rfl

theorem int32_canonical {inside : Ty → List Entry → Prop} (v : UInt64) :
    CanonicalValue plainConversions database options inside (field "id" 1 .int32) (int32 v) :=
  CanonicalScalar.integer v rfl

theorem boss_canonical : Canonical plainConversions database options 3 person boss where
  once := by unfold Distinct; decide +kernel
  each := by
    intro entry among
    rcases List.mem_singleton.mp among with rfl
    exact .single (f := field "id" 1 .int32) (by decide +kernel) rfl rfl rfl (int32_canonical 1)
      (by decide +kernel)

theorem ann_canonical : Canonical plainConversions database options (levels 19) person ann where
  once := by unfold Distinct; decide +kernel
  each := by
    intro entry among
    simp only [ann, List.mem_cons, List.not_mem_nil, or_false] at among
    rcases among with rfl | rfl | rfl | rfl | rfl
    · exact .single (f := field "id" 1 .int32) (by decide +kernel) rfl rfl rfl (int32_canonical 7)
        (by decide +kernel)
    · exact .single (f := { field "boss" 5 .message with type := some 0 }) (by decide +kernel) rfl
        rfl rfl ⟨person, boss, rfl, rfl, boss_canonical, rfl⟩ (by decide +kernel)
    · have named : person.fname (text "tags") =
          some { field "tags" 4 .string with repeated := true } := by decide +kernel
      change CanonicalEntry _ _ _ _ _ (.string (text "tags"),
        newTable _ (sequence [.string (text "a"), .string (text "b")]))
      refine .list named rfl rfl (.inl nofun) (by decide) fun item among => ?_
      simp only [List.mem_cons, List.not_mem_nil, or_false] at among
      rcases among with rfl | rfl
      · exact CanonicalScalar.string _
      · exact CanonicalScalar.string _
    · have named : person.fname (text "attrs") =
          some { field "attrs" 6 .message with type := some 1, repeated := true } := by
        decide +kernel
      have hasKey : attrsEntry.field 1 = some (field "key" 1 .string) := by decide +kernel
      have hasValue : attrsEntry.field 2 = some (field "value" 2 .int64) := by decide +kernel
      refine .map named rfl rfl hasKey hasValue nofun (by unfold Distinct; decide +kernel) ?_
      intro pair among
      rcases List.mem_singleton.mp among with rfl
      exact ⟨rfl, ⟨CanonicalScalar.string _, fun zero => absurd zero (by decide +kernel)⟩,
        ⟨CanonicalScalar.integer 5 rfl, fun zero => absurd zero (by decide +kernel)⟩⟩
    · have glad : mood.fname (text "GLAD") = some (field "GLAD" 1 .enum) := by decide +kernel
      have one : mood.field 1 = some (field "GLAD" 1 .enum) := by decide +kernel
      exact .single (f := { field "mood" 7 .enum with type := some 2 }) (by decide +kernel) rfl rfl
        rfl (CanonicalEnum.name rfl glad one rfl rfl) (by decide +kernel)

end Sample

theorem canonical_roundTrip_ann :
    ∃ bytes, encode plainConversions Sample.database (levels 19) (some Sample.person) Sample.ann
        (cmdBytes (some 9)) = .ok bytes ∧
      (bytes.length ≤ maxBuffer →
        encodeMessage plainConversions Sample.database 19 Sample.person (some 9) Sample.ann =
          .ok bytes ∧
        decodeMessage plainConversions Sample.database Sample.options 19 Sample.person
          (some (9 : UInt32)).isSome bytes (some []) = .ok Sample.ann) :=
  canonical_roundTrip Sample.plain_faithful Sample.database_bare Sample.database_formed
    Sample.person_formed Sample.ann_canonical (some 9)

end CrossOver.Lua.Pb
