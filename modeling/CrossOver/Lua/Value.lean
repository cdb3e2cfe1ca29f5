import CrossOver.Lib.Bytes

/-!
# Lua 5.3 values and raw table access

A table is its entries in the order of `lua_next`, together with what
`lua_rawlen` returns for it, which the entries alone do not determine, and the
pairs its `__pairs` metamethod yields when it has one.  Floats are bit patterns.

Tables reached by `lua_rawset` here are fresh, so two of them are never the
same key.
-/

namespace CrossOver.Lua

open CrossOver.Lib

/-- `lua_Integer` -/
structure LuaInteger where
  value : Int
  lower : -2 ^ 63 ≤ value
  upper : value < 2 ^ 63
  deriving DecidableEq, Repr

theorem LuaInteger.ext {a b : LuaInteger} (values : a.value = b.value) : a = b := by
  cases a
  cases b
  simpa using values

def LuaInteger.ofInt (value : Int) : LuaInteger where
  value := value.bmod (2 ^ 64)
  lower := by
    have bound := Int.le_bmod (x := value) (m := 2 ^ 64) (by decide)
    omega
  upper := by
    have bound := Int.bmod_lt (x := value) (m := 2 ^ 64) (by decide)
    omega

theorem LuaInteger.ofInt_value (v : LuaInteger) : LuaInteger.ofInt v.value = v := by
  have lower := v.lower
  have upper := v.upper
  apply LuaInteger.ext
  change v.value.bmod (2 ^ 64) = v.value
  simp only [Int.bmod]
  split <;> omega

theorem ofInt_value_of_bounds (index : Int) (lower : -2 ^ 63 ≤ index) (upper : index < 2 ^ 63) :
    (LuaInteger.ofInt index).value = index :=
  congrArg LuaInteger.value (LuaInteger.ofInt_value ⟨index, lower, upper⟩)

theorem ofInt_inj_of_bounds {left right : Int} (same : LuaInteger.ofInt left = .ofInt right)
    (lower : -2 ^ 63 ≤ left) (upper : left < 2 ^ 63) (lower' : -2 ^ 63 ≤ right)
    (upper' : right < 2 ^ 63) : left = right := by
  rw [← ofInt_value_of_bounds left lower upper, same, ofInt_value_of_bounds right lower' upper']

inductive LuaValue where
  | nil
  | boolean (value : Bool)
  | integer (value : LuaInteger)
  | number (bits : UInt64)
  | string (bytes : Bytes)
  | lightuserdata (address : UInt64)
  | table (metapairs : Option (List (LuaValue × LuaValue))) (border : Nat)
      (entries : List (LuaValue × LuaValue))
  /-- functions, full userdata and threads -/
  | unsupported (typename : String)

abbrev Entry := LuaValue × LuaValue

/-- The double is not a number. -/
def isNaN (bits : UInt64) : Bool :=
  bits.toNat / 2 ^ 52 % 2 ^ 11 == 2047 && bits.toNat % 2 ^ 52 != 0

def floatToInteger (bits : UInt64) : Option LuaInteger :=
  let negative := bits.toNat / 2 ^ 63 == 1
  let exponent := bits.toNat / 2 ^ 52 % 2 ^ 11
  let mantissa := bits.toNat % 2 ^ 52
  let magnitude : Option Nat :=
    if exponent = 0 then if mantissa = 0 then some 0 else none
    else if exponent < 1023 then none
    else if exponent < 1075 then
      if (mantissa + 2 ^ 52) % 2 ^ (1075 - exponent) = 0 then
        some ((mantissa + 2 ^ 52) / 2 ^ (1075 - exponent))
      else none
    else if exponent ≤ 1086 then some ((mantissa + 2 ^ 52) * 2 ^ (exponent - 1075))
    else none
  match magnitude with
  | none => none
  | some size =>
      let value : Int := if negative then -(size : Int) else size
      if value < -2 ^ 63 ∨ 2 ^ 63 ≤ value then none else some (LuaInteger.ofInt value)

namespace LuaValue

def isNil : LuaValue → Bool
  | .nil => true
  | _ => false

def rawEqual : LuaValue → LuaValue → Bool
  | .boolean a, .boolean b => a == b
  | .integer a, .integer b => a == b
  | .number a, .number b => a == b
  | .string a, .string b => a == b
  | .lightuserdata a, .lightuserdata b => a == b
  | _, _ => false

def normalizeKey : LuaValue → Except String LuaValue
  | .nil => .error "table index is nil"
  | .number bits =>
      match floatToInteger bits with
      | some value => .ok (.integer value)
      | none => if isNaN bits then .error "table index is NaN" else .ok (.number bits)
  | key => .ok key

end LuaValue

open LuaValue

def rawgeti : List Entry → Int → LuaValue
  | [], _ => .nil
  | (.integer key, value) :: rest, index =>
      if key.value = index then value else rawgeti rest index
  | _ :: rest, index => rawgeti rest index

def setSlot (entries : List Entry) (key value : LuaValue) : List Entry :=
  if value.isNil then entries.filter fun entry => !rawEqual key entry.1
  else if entries.any fun entry => rawEqual key entry.1 then
    entries.map fun entry => if rawEqual key entry.1 then (key, value) else entry
  else entries ++ [(key, value)]

def rawset (entries : List Entry) (key value : LuaValue) : Except String (List Entry) :=
  match key.normalizeKey with
  | .error message => .error message
  | .ok slot => .ok (setSlot entries slot value)

theorem setSlot_nil_of_new {entries : List Entry} {key : LuaValue}
    (new : ∀ entry ∈ entries, rawEqual key entry.1 = false) :
    setSlot entries key .nil = entries := by
  simp only [setSlot, isNil, if_true]
  apply List.filter_eq_self.mpr
  intro entry membership
  rw [new entry membership]
  rfl

theorem setSlot_of_new {entries : List Entry} {key value : LuaValue}
    (new : ∀ entry ∈ entries, rawEqual key entry.1 = false) (notNil : value.isNil = false) :
    setSlot entries key value = entries ++ [(key, value)] := by
  have absent : (entries.any fun entry => rawEqual key entry.1) = false := by
    rw [List.any_eq_false]
    intro entry membership
    rw [new entry membership]
    exact Bool.false_ne_true
  simp only [setSlot, notNil, absent, Bool.false_eq_true, if_false]

theorem rawset_ok {entries stored : List Entry} {key value : LuaValue}
    (success : rawset entries key value = .ok stored) :
    ∃ slot, key.normalizeKey = .ok slot ∧ stored = setSlot entries slot value := by
  unfold rawset at success
  cases normal : key.normalizeKey with
  | error message =>
      rw [normal] at success
      cases success
  | ok slot =>
      rw [normal] at success
      cases success
      exact ⟨slot, rfl, rfl⟩

theorem normalizeKey_ok {key slot : LuaValue} (normal : key.normalizeKey = .ok slot) :
    slot = key ∨ ∃ bits i, key = .number bits ∧ slot = .integer i := by
  unfold normalizeKey at normal
  split at normal
  · cases normal
  · split at normal
    · cases normal
      exact Or.inr ⟨_, _, rfl, rfl⟩
    · split at normal
      · cases normal
      · cases normal
        exact Or.inl rfl
  · cases normal
    exact Or.inl rfl

theorem rawEqual_eq {key other : LuaValue} (same : rawEqual key other = true) : key = other := by
  cases key <;> cases other <;> simp_all [rawEqual]

theorem mem_setSlot {entries : List Entry} {key value : LuaValue} {entry : Entry} :
    entry ∈ setSlot entries key value ↔
      entry ∈ entries ∧ rawEqual key entry.1 = false ∨
        value.isNil = false ∧ entry = (key, value) := by
  unfold setSlot
  cases isNil : value.isNil with
  | true => simp
  | false =>
      rw [if_neg Bool.false_ne_true]
      by_cases present : entries.any (fun entry => rawEqual key entry.1) = true
      · rw [if_pos present, List.mem_map]
        constructor
        · rintro ⟨old, among, rfl⟩
          by_cases same : rawEqual key old.1 = true
          · exact Or.inr ⟨rfl, if_pos same⟩
          · rw [if_neg same]
            exact Or.inl ⟨among, eq_false_of_ne_true same⟩
        · rintro (⟨among, other⟩ | ⟨-, rfl⟩)
          · exact ⟨entry, among, by rw [other]; rfl⟩
          · obtain ⟨old, among, same⟩ := List.any_eq_true.mp present
            exact ⟨old, among, if_pos same⟩
      · rw [if_neg present, List.mem_append, List.mem_singleton]
        have absent : ∀ old ∈ entries, rawEqual key old.1 = false := fun old among =>
          eq_false_of_ne_true fun same => present (List.any_eq_true.mpr ⟨old, among, same⟩)
        constructor
        · rintro (among | rfl)
          · exact Or.inl ⟨among, absent entry among⟩
          · exact Or.inr ⟨rfl, rfl⟩
        · rintro (⟨among, -⟩ | ⟨-, rfl⟩)
          · exact Or.inl among
          · exact Or.inr rfl

def IsKey (key : LuaValue) : Prop :=
  key.isNil = false ∧ key.normalizeKey = .ok key

/-- What holds of every table Lua can build, for the value and all inside it:
keys are normalised and pairwise different, and no stored value is nil.  Strings
are shorter than `2 ^ 31` bytes and no table has a `__pairs` metamethod. -/
inductive WellFormed : LuaValue → Prop where
  | nil : WellFormed .nil
  | boolean (value : Bool) : WellFormed (.boolean value)
  | integer (value : LuaInteger) : WellFormed (.integer value)
  | number (bits : UInt64) : WellFormed (.number bits)
  | string (bytes : Bytes) : bytes.length < 2 ^ 31 → WellFormed (.string bytes)
  | lightuserdata (address : UInt64) : WellFormed (.lightuserdata address)
  | table (border : Nat) (entries : List Entry) :
      (∀ entry ∈ entries, WellFormed entry.1) →
      (∀ entry ∈ entries, WellFormed entry.2) →
      (∀ entry ∈ entries, IsKey entry.1) →
      (∀ entry ∈ entries, entry.2.isNil = false) →
      entries.Pairwise (fun first second => rawEqual first.1 second.1 = false) →
      WellFormed (.table none border entries)

mutual

/-- Equal as values, and tables have the same pairs in some order. -/
inductive Same : LuaValue → LuaValue → Prop where
  | nil : Same .nil .nil
  | boolean (value : Bool) : Same (.boolean value) (.boolean value)
  | integer (value : LuaInteger) : Same (.integer value) (.integer value)
  | number (bits : UInt64) : Same (.number bits) (.number bits)
  | string (bytes : Bytes) : Same (.string bytes) (.string bytes)
  | lightuserdata (address : UInt64) : Same (.lightuserdata address) (.lightuserdata address)
  | table {border border' : Nat} {entries reordered entries' : List Entry} :
      entries.Perm reordered → SameEntries reordered entries' →
      Same (.table none border entries) (.table none border' entries')

inductive SameEntries : List Entry → List Entry → Prop where
  | nil : SameEntries [] []
  | cons {key key' value value' : LuaValue} {rest rest' : List Entry} :
      Same key key' → Same value value' → SameEntries rest rest' →
      SameEntries ((key, value) :: rest) ((key', value') :: rest')

end

theorem SameEntries.append {entries entries' more more' : List Entry}
    (front : SameEntries entries entries') (back : SameEntries more more') :
    SameEntries (entries ++ more) (entries' ++ more') := by
  induction entries generalizing entries' with
  | nil =>
      cases front
      exact back
  | cons entry rest inductionHypothesis =>
      cases front with
      | cons keys values tail => exact .cons keys values (inductionHypothesis tail)

theorem SameEntries.refl (entries : List Entry) (keys : ∀ entry ∈ entries, Same entry.1 entry.1)
    (values : ∀ entry ∈ entries, Same entry.2 entry.2) : SameEntries entries entries := by
  induction entries with
  | nil => exact .nil
  | cons entry rest inductionHypothesis =>
      exact .cons (keys entry List.mem_cons_self) (values entry List.mem_cons_self)
        (inductionHypothesis
          (fun other membership => keys other (List.mem_cons_of_mem _ membership))
          (fun other membership => values other (List.mem_cons_of_mem _ membership)))

theorem SameEntries.partner {entries entries' : List Entry} (same : SameEntries entries entries')
    {entry : Entry} (membership : entry ∈ entries) :
    ∃ entry' ∈ entries', Same entry.1 entry'.1 ∧ Same entry.2 entry'.2 := by
  induction entries generalizing entries' with
  | nil => cases membership
  | cons first rest inductionHypothesis =>
      cases same with
      | cons keys values others =>
          rcases List.mem_cons.mp membership with rfl | later
          · exact ⟨_, List.mem_cons_self, keys, values⟩
          · obtain ⟨entry', found, both⟩ := inductionHypothesis others later
            exact ⟨entry', List.mem_cons_of_mem _ found, both⟩

theorem SameEntries.length_eq {entries entries' : List Entry}
    (same : SameEntries entries entries') : entries.length = entries'.length := by
  induction entries generalizing entries' with
  | nil =>
      cases same
      rfl
  | cons first rest inductionHypothesis =>
      cases same with
      | cons keys values others =>
          rw [List.length_cons, List.length_cons, inductionHypothesis others]

theorem Same.partner {border border' : Nat} {entries entries' : List Entry}
    (same : Same (.table none border entries) (.table none border' entries')) {entry : Entry}
    (membership : entry ∈ entries) :
    ∃ entry' ∈ entries', Same entry.1 entry'.1 ∧ Same entry.2 entry'.2 := by
  cases same with
  | table order others => exact others.partner (order.mem_iff.mp membership)

theorem Same.length_eq {border border' : Nat} {entries entries' : List Entry}
    (same : Same (.table none border entries) (.table none border' entries')) :
    entries.length = entries'.length := by
  cases same with
  | table order others => rw [order.length_eq, others.length_eq]

/-- Only a table can be the same as a different value. -/
theorem Same.rawEqual_left {key key' other : LuaValue} (same : Same key key') :
    rawEqual other key' = rawEqual other key := by
  cases same with
  | table order entries => cases other <;> rfl
  | _ => rfl

theorem Same.rawEqual_right {key key' other : LuaValue} (same : Same key key') :
    rawEqual key' other = rawEqual key other := by
  cases same with
  | table order entries => rfl
  | _ => rfl

theorem Same.isKey {key key' : LuaValue} (same : Same key key') (isKey : IsKey key) :
    IsKey key' := by
  cases same with
  | table order entries => exact ⟨rfl, rfl⟩
  | _ => exact isKey

theorem Same.isNil_eq {value value' : LuaValue} (same : Same value value') :
    value'.isNil = value.isNil := by
  cases same <;> rfl

end CrossOver.Lua
