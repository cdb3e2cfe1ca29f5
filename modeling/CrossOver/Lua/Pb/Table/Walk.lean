import CrossOver.Lua.Pb.Schema
import CrossOver.Lua.Pb.Table.Runs

/-!
# Walks over the hash table

`pb_nextfield` finds its place again by the number of the field that it returned last.  The
walk comes past every field once, and the list of these fields is the one in which a type
of the schema looks for a number.
-/

namespace CrossOver.Lua.Pb

open CrossOver.Lib

namespace Table

variable {Value : Type}

/-- The loop of `pb_nextentry`: the next entry with a key. -/
def nextFrom (hash : List (Slot Value)) : Nat → Nat → Option Nat
  | 0, _ => none
  | left + 1, i =>
      match hash[i]? with
      | none => none
      | some entry => if entry.key ≠ 0 then some i else nextFrom hash left (i + 1)

def nextentry (t : Table Value) (p : Option Nat) : Option Nat :=
  match p with
  | none => if t.hasZero then some 0 else nextFrom t.hash t.size 1
  | some i => nextFrom t.hash t.size (i + 1)

/-- The loop of `pb_nextfield`: the next entry with a value. -/
def nextValue (t : Table Value) : Nat → Option Nat → Option (Option Value)
  | 0, _ => none
  | left + 1, p =>
      match t.nextentry p with
      | none => some none
      | some i => do
          let entry ← t.hash[i]?
          match entry.value with
          | some value => return some value
          | none => nextValue t left (some i)

/-- `pb_nextfield`; `number` is the key of a value. -/
def nextfield (number : Value → Int64) (t : Table Value) (p : Option Value) :
    Option (Option Value) :=
  match p with
  | none => t.nextValue (t.size + 1) none
  | some value => do
      let e ← t.gettable (number value)
      t.nextValue (t.size + 1) e

/-- The values that `pb_nextfield` returns one after the other. -/
def fields (number : Value → Int64) (t : Table Value) : Nat → Option Value → Option (List Value)
  | 0, _ => none
  | left + 1, p => do
      match ← t.nextfield number p with
      | none => return []
      | some value =>
          let rest ← fields number t left (some value)
          return value :: rest

section Walks

variable {t : Table Value} {held : Int64 → Option Value} {i left : Nat}

def valuesFrom (t : Table Value) (i : Nat) : List Value := (t.hash.drop i).filterMap (·.value)

theorem valuesFrom_end (beyond : t.size ≤ i) : t.valuesFrom i = [] := by
  rw [valuesFrom, List.drop_eq_nil_of_le beyond, List.filterMap_nil]

theorem valuesFrom_null {entry : Slot Value} (read : t.hash[i]? = some entry)
    (null : entry.value = none) : t.valuesFrom i = t.valuesFrom (i + 1) := by
  rcases List.getElem?_eq_some_iff.mp read with ⟨inside, rfl⟩
  rw [valuesFrom, List.drop_eq_getElem_cons inside, List.filterMap_cons_none null]
  exact rfl

theorem valuesFrom_value {entry : Slot Value} {value : Value} (read : t.hash[i]? = some entry)
    (there : entry.value = some value) : t.valuesFrom i = value :: t.valuesFrom (i + 1) := by
  rcases List.getElem?_eq_some_iff.mp read with ⟨inside, rfl⟩
  rw [valuesFrom, List.drop_eq_getElem_cons inside, List.filterMap_cons_some there]
  exact rfl

theorem Refines.value_of_key (refines : Refines t held) {entry : Slot Value}
    (read : t.hash[i]? = some entry) (filled : entry.key ≠ 0) :
    ∃ value, entry.value = some value ∧ held entry.key = some value := by
  have stands := (refines.maps entry.key entry.value).mp
    ⟨i, entry_eq_some.mpr ⟨entry, read, rfl, filled, rfl⟩⟩
  rw [stored_of_ne filled] at stands
  rcases Option.map_eq_some_iff.mp stands with ⟨value, found, same⟩
  exact ⟨value, same.symm, found⟩

/-- What `pb_nextfield` returns when the values from a position on are ahead. -/
inductive Ahead (number : Value → Int64) (t : Table Value) (i : Nat) :
    Option (Option Value) → Prop where
  | done : t.valuesFrom i = [] → Ahead number t i (some none)
  | value {j : Nat} {value : Value} : i ≤ j → j < t.size →
      t.gettable (number value) = some (some j) →
      t.valuesFrom i = value :: t.valuesFrom (j + 1) → Ahead number t i (some (some value))

theorem nextFrom_filled (sound : t.Sound) (position : 1 ≤ i) (enough : t.size ≤ i + left) :
    (nextFrom t.hash left i = none ∧ t.valuesFrom i = []) ∨
      ∃ j entry, nextFrom t.hash left i = some j ∧ i ≤ j ∧ t.hash[j]? = some entry ∧
        entry.key ≠ 0 ∧ t.valuesFrom i = t.valuesFrom j := by
  induction left generalizing i with
  | zero => exact .inl ⟨rfl, valuesFrom_end enough⟩
  | succ left inductionHypothesis =>
      rcases Nat.lt_or_ge i t.size with inside | beyond
      · rcases exists_slot inside with ⟨entry, read⟩
        simp only [nextFrom, read]
        by_cases filled : entry.key ≠ 0
        · exact .inr ⟨i, entry, if_pos filled, le_rfl, read, filled, rfl⟩
        · have null := valuesFrom_null read
            (sound.holes i entry read position (not_not.mp filled))
          rw [if_neg filled, null]
          rcases inductionHypothesis (Nat.le_add_left 1 i) (by omega) with
            ended | ⟨j, other, found, above, there, held, same⟩
          · exact .inl ended
          · exact .inr ⟨j, other, found, by omega, there, held, same⟩
      · have missing : t.hash[i]? = none := List.getElem?_eq_none beyond
        simp only [nextFrom, missing]
        exact .inl ⟨trivial, valuesFrom_end beyond⟩

variable {number : Value → Int64}

/-- The walk goes on from an entry. -/
theorem Refines.nextValue (refines : Refines t held) (sound : t.Sound)
    (numbered : ∀ key value, held key = some value → number value = key) (left i : Nat) :
    Ahead number t (i + 1) (t.nextValue (left + 1) (some i)) := by
  rcases nextFrom_filled (i := i + 1) sound (Nat.le_add_left 1 i) (Nat.le_add_left _ _) with
    ⟨ended, empty⟩ | ⟨j, entry, found, above, read, filled, same⟩
  · simp only [Table.nextValue, nextentry, ended]
    exact .done empty
  · rcases refines.value_of_key read filled with ⟨value, there, holds⟩
    simp only [Table.nextValue, nextentry, found, read, there, Option.bind_eq_bind,
      Option.bind_some]
    refine .value above (lt_of_slot read) ?_ ?_
    · rw [numbered entry.key value holds]
      exact sound.gettable_found (entry_eq_some.mpr ⟨entry, read, rfl, filled, rfl⟩)
    · rw [same, valuesFrom_value read there]

theorem Ahead.skip {result : Option (Option Value)} (ahead : Ahead number t (i + 1) result)
    (null : t.valuesFrom i = t.valuesFrom (i + 1)) : Ahead number t i result := by
  cases ahead with
  | done empty => exact .done (null.trans empty)
  | value above inside found same =>
      exact .value (Nat.le_of_succ_le above) inside found (null.trans same)

theorem nextValue_congr {p q : Option Nat} (same : t.nextentry p = t.nextentry q) (left : Nat) :
    t.nextValue (left + 1) p = t.nextValue (left + 1) q := by
  simp only [Table.nextValue, same]

theorem Refines.firstValue (refines : Refines t held) (sound : t.Sound)
    (numbered : ∀ key value, held key = some value → number value = key) :
    Ahead number t 0 (t.nextfield number none) := by
  rcases exists_slot sound.pos with ⟨first, read⟩
  have zero := refines.zero
  rw [zeroValue, read, Option.bind_some] at zero
  cases present : t.hasZero with
  | false =>
      have same : t.nextentry none = t.nextentry (some 0) := by
        simp only [nextentry, present, Bool.false_eq_true, if_false]
      rw [nextfield, nextValue_congr same]
      exact (refines.nextValue sound numbered t.size 0).skip
        (valuesFrom_null read (sound.blank first read present))
  | true =>
      have found := sound.gettable_zero
      rw [present, if_pos rfl] at found
      simp only [nextfield, Table.nextValue, nextentry, present, if_true, read,
        Option.bind_eq_bind, Option.bind_some]
      cases there : first.value with
      | none =>
          rcases Nat.exists_eq_succ_of_ne_zero sound.pos.ne' with ⟨left, size⟩
          rw [size]
          exact (refines.nextValue sound numbered left 0).skip (valuesFrom_null read there)
      | some value =>
          refine .value le_rfl sound.pos ?_ (valuesFrom_value read there)
          rw [numbered 0 value (zero.symm.trans there)]
          exact found

theorem fields_ahead (refines : Refines t held) (sound : t.Sound)
    (numbered : ∀ key value, held key = some value → number value = key) {p : Option Value}
    (ahead : Ahead number t i (t.nextfield number p)) (inside : i ≤ t.size)
    (enough : t.size < i + left) : t.fields number left p = some (t.valuesFrom i) := by
  induction left generalizing i p with
  | zero => exact absurd inside (not_le.mpr enough)
  | succ left inductionHypothesis =>
      generalize next : t.nextfield number p = result at ahead
      cases ahead with
      | done empty =>
          simp only [fields, next, Option.bind_eq_bind, Option.bind_some, empty]
          exact rfl
      | @value j value above below found same =>
          have onward : Ahead number t (j + 1) (t.nextfield number (some value)) := by
            simp only [nextfield, found, Option.bind_eq_bind, Option.bind_some]
            exact refines.nextValue sound numbered t.size j
          have rest := inductionHypothesis onward below (by omega)
          simp only [fields, next, Option.bind_eq_bind, Option.bind_some, rest, same]
          exact rfl

/-- The walk returns the values in the order of the slots. -/
theorem Refines.fields (refines : Refines t held)
    (numbered : ∀ key value, held key = some value → number value = key) :
    t.fields number (t.size + 1) none = some (t.valuesFrom 0) := by
  rcases refines.sound with rfl | sound
  · exact rfl
  · exact fields_ahead refines sound numbered (refines.firstValue sound numbered) (Nat.zero_le _)
      (by omega)

/-- A value stands in a slot if and only if the map has it for the key of the slot. -/
theorem Refines.held_of_slot (refines : Refines t held) (sound : t.Sound) {entry : Slot Value}
    (read : t.hash[i]? = some entry) {value : Value} (there : entry.value = some value) :
    held entry.key = some value := by
  by_cases filled : entry.key = 0
  · rcases Nat.eq_zero_or_pos i with rfl | behind
    · have zero := refines.zero
      rw [zeroValue, read, Option.bind_some, there] at zero
      rw [filled, zero]
    · rw [sound.holes i entry read behind filled] at there
      cases there
  · rcases refines.value_of_key read filled with ⟨other, same, holds⟩
    exact holds.trans (same.symm.trans there)

theorem Refines.mem_valuesFrom (refines : Refines t held)
    (numbered : ∀ key value, held key = some value → number value = key) (value : Value) :
    value ∈ t.valuesFrom 0 ↔ held (number value) = some value := by
  simp only [valuesFrom, List.drop_zero, List.mem_filterMap]
  constructor
  · rintro ⟨entry, among, there⟩
    rcases refines.sound with rfl | sound
    · exact absurd among List.not_mem_nil
    · rcases List.getElem?_of_mem among with ⟨i, read⟩
      have holds := refines.held_of_slot sound read there
      rwa [numbered entry.key value holds]
  · intro holds
    by_cases filled : number value = 0
    · have zero := refines.zero
      rw [← filled, holds] at zero
      rcases Option.bind_eq_some_iff.mp zero with ⟨first, read, there⟩
      exact ⟨first, List.mem_of_getElem? read, there⟩
    · rcases refines.found filled holds with ⟨-, i, entry, -, read, -, there⟩
      exact ⟨entry, List.mem_of_getElem? read, there⟩

/-- No number comes twice. -/
theorem Refines.nodup_valuesFrom (refines : Refines t held)
    (numbered : ∀ key value, held key = some value → number value = key) :
    ((t.valuesFrom 0).map number).Nodup := by
  rcases refines.sound with rfl | sound
  · exact List.nodup_nil
  · have holds (entry : Slot Value) (among : entry ∈ t.hash) (value : Value)
        (there : entry.value = some value) : number value = entry.key := by
      rcases List.getElem?_of_mem among with ⟨i, read⟩
      exact numbered _ _ (refines.held_of_slot sound read there)
    rw [valuesFrom, List.drop_zero, List.Nodup, List.pairwise_map, List.pairwise_filterMap]
    refine List.pairwise_iff_getElem.mpr fun i j first second less value there other also same => ?_
    rw [holds _ (List.getElem_mem first) value there,
      holds _ (List.getElem_mem second) other also] at same
    by_cases filled : (t.hash[j]).key = 0
    · have null := sound.holes j _ (List.getElem?_eq_getElem second) (Nat.lt_of_le_of_lt (Nat.zero_le i) less) filled
      rw [null] at also
      cases also
    · exact (List.pairwise_iff_getElem.mp sound.apart i j first second less) filled same

end Walks

section Fields

variable {number : Value → Int64}

/-- The value of a number in a list in which no number comes twice. -/
theorem find?_number {values : List Value} (nodup : (values.map number).Nodup) {value : Value}
    (among : value ∈ values) :
    values.find? (fun other => number other = number value) = some value := by
  have there : ∃ other ∈ values, decide (number other = number value) = true :=
    ⟨value, among, decide_eq_true rfl⟩
  rcases Option.isSome_iff_exists.mp (List.find?_isSome.mpr there) with ⟨other, found⟩
  have same := List.find?_some found
  rw [decide_eq_true_eq] at same
  rw [found, List.inj_on_of_nodup_map nodup (List.mem_of_find?_eq_some found) among same]

def Numbered (number : Value → Int64) (acts : List (Act Value)) : Prop :=
  ∀ key value, .set key value ∈ acts → number value = key

theorem replay_numbered {acts : List (Act Value)} (numbered : Numbered number acts)
    {held : Int64 → Option Value} (start : ∀ key value, held key = some value → number value = key)
    (dones : List Bool) (key : Int64) (value : Value)
    (holds : replay held acts dones key = some value) : number value = key := by
  induction acts generalizing held dones with
  | nil => exact start key value holds
  | cons act acts inductionHypothesis =>
      cases dones with
      | nil => exact start key value holds
      | cons done dones =>
          refine inductionHypothesis (fun key value among => numbered key value
            (List.mem_cons_of_mem _ among)) ?_ dones holds
          intro other found there
          cases done with
          | false => exact start other found there
          | true =>
              cases act with
              | set key value =>
                  simp only [if_true, Act.apply, Function.update_apply] at there
                  split at there
                  case isTrue same =>
                      cases there
                      rw [same]
                      exact numbered key found List.mem_cons_self
                  case isFalse => exact start other found there
              | erase key =>
                  simp only [if_true, Act.apply, Function.update_apply] at there
                  split at there
                  case isTrue => cases there
                  case isFalse => exact start other found there

theorem Refines.lookup_valuesFrom {t : Table Value} {held : Int64 → Option Value}
    (refines : t.Refines held)
    (kept : ∀ key value, held key = some value → number value = key) (key : Int64) :
    t.lookup key = some ((t.valuesFrom 0).find? fun value => number value = key) := by
  rw [refines.lookup, Option.some.injEq]
  cases there : held key with
  | none =>
      refine (List.find?_eq_none.mpr fun value among same => ?_).symm
      have holds := (refines.mem_valuesFrom kept value).mp among
      rw [of_decide_eq_true same, there] at holds
      cases holds
  | some value =>
      have same := kept key value there
      subst same
      exact (find?_number (refines.nodup_valuesFrom kept)
        ((refines.mem_valuesFrom kept value).mpr there)).symm

theorem run_numbered (room : Nat) {acts : List (Act Value)} (numbered : Numbered number acts) :
    ∃ t dones held, run room inittable acts = some (t, dones) ∧ t.Refines held ∧
      ∀ key value, held key = some value → number value = key := by
  rcases refines_inittable.run room acts with ⟨t, dones, held, ran, refines, off, zero, -, -⟩
  have start (key : Int64) (value : Value) (absurdity : (none : Option Value) = some value) :
      number value = key := by cases absurdity
  refine ⟨t, dones, held, ran, refines, fun key value holds => ?_⟩
  apply replay_numbered numbered start dones key value
  by_cases filled : key = 0
  · subst filled
    rcases zero with lost | same
    · rw [lost] at holds
      cases holds
    · exact same.symm.trans holds
  · exact (off key filled).symm.trans holds

/-- From an empty table, any stores under the values' own numbers and any removals leave a
table whose walk comes past no number twice, and finds for a number what a lookup does. -/
theorem run_fields {room : Nat} {acts : List (Act Value)} (numbered : Numbered number acts) :
    ∃ t dones values, run room inittable acts = some (t, dones) ∧
      t.fields number (t.size + 1) none = some values ∧ (values.map number).Nodup ∧
      ∀ key, t.lookup key = some (values.find? fun value => number value = key) := by
  rcases run_numbered room numbered with ⟨t, dones, held, ran, refines, kept⟩
  exact ⟨t, dones, t.valuesFrom 0, ran, refines.fields kept, refines.nodup_valuesFrom kept,
    refines.lookup_valuesFrom kept⟩

/-- Three fields, the first of which goes. -/
def renumbered : List (Act (Int64 × Nat)) :=
  [.set 0 (0, 1), .set 5 (5, 2), .set 13 (13, 3), .erase 0, .set 5 (5, 4)]

theorem run_fields_renumbered :
    ∃ t dones values, run 16 inittable renumbered = some (t, dones) ∧
      t.fields Prod.fst (t.size + 1) none = some values ∧ (values.map Prod.fst).Nodup ∧
      ∀ key, t.lookup key = some (values.find? fun value => value.1 = key) := by
  apply run_fields
  intro key value among
  simp only [renumbered, List.mem_cons, Act.set.injEq, reduceCtorEq, List.not_mem_nil,
    or_false, false_or] at among
  rcases among with ⟨rfl, rfl⟩ | ⟨rfl, rfl⟩ | ⟨rfl, rfl⟩ | ⟨rfl, rfl⟩ <;> rfl

/-- The fields that the walk lists make a type in which a number leads to what the table has
for it, and to no other field of the type. -/
theorem run_type (room : Nat) {acts : List (Act Field)}
    (numbered : Numbered (fun f => f.number.toInt64) acts) :
    ∃ t dones listed, run room inittable acts = some (t, dones) ∧
      t.fields (fun f => f.number.toInt64) (t.size + 1) none = some listed ∧
      ∀ ty : Ty, ty.fields = listed →
        (∀ number, t.lookup number.toInt64 = some (ty.field number)) ∧
          ∀ f ∈ ty.fields, ty.field f.number = some f := by
  have injective : Function.Injective Int32.toInt64 :=
    Function.LeftInverse.injective Int32.toInt32_toInt64
  rcases run_numbered room numbered with ⟨t, dones, held, ran, refines, kept⟩
  refine ⟨t, dones, t.valuesFrom 0, ran, refines.fields kept, fun ty same => ?_⟩
  have found (number : Int32) : t.lookup number.toInt64 = some (ty.field number) := by
    simp only [refines.lookup_valuesFrom kept, ← same, Ty.field, injective.eq_iff]
  refine ⟨found, fun f member => ?_⟩
  rw [same] at member
  have holds := (refines.mem_valuesFrom kept f).mp member
  have there := found f.number
  rw [refines.lookup, holds] at there
  exact (Option.some.inj there).symm

end Fields

end Table

end CrossOver.Lua.Pb
