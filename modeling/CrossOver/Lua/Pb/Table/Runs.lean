import CrossOver.Lua.Pb.Table.Growth

/-!
# The hash table as a map

Over any sequence of stores and removals the table is a map from the keys that are not zero.
What stands for zero is kept as well, unless the table grows while a slot behind the first
one has no key.
-/

namespace CrossOver.Lua.Pb

open CrossOver.Lib

namespace Table

variable {Value : Type}

/-- What the users of a table do: a store behind `pb_settable`, and what `pb_delfield` does to
an entry. -/
inductive Act (Value : Type) where
  | set (key : Int64) (value : Value)
  | erase (key : Int64)
  deriving DecidableEq, Repr

/-- The entry gets the value. -/
def store (t : Table Value) (i : Nat) (value : Value) : Option (Table Value × Bool) := do
  let entry ← t.hash[i]?
  return (t.put i { entry with value := some value }, true)

/-- The entry loses its key and its value. -/
def drop (t : Table Value) (i : Nat) : Option (Table Value × Bool) := do
  let entry ← t.hash[i]?
  return (t.put i { entry with key := 0, value := none }, true)

/-- One act, and whether it has been done. -/
def step (room : Nat) (t : Table Value) : Act Value → Option (Table Value × Bool)
  | .set key value => do
      let made ← t.settable room key
      match made.2 with
      | none => return (made.1, false)
      | some i => made.1.store i value
  | .erase key => do
      match ← t.gettable key with
      | none => return (t, false)
      | some i => t.drop i

def run (room : Nat) : Table Value → List (Act Value) → Option (Table Value × List Bool)
  | t, [] => some (t, [])
  | t, act :: acts => do
      let stepped ← step room t act
      let rest ← run room stepped.1 acts
      return (rest.1, stepped.2 :: rest.2)

/-- What `pb_fname`, `pb_field` and `pb_type` find. -/
def lookup (t : Table Value) (key : Int64) : Option (Option Value) := do
  match ← t.gettable key with
  | none => return none
  | some i =>
      let entry ← t.hash[i]?
      return entry.value

def Act.apply (act : Act Value) (held : Int64 → Option Value) : Int64 → Option Value :=
  match act with
  | .set key value => Function.update held key (some value)
  | .erase key => Function.update held key none

/-- The map behind the acts that have been done. -/
def replay : (Int64 → Option Value) → List (Act Value) → List Bool → Int64 → Option Value
  | held, act :: acts, done :: dones =>
      replay (if done then act.apply held else held) acts dones
  | held, _, _ => held

/-- The entries of a map, for the keys that are not zero. -/
def stored (held : Int64 → Option Value) (key : Int64) : Option (Option Value) :=
  if key = 0 then none else (held key).map some

/-- The table is a table of the map. -/
structure Refines (t : Table Value) (held : Int64 → Option Value) : Prop where
  sound : t = inittable ∨ t.Sound
  maps : t.scatter.Maps (stored held)
  zero : t.zeroValue = held 0

section Stored

variable {held : Int64 → Option Value} {key : Int64} {value : Option Value}

theorem stored_zero (value : Option Value) :
    stored (Function.update held 0 value) = stored held := by
  funext key
  unfold stored
  split
  case isTrue => exact rfl
  case isFalse filled => rw [Function.update_of_ne filled]

theorem stored_update (filled : key ≠ 0) (value : Option Value) :
    stored (Function.update held key value) =
      Function.update (stored held) key (value.map some) := by
  funext other
  by_cases same : other = key
  · subst same
    rw [stored, if_neg filled, Function.update_self, Function.update_self]
  · rw [Function.update_of_ne same, stored, stored, Function.update_of_ne same]

theorem stored_of_ne (filled : key ≠ 0) : stored held key = (held key).map some := if_neg filled

end Stored

theorem refines_inittable : Refines (inittable : Table Value) fun _ => none where
  sound := .inl rfl
  maps key value := by
    constructor
    · rintro ⟨i, stored⟩
      cases stored
    · intro found
      unfold stored at found
      split at found <;> cases found
  zero := rfl

section Lookup

variable {t : Table Value} {held : Int64 → Option Value} {key : Int64} {value : Option Value}

theorem Refines.found (refines : Refines t held) (filled : key ≠ 0) {v : Value}
    (there : held key = some v) :
    t.Sound ∧ ∃ i entry, t.gettable key = some (some i) ∧ t.hash[i]? = some entry ∧
      entry.key = key ∧ entry.value = some v := by
  have held : stored held key = some (some v) := by
    rw [stored_of_ne filled, there]
    exact rfl
  rcases (refines.maps key (some v)).mpr held with ⟨i, stands⟩
  rcases refines.sound with rfl | sound
  · cases stands
  · rcases entry_eq_some.mp stands with ⟨entry, read, same, -, value⟩
    exact ⟨sound, i, entry, sound.gettable_found stands, read, same, value⟩

theorem Refines.missing (refines : Refines t held) (filled : key ≠ 0)
    (absent : held key = none) : t.scatter.Missing key :=
  refines.maps.missing (by rw [stored_of_ne filled, absent]; rfl)

theorem Refines.gettable_missing (refines : Refines t held) (filled : key ≠ 0)
    (absent : held key = none) : t.gettable key = some none := by
  rcases refines.sound with rfl | sound
  · exact rfl
  · exact sound.gettable_missing filled (refines.missing filled absent)

theorem Sound.gettable_zero (sound : t.Sound) :
    t.gettable 0 = some (if t.hasZero then some 0 else none) := by
  rw [gettable, if_neg sound.pos.ne', if_pos rfl]

theorem Refines.lookup (refines : Refines t held) (key : Int64) :
    t.lookup key = some (held key) := by
  by_cases filled : key = 0
  · subst filled
    rw [← refines.zero]
    rcases refines.sound with rfl | sound
    · exact rfl
    · rcases exists_slot sound.pos with ⟨first, read⟩
      rw [Table.lookup, sound.gettable_zero, zeroValue]
      cases present : t.hasZero with
      | false =>
          rw [read, Option.bind_some, sound.blank first read present]
          exact rfl
      | true =>
          simp only [if_true, Option.bind_eq_bind, Option.bind_some, read]
          exact rfl
  · cases there : held key with
    | none =>
        rw [Table.lookup, refines.gettable_missing filled there]
        exact rfl
    | some v =>
        rcases refines.found filled there with ⟨-, i, entry, found, read, -, value⟩
        simp only [Table.lookup, found, Option.bind_eq_bind, Option.bind_some, read, value]
        exact rfl

end Lookup

section Steps

variable {t later : Table Value} {held : Int64 → Option Value} {key : Int64} {room i : Nat}
  {entry : Slot Value} {value : Value}

/-- What the map is behind a growth. -/
def forgotten (t later : Table Value) (held : Int64 → Option Value) : Int64 → Option Value :=
  if t.size < later.size ∧ t.forgets then Function.update held 0 none else held

/-- A table from which nothing has been taken stays one, and forgets nothing. -/
def Keeps (t later : Table Value) : Prop :=
  t.scatter.Packed t.Claimed → later.scatter.Packed later.Claimed ∧
    (t.size < later.size → t.forgets = false)

/-- At most one more place has been spent, and the table has doubled at most, when none was
left. -/
structure Spends (t later : Table Value) : Prop where
  spent : later.spent.card ≤ t.spent.card + 1
  sizes : later.size = t.size ∨
    (later.size = newSize (t.size * 2) ∧ t.size ≤ t.spent.card + 1)

theorem spends_of_subset (fewer : later.spent ⊆ t.spent) (size : later.size = t.size) :
    Spends t later :=
  ⟨(Finset.card_le_card fewer).trans (Nat.le_succ _), .inl size⟩

theorem Spends.trans_subset {last : Table Value} (spends : Spends t later)
    (fewer : last.spent ⊆ later.spent) (size : last.size = later.size) : Spends t last where
  spent := (Finset.card_le_card fewer).trans spends.spent
  sizes := by
    rw [size]
    exact spends.sizes

theorem Inserted.spends (inserted : Inserted t later key i) : Spends t later :=
  ⟨inserted.spent, inserted.sizes⟩

theorem Effect.keeps {item : Int64 × Option Value}
    (effect : Effect t later (t.scatter.settle i item)) : Keeps t later := by
  intro packed
  rw [effect.scatter, effect.frame.claimed, effect.frame.size]
  exact ⟨packed.settle i item, fun less => absurd less (lt_irrefl _)⟩

theorem Keeps.trans {last : Table Value} (first : Keeps t later) (second : Keeps later last)
    (size : last.size = later.size) : Keeps t last := fun packed =>
  ⟨(second (first packed).1).1, fun grown => (first packed).2 (grown.trans_eq size)⟩

theorem Inserted.keeps (inserted : Inserted t later key i) : Keeps t later := fun packed =>
  ⟨inserted.packed packed, inserted.remembers packed⟩

theorem keeps_of_same (scatter : later.scatter = t.scatter) (lastfree : later.lastfree = t.lastfree)
    (size : later.size = t.size) : Keeps t later := by
  intro packed
  have claimed : later.Claimed = t.Claimed := by
    funext i
    rw [Claimed, Claimed, lastfree, size]
  rw [scatter, claimed, size]
  exact ⟨packed, fun less => absurd less (lt_irrefl _)⟩

/-- A key that is there gets another value. -/
theorem Refines.store_old (refines : Refines t held) (filled : key ≠ 0) {old : Value}
    (there : held key = some old) (value : Value) :
    ∃ i later, t.gettable key = some (some i) ∧ t.store i value = some (later, true) ∧
      later.size = t.size ∧ Keeps t later ∧ Spends t later ∧
        Refines later (Function.update held key (some value)) := by
  rcases refines.found filled there with ⟨sound, i, entry, found, read, same, -⟩
  have nonzero : entry.key ≠ 0 := same.symm ▸ filled
  rcases sound.assign read nonzero (some value) with ⟨sound', effect⟩
  have stands := entry_eq_some.mpr ⟨entry, read, same, filled, rfl⟩
  have taken : t.scatter.entry i ≠ none := by
    rw [stands]
    exact Option.some_ne_none _
  refine ⟨i, _, found, by rw [store, read]; rfl, effect.frame.size, effect.keeps,
    spends_of_subset (effect.spent taken) effect.frame.size, .inr sound', ?_, ?_⟩
  · rw [effect.scatter, same, stored_update filled]
    apply refines.maps.settle
    · exact fun j w other => sound.chains.once _ _ _ _ _ other stands
    · intro l u other
      rw [stands] at other
      cases other
      exact rfl
  · rw [zeroValue, effect.frame.first, Function.update_of_ne filled.symm]
    exact refines.zero

/-- A new entry gets its value. -/
theorem Inserted.store (inserted : Inserted t later key i) (refines : Refines t held)
    (filled : key ≠ 0) (absent : held key = none) (value : Value) :
    ∃ last, later.store i value = some (last, true) ∧ Keeps t last ∧ Spends t last ∧
      Refines last (forgotten t last (Function.update held key (some value))) := by
  rcases entry_eq_some.mp inserted.entry with ⟨entry, read, same, -, -⟩
  have nonzero : entry.key ≠ 0 := same.symm ▸ filled
  rcases inserted.sound.assign read nonzero (some value) with ⟨sound, effect⟩
  have taken : later.scatter.entry i ≠ none := by
    rw [inserted.entry]
    exact Option.some_ne_none _
  refine ⟨_, by rw [Table.store, read]; rfl, inserted.keeps.trans effect.keeps
    effect.frame.size, inserted.spends.trans_subset (effect.spent taken) effect.frame.size, ?_⟩
  have maps : (later.put i { entry with value := some value }).scatter.Maps
      (stored (Function.update held key (some value))) := by
    have new := inserted.maps (stored held) refines.maps (by
      rw [stored_of_ne filled, absent]
      exact rfl)
    have settled := new.settle (v := some value)
      (fun j w other => inserted.sound.chains.once _ _ _ _ _ other inserted.entry)
      fun l u other => by
        rw [inserted.entry] at other
        cases other
        exact rfl
    rw [Function.update_idem] at settled
    rw [effect.scatter, same, stored_update filled]
    exact settled
  have zero : (later.put i { entry with value := some value }).zeroValue = later.zeroValue := by
    rw [zeroValue, effect.frame.first]
    exact rfl
  rw [forgotten, effect.frame.size]
  rcases inserted.zero with ⟨size, kept⟩ | ⟨grown, kept⟩
  · rw [if_neg fun both => absurd size both.1.ne']
    refine ⟨.inr sound, maps, ?_⟩
    rw [zero, kept, Function.update_of_ne filled.symm]
    exact refines.zero
  · cases lost : t.forgets with
    | false =>
        rw [if_neg fun both => Bool.false_ne_true both.2]
        refine ⟨.inr sound, maps, ?_⟩
        rw [zero, kept, lost, Function.update_of_ne filled.symm]
        exact refines.zero
    | true =>
        rw [if_pos ⟨grown, rfl⟩]
        refine ⟨.inr sound, ?_, ?_⟩
        · rwa [stored_zero]
        · rw [zero, kept, lost, Function.update_self]
          exact rfl

theorem forgotten_of_size (size : later.size = t.size) (held : Int64 → Option Value) :
    forgotten t later held = held := if_neg fun both => absurd size both.1.ne'

theorem settable_found (found : t.gettable key = some (some i)) :
    t.settable room key = some (t, some i) := by
  simp only [settable, found, Option.bind_eq_bind, Option.bind_some]
  exact rfl

theorem settable_missing (room : Nat) (missing : t.gettable key = some none) :
    t.settable room key = newkey room 2 t key := by
  simp only [settable, missing, Option.bind_eq_bind, Option.bind_some, if_true]

theorem step_set (made : t.settable room key = some (later, some i)) (value : Value) :
    step room t (.set key value) = later.store i value := by
  simp only [step, made, Option.bind_eq_bind, Option.bind_some]

theorem step_null (made : t.settable room key = some (later, none)) (value : Value) :
    step room t (.set key value) = some (later, false) := by
  simp only [step, made, Option.bind_eq_bind, Option.bind_some]
  exact rfl

/-- What a store does to the map; it is not done when there is no room to grow. -/
def Stores (room : Nat) (t : Table Value) (held : Int64 → Option Value) (key : Int64)
    (value : Value) : Prop :=
  (∃ later, step room t (.set key value) = some (later, true) ∧ Keeps t later ∧
    Spends t later ∧ Refines later (forgotten t later (Function.update held key (some value)))) ∨
    ∃ later, step room t (.set key value) = some (later, false) ∧ Keeps t later ∧
      Refines later held ∧ later.size = t.size ∧ room < newSize (t.size * 2) ∧
      later.spent ⊆ t.spent ∧ t.size ≤ t.spent.card + 1

theorem Inserted.stores (inserted : Inserted t later key i) (refines : Refines t held)
    (filled : key ≠ 0) (absent : held key = none)
    (made : newkey room 2 t key = some (later, some i)) (value : Value) :
    Stores room t held key value := by
  rcases inserted.store refines filled absent value with ⟨last, stored, keeps, spends, refines'⟩
  refine .inl ⟨last, ?_, keeps, spends, refines'⟩
  have missing := settable_missing room (refines.gettable_missing filled absent)
  rw [step_set (missing.trans made), stored]

theorem Refines.set (refines : Refines t held) (filled : key ≠ 0) (value : Value) :
    Stores room t held key value := by
  cases there : held key with
  | some old =>
      rcases refines.store_old filled there value with
        ⟨i, later, found, stored, size, keeps, spends, refines'⟩
      refine .inl ⟨later, ?_, keeps, spends, ?_⟩
      · rw [step_set (settable_found found), stored]
      · rwa [forgotten_of_size size]
  | none =>
      have missing := settable_missing room (refines.gettable_missing filled there)
      rcases refines.sound with rfl | sound
      · by_cases small : room < newSize 0
        · refine .inr ⟨_, step_null (missing.trans (newkey_inittable_of_small small)) value,
            keeps_of_same rfl rfl rfl, refines, rfl, small, Finset.Subset.refl _, Nat.zero_le _⟩
        · rcases place_fresh Value filled with ⟨later, i, made, inserted⟩
          exact inserted.stores refines filled there
            (newkey_inittable small made (Option.some_ne_none i)) value
      · rcases sound.newkey room filled (refines.missing filled there) with
          ⟨later, i, made, inserted⟩ | ⟨left, made, lower, small, fewer, full, packed⟩
        · exact inserted.stores refines filled there made value
        · refine .inr ⟨_, step_null (missing.trans made) value, fun whole => ⟨packed whole, ?_⟩,
            ⟨.inr lower, refines.maps, refines.zero⟩, rfl, small, fewer, full⟩
          exact fun less => absurd less (lt_irrefl _)

theorem Sound.zero_refines (sound : t.Sound) (maps : t.scatter.Maps (stored held))
    {hasZero : Bool} {value : Option Value} (blank : hasZero = false → value = none) :
    Refines ({ t with hasZero := hasZero }.put 0 ⟨0, 0, value⟩)
      (Function.update held 0 value) where
  sound := .inr (sound.first blank).1
  maps := by
    rw [(sound.first blank).2, stored_zero]
    exact maps
  zero := by
    rw [zeroValue, put_read (t := { t with hasZero := hasZero }) sound.pos,
      Function.update_self]
    exact rfl

theorem Sound.store_zero (sound : t.Sound) (value : Value) :
    ({ t with hasZero := true }.put 0 ⟨0, 0, none⟩).store 0 value =
      some ({ t with hasZero := true }.put 0 ⟨0, 0, some value⟩, true) := by
  have there := put_read (t := { t with hasZero := true }) sound.pos ⟨0, 0, none⟩
  have again := put_put { t with hasZero := true } 0 ⟨0, 0, none⟩ ⟨0, 0, some value⟩
  rw [Table.store, there]
  exact congrArg (fun later => some (later, true)) again

theorem present_value (value : Value) : true = false → some value = none := fun equal =>
  Bool.noConfusion equal

theorem Refines.first_zero (refines : Refines (inittable : Table Value) held) (value : Value) :
    Stores room inittable held 0 value := by
  have missing : (inittable : Table Value).settable room 0 = newkey room 2 inittable 0 :=
    settable_missing room rfl
  by_cases small : room < newSize 0
  · exact .inr ⟨_, step_null (missing.trans (newkey_inittable_of_small small)) value,
      keeps_of_same rfl rfl rfl, refines, rfl, small, Finset.Subset.refl _, Nat.zero_le _⟩
  · have sound := fresh_sound (inittable : Table Value) (newSize_large 0)
    have packed := fresh_packed (inittable : Table Value) (newSize 0)
    have same := (sound.first (present_value value)).2
    have made := missing.trans
      (newkey_inittable small sound.place_zero (Option.some_ne_none 0))
    have size : ({ fresh (inittable : Table Value) (newSize 0) with hasZero := true }.put 0
        ⟨0, 0, some value⟩).size = newSize 0 :=
      (put_size _ _ _).trans (fresh_size inittable (newSize 0))
    have size' := size.trans (fresh_size (inittable : Table Value) (newSize 0)).symm
    refine .inl ⟨_, (step_set made value).trans (sound.store_zero value), ?_, ⟨?_, ?_⟩, ?_⟩
    · exact fun _ => ⟨(keeps_of_same same rfl size' packed).1, fun _ => rfl⟩
    · rw [spent_of_same same rfl size', fresh_spent]
      exact Nat.zero_le _
    · exact .inr ⟨size, Nat.zero_le _⟩
    · have kept (later : Table Value) (held : Int64 → Option Value) :
          forgotten inittable later held = held := if_neg fun both => Bool.false_ne_true both.2
      rw [kept]
      refine sound.zero_refines ?_ (present_value value)
      have none' : stored held = stored fun _ => none :=
        refines.maps.unique refines_inittable.maps
      have empty : stored (fun _ => none : Int64 → Option Value) = fun _ => none := by
        funext key
        exact ite_self _
      rw [none', empty]
      exact fresh_maps inittable (newSize 0)

theorem Refines.set_zero (refines : Refines t held) (value : Value) :
    Stores room t held 0 value := by
  rcases refines.sound with rfl | sound
  · exact refines.first_zero value
  · have zero := sound.gettable_zero
    have same := (sound.first (present_value value)).2
    have size : ({ t with hasZero := true }.put 0 ⟨0, 0, some value⟩).size = t.size :=
      put_size _ _ _
    refine .inl ⟨{ t with hasZero := true }.put 0 ⟨0, 0, some value⟩, ?_,
      keeps_of_same same rfl size, spends_of_subset (spent_of_same same rfl size).subset size, ?_⟩
    · cases there : t.hasZero with
      | true =>
          rcases exists_slot sound.pos with ⟨first, found⟩
          have blank : ({ first with value := some value } : Slot Value) = ⟨0, 0, some value⟩ :=
            congrArg₂ (Slot.mk · · (some value)) (sound.zero first found).2
              (sound.zero first found).1
          have whole : { t with hasZero := true } = t := by rw [← there]
          rw [there, if_pos rfl] at zero
          rw [step_set (settable_found zero), store, found, whole]
          exact congrArg (fun last => some (t.put 0 last, true)) blank
      | false =>
          rw [there, if_neg Bool.false_ne_true] at zero
          have made := (settable_missing room zero).trans
            (newkey_of_place room 1 sound.pos.ne' sound.place_zero (Option.some_ne_none 0))
          rw [step_set made, sound.store_zero value]
    · rw [forgotten_of_size size]
      exact sound.zero_refines refines.maps (present_value value)

theorem step_erase (found : t.gettable key = some (some i)) :
    step room t (.erase key) = t.drop i := by
  simp only [step, found, Option.bind_eq_bind, Option.bind_some]

theorem step_absent (missing : t.gettable key = some none) :
    step room t (.erase key) = some (t, false) := by
  simp only [step, missing, Option.bind_eq_bind, Option.bind_some]
  exact rfl

/-- A removal takes the key from the map, if it is there. -/
theorem Refines.erase (refines : Refines t held) (room : Nat) (key : Int64) :
    ∃ later done, step room t (.erase key) = some (later, done) ∧ later.size = t.size ∧
      later.spent ⊆ t.spent ∧
        Refines later (if done then Function.update held key none else held) := by
  by_cases filled : key = 0
  · subst filled
    rcases refines.sound with rfl | sound
    · exact ⟨_, _, step_absent rfl, rfl, Finset.Subset.refl _, refines⟩
    · have zero := sound.gettable_zero
      rcases exists_slot sound.pos with ⟨first, found⟩
      cases present : t.hasZero with
      | true =>
          rw [present, if_pos rfl] at zero
          have refines' : Refines (t.put 0 ⟨0, 0, none⟩) (Function.update held 0 none) :=
            sound.zero_refines refines.maps fun _ => rfl
          have blank : ({ first with key := 0, value := none } : Slot Value) = ⟨0, 0, none⟩ :=
            congrArg (Slot.mk · 0 none) (sound.zero first found).2
          have same : (t.put 0 ⟨0, 0, none⟩).scatter = t.scatter :=
            (sound.first fun _ => rfl).2
          refine ⟨t.put 0 ⟨0, 0, none⟩, true, ?_, put_size _ _ _,
            (spent_of_same same rfl (put_size _ _ _)).subset, refines'⟩
          rw [step_erase zero, drop, found]
          exact congrArg (fun last => some (t.put 0 last, true)) blank
      | false =>
          rw [present, if_neg Bool.false_ne_true] at zero
          exact ⟨t, false, step_absent zero, rfl, Finset.Subset.refl _, refines⟩
  · cases there : held key with
    | none =>
        exact ⟨t, false, step_absent (refines.gettable_missing filled there), rfl,
          Finset.Subset.refl _, refines⟩
    | some old =>
        rcases refines.found filled there with ⟨sound, i, entry, found, read, same, -⟩
        have stands := entry_eq_some.mpr ⟨entry, read, same, filled, rfl⟩
        have effect := sound.effect.put { entry with key := 0, value := none }
          (sound.position read (same.symm ▸ filled)) (lt_of_slot read)
          (sound.linked i entry read) fun _ => rfl
        have links : Function.update t.scatter.next i
            (({ entry with key := 0, value := none } : Slot Value).link i) = t.scatter.next := by
          change Function.update t.scatter.next i (entry.link i) = _
          rw [← next_of_slot read, Function.update_eq_self]
        have item : ({ entry with key := 0, value := none } : Slot Value).item = none :=
          if_pos rfl
        rw [links, item] at effect
        refine ⟨_, true, ?_, effect.frame.size, fun j among => ?_,
          .inr { effect.formed with chains := ?_ }, ?_, ?_⟩
        · rw [step_erase found, drop, read]
          exact rfl
        · rw [mem_spent, effect.frame.size, effect.frame.lastfree, effect.scatter] at among
          exact mem_spent.mpr (among.imp_right (Or.imp_right Scatter.InUse.of_clear))
        · rw [effect.scatter, effect.frame.size, effect.frame.claimed]
          exact sound.chains.clear i
        · rw [effect.scatter, if_pos rfl, stored_update filled]
          exact refines.maps.clear sound.chains stands
        · rw [zeroValue, effect.frame.first, if_pos rfl, Function.update_of_ne (Ne.symm filled)]
          exact refines.zero

/-- What a step of the table does beside the map: without a removal it forgets nothing, and
it takes a place for a store at most. -/
structure Steps (room : Nat) (t later : Table Value) (act : Act Value) (done : Bool) : Prop where
  keeps : (∃ key value, act = .set key value) → Keeps t later
  spends : Spends t later
  spares : (done = false ∨ ∃ key, act = .erase key) → later.spent ⊆ t.spent ∧ later.size = t.size
  refused : done = false → (∃ key value, act = .set key value) →
    room < newSize (t.size * 2) ∧ t.size ≤ t.spent.card + 1

/-- An act has the effect on the map that it has on a map, but for what is forgotten. -/
theorem Refines.step (refines : Refines t held) (room : Nat) (act : Act Value) :
    ∃ later done, step room t act = some (later, done) ∧ Steps room t later act done ∧
      Refines later (forgotten t later (if done then act.apply held else held)) := by
  cases act with
  | erase key =>
      rcases refines.erase room key with ⟨later, done, stepped, size, fewer, refines'⟩
      refine ⟨later, done, stepped, ?_, ?_⟩
      · exact {
          keeps := fun set => by
            rcases set with ⟨key, value, same⟩
            cases same
          spends := spends_of_subset fewer size
          spares := fun _ => ⟨fewer, size⟩
          refused := fun _ set => by
            rcases set with ⟨key, value, same⟩
            cases same }
      · rw [forgotten_of_size size]
        exact refines'
  | set key value =>
      have stores : Stores room t held key value := by
        by_cases filled : key = 0
        · exact filled ▸ refines.set_zero value
        · exact refines.set filled value
      rcases stores with ⟨later, stepped, keeps, spends, refines'⟩ |
        ⟨later, stepped, keeps, refines', size, small, fewer, full⟩
      · refine ⟨later, true, stepped, ?_, refines'⟩
        exact {
          keeps := fun _ => keeps
          spends := spends
          spares := fun other => by
            rcases other with other | ⟨key, other⟩ <;> cases other
          refused := fun other => by cases other }
      · refine ⟨later, false, stepped, ?_, ?_⟩
        · exact {
            keeps := fun _ => keeps
            spends := spends_of_subset fewer size
            spares := fun _ => ⟨fewer, size⟩
            refused := fun _ _ => ⟨small, full⟩ }
        · rwa [forgotten_of_size size]

end Steps

section Bounds

variable {t later : Table Value} {act : Act Value} {done : Bool} {room stores : Nat}

def Act.isSet : Act Value → Bool
  | .set _ _ => true
  | .erase _ => false

theorem Act.exists_of_isSet (set : act.isSet = true) : ∃ key value, act = .set key value := by
  cases act with
  | set key value => exact ⟨key, value, rfl⟩
  | erase key => cases set

theorem Act.exists_of_not_isSet (erase : act.isSet = false) : ∃ key, act = .erase key := by
  cases act with
  | set key value => cases erase
  | erase key => exact ⟨key, rfl⟩

/-- So many stores have spent the places of the table. -/
structure Bounded (t : Table Value) (stores : Nat) : Prop where
  spent : t.spent.card ≤ stores
  size : t.size ≤ max 8 (2 * stores)
  power : t.size = 0 ∨ ∃ exponent, t.size = 8 * 2 ^ exponent

theorem bounded_inittable : Bounded (inittable : Table Value) 0 where
  spent := le_rfl
  size := Nat.zero_le _
  power := .inl rfl

theorem Bounded.growth (bounded : Bounded t stores) (full : t.size ≤ t.spent.card + 1) :
    newSize (t.size * 2) ≤ max 8 (2 * (stores + 1)) ∧
      ∃ exponent, newSize (t.size * 2) = 8 * 2 ^ exponent := by
  have spent := bounded.spent
  rcases bounded.power with empty | ⟨exponent, power⟩
  · rw [empty, Nat.zero_mul]
    exact ⟨le_max_left _ _, 0, rfl⟩
  · have doubled : newSize (t.size * 2) = 8 * 2 ^ (exponent + 1) := by
      rw [power, newSize_pow]
    refine ⟨le_max_of_le_right ?_, exponent + 1, doubled⟩
    rw [doubled, Nat.pow_succ]
    omega

theorem Bounded.step (bounded : Bounded t stores) (steps : Steps room t later act done) :
    Bounded later (if act.isSet && done then stores + 1 else stores) := by
  cases stored : act.isSet && done with
  | true =>
      rw [if_pos rfl]
      have spent := bounded.spent
      have size := bounded.size
      refine ⟨steps.spends.spent.trans (Nat.succ_le_succ spent), ?_, ?_⟩
      · rcases steps.spends.sizes with same | ⟨grown, full⟩
        · rw [same]
          omega
        · exact grown.trans_le (bounded.growth full).1
      · rcases steps.spends.sizes with same | ⟨grown, full⟩
        · exact same.symm ▸ bounded.power
        · exact .inr (grown.symm ▸ (bounded.growth full).2)
  | false =>
      rw [if_neg Bool.false_ne_true]
      have spares : done = false ∨ ∃ key, act = .erase key := by
        rcases Bool.and_eq_false_iff.mp stored with erase | refused
        · exact .inr (Act.exists_of_not_isSet erase)
        · exact .inl refused
      rcases steps.spares spares with ⟨fewer, size⟩
      exact ⟨(Finset.card_le_card fewer).trans bounded.spent, size.symm ▸ bounded.size,
        size.symm ▸ bounded.power⟩

theorem Bounded.isDone (bounded : Bounded t stores) (steps : Steps room t later act done)
    (set : act.isSet = true) (enough : max 8 (2 * (stores + 1)) ≤ room) : done = true := by
  cases finished : done with
  | true => exact rfl
  | false =>
      rcases steps.refused finished (Act.exists_of_isSet set) with ⟨small, full⟩
      exact absurd ((bounded.growth full).1.trans enough) (not_le.mpr small)

end Bounds

section Runs

variable {t : Table Value} {held other : Int64 → Option Value} {key : Int64}

theorem Act.apply_congr (act : Act Value) (same : held key = other key) :
    act.apply held key = act.apply other key := by
  cases act <;> simp only [Act.apply, Function.update_apply, same]

/-- What a map holds for a key depends on that key alone. -/
theorem replay_congr (acts : List (Act Value)) (dones : List Bool)
    (same : held key = other key) :
    replay held acts dones key = replay other acts dones key := by
  induction acts generalizing held other dones with
  | nil => exact same
  | cons act acts inductionHypothesis =>
      cases dones with
      | nil => exact same
      | cons done dones =>
          apply inductionHypothesis
          cases done with
          | false => exact same
          | true => exact act.apply_congr same

theorem Act.apply_fewer (act : Act Value) (empty : held key = none) :
    act.apply held key = none ∨ act.apply held key = act.apply other key := by
  cases act with
  | set =>
      simp only [Act.apply, Function.update_apply]
      split
      case isTrue => exact .inr rfl
      case isFalse => exact .inl empty
  | erase =>
      simp only [Act.apply, Function.update_apply]
      split
      case isTrue => exact .inl rfl
      case isFalse => exact .inl empty

/-- What has been forgotten comes back with a store, or stays away. -/
theorem replay_fewer (acts : List (Act Value)) (dones : List Bool)
    (fewer : held key = none ∨ held key = other key) :
    replay held acts dones key = none ∨ replay held acts dones key = replay other acts dones key := by
  rcases fewer with empty | same
  · induction acts generalizing held other dones with
    | nil => exact .inl empty
    | cons act acts inductionHypothesis =>
        cases dones with
        | nil => exact .inl empty
        | cons done dones =>
            cases done with
            | false => exact inductionHypothesis dones empty
            | true =>
                rcases act.apply_fewer empty with empty | same
                · exact inductionHypothesis dones empty
                · exact .inr (replay_congr acts dones same)
  · exact .inr (replay_congr acts dones same)

theorem run_cons {room : Nat} {act : Act Value} {acts : List (Act Value)}
    {later last : Table Value} {done : Bool} {dones : List Bool}
    (first : step room t act = some (later, done)) (rest : run room later acts = some (last, dones)) :
    run room t (act :: acts) = some (last, done :: dones) := by
  simp only [run, first, rest, Option.bind_eq_bind, Option.bind_some]
  exact rfl

def AllStored (acts : List (Act Value)) (dones : List Bool) : Prop :=
  ∀ entry ∈ acts.zip dones, entry.1.isSet = true → entry.2 = true

/-- Acts come to an end, and leave a table of what they make of the map. -/
theorem Refines.run (refines : Refines t held) (room : Nat) (acts : List (Act Value)) :
    ∃ last dones found, run room t acts = some (last, dones) ∧ Refines last found ∧
      (∀ key, key ≠ 0 → found key = replay held acts dones key) ∧
      (found 0 = none ∨ found 0 = replay held acts dones 0) ∧
      (t.scatter.Packed t.Claimed → (∀ act ∈ acts, act.isSet = true) →
        found = replay held acts dones) ∧
      ∀ stores, Bounded t stores →
        last.size ≤ max 8 (2 * (stores + acts.countP Act.isSet)) ∧
        (max 8 (2 * (stores + acts.countP Act.isSet)) ≤ room → AllStored acts dones) := by
  induction acts generalizing t held with
  | nil =>
      refine ⟨t, [], held, rfl, refines, fun _ _ => rfl, .inr rfl, fun _ _ => rfl,
        fun stores bounded => ?_⟩
      exact ⟨bounded.size, fun _ entry among => absurd among List.not_mem_nil⟩
  | cons act acts inductionHypothesis =>
      rcases refines.step room act with ⟨later, done, stepped, steps, refines'⟩
      rcases inductionHypothesis refines' with ⟨last, dones, found, rest, behind, off, zero, whole, bounds⟩
      refine ⟨last, done :: dones, found, run_cons stepped rest, behind, fun key filled => ?_, ?_,
        fun packed sets => ?_, fun stores bounded => ?_⟩
      · rw [off key filled, replay]
        apply replay_congr
        unfold forgotten
        split
        · exact Function.update_of_ne filled _ _
        · exact rfl
      · rcases zero with lost | same
        · exact .inl lost
        · rw [same, replay]
          apply replay_fewer
          unfold forgotten
          split
          · exact .inl (Function.update_self _ _ _)
          · exact .inr rfl
      · rcases steps.keeps (Act.exists_of_isSet (sets act List.mem_cons_self)) packed with
          ⟨packed', remembers⟩
        have kept (held : Int64 → Option Value) : forgotten t later held = held := by
          refine if_neg fun both => ?_
          rw [remembers both.1] at both
          exact Bool.false_ne_true both.2
        rw [kept] at whole
        exact whole packed' fun other among => sets other (List.mem_cons_of_mem _ among)
      · have fewer : (if act.isSet && done then stores + 1 else stores) +
            acts.countP Act.isSet ≤ stores + (act :: acts).countP Act.isSet := by
          rw [List.countP_cons]
          split
          case isTrue both =>
              rw [if_pos ((Bool.and_eq_true _ _).mp both).1]
              omega
          case isFalse => exact Nat.add_le_add_left (Nat.le_add_right _ _) _
        rcases bounds _ (bounded.step steps) with ⟨size, stored⟩
        have within : max 8 (2 * ((if act.isSet && done then stores + 1 else stores) +
            acts.countP Act.isSet)) ≤ max 8 (2 * (stores + (act :: acts).countP Act.isSet)) :=
          max_le_max le_rfl (Nat.mul_le_mul_left 2 fewer)
        refine ⟨size.trans within, fun enough entry among set => ?_⟩
        rcases List.mem_cons.mp among with rfl | among
        · refine bounded.isDone steps set (le_trans (max_le_max le_rfl ?_) enough)
          rw [List.countP_cons, if_pos set]
          omega
        · exact stored (within.trans enough) entry among set

theorem packed_inittable :
    (inittable : Table Value).scatter.Packed (inittable : Table Value).Claimed where
  ends _ _ := rfl
  full _ claimed := absurd claimed.2 (Nat.not_lt_zero _)

/-- From an empty table, any acts leave a table in which a key that is not zero has the value
of the map.  Zero has it as well, or none, and has it when nothing is removed.  The table
takes two entries for a store, or eight, and with room for them every store is done. -/
theorem run_lookup (room : Nat) (acts : List (Act Value)) :
    ∃ t dones, run room inittable acts = some (t, dones) ∧
      (∀ key, key ≠ 0 → t.lookup key = some (replay (fun _ => none) acts dones key)) ∧
      (t.lookup 0 = some none ∨ t.lookup 0 = some (replay (fun _ => none) acts dones 0)) ∧
      ((∀ act ∈ acts, act.isSet = true) →
        t.lookup 0 = some (replay (fun _ => none) acts dones 0)) ∧
      t.size ≤ max 8 (2 * acts.countP Act.isSet) ∧
      (max 8 (2 * acts.countP Act.isSet) ≤ room → AllStored acts dones) := by
  rcases refines_inittable.run room acts with
    ⟨t, dones, found, ran, refines, off, zero, whole, bounds⟩
  have bounds := bounds 0 bounded_inittable
  rw [Nat.zero_add] at bounds
  refine ⟨t, dones, ran, fun key filled => ?_, ?_, fun sets => ?_, bounds⟩
  · rw [refines.lookup, off key filled]
  · rw [refines.lookup]
    exact zero.imp (congrArg some) (congrArg some)
  · rw [refines.lookup, whole packed_inittable sets]

/-- Zero loses its value over a store for another key if and only if the table grows and a
slot behind the first one has no key. -/
theorem zero_kept_iff {room : Nat} {acts : List (Act Value)} {t : Table Value}
    {dones : List Bool} (ran : run room inittable acts = some (t, dones)) {key : Int64}
    (filled : key ≠ 0) (value : Value) {old : Value} (there : t.lookup 0 = some (some old)) :
    ∃ later done, step room t (.set key value) = some (later, done) ∧
      (later.lookup 0 = some (some old) ↔ ¬ (t.size < later.size ∧ t.forgets = true)) := by
  rcases refines_inittable.run room acts with ⟨last, _, found, ran', refines, -, -, -, -⟩
  rw [ran] at ran'
  cases ran'
  rcases refines.step room (.set key value) with ⟨later, done, stepped, -, refines'⟩
  have held : found 0 = some old := by
    rw [refines.lookup] at there
    exact Option.some.inj there
  have kept : (if done then (Act.set key value).apply found else found) 0 = some old := by
    cases done with
    | false => exact held
    | true => exact (Function.update_of_ne filled.symm _ _).trans held
  refine ⟨later, done, stepped, ?_⟩
  rw [refines'.lookup, Option.some.injEq]
  unfold forgotten
  split
  case isTrue lost =>
      rw [Function.update_self]
      exact iff_of_false (Option.some_ne_none old).symm (not_not.mpr lost)
  case isFalse remembered => exact iff_of_true kept remembered

def holed : List (Act Nat) :=
  [.set 0 7, .set 1 1, .set 9 2, .set 17 3, .set 25 4, .set 33 5, .set 41 6, .set 49 8, .erase 9]

theorem zero_kept_iff_holed :
    ∃ t dones, run 16 inittable holed = some (t, dones) ∧
      ∃ later done, step 16 t (.set 57 0) = some (later, done) ∧
        (later.lookup 0 = some (some 7) ↔ ¬ (t.size < later.size ∧ t.forgets = true)) := by
  rcases refines_inittable.run 16 holed with ⟨t, dones, -, ran, -⟩
  have found : (run 16 inittable holed).bind (fun result => result.1.lookup 0) =
      some (some 7) := by decide +kernel
  rw [ran, Option.bind_some] at found
  exact ⟨t, dones, ran, zero_kept_iff ran (by decide) 0 found⟩

end Runs

end Table

end CrossOver.Lua.Pb
