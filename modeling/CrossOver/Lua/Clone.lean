import CrossOver.Lib.Hoare
import CrossOver.Lib.Reachability
import CrossOver.Lib.Result
import CrossOver.Lua.Value
import Mathlib.Data.List.Nodup

/-!
# `clone` of `common.lua`

Here a table is an address, so that two of them can be the same key, be shared and
refer to each other.  A table of the heap is its pairs in the order of `next`, with
its metatable.

`_copy` enters the new table into `lookup_table` before it goes into the pairs of the
old one.  The tables entered and not yet finished are the `pending` ones; all others
that were entered are copies already, up to what is still pending.
-/

namespace CrossOver.Lua.Clone

open CrossOver.Lib

inductive Failure where
  /-- out of fuel -/
  | unfinished
  | indexIsNil
  | indexIsNaN
  | invalidKeyToNext
  | notAMetatable
  | protectedMetatable
  /-- `pairs` would call the metamethod -/
  | pairsMetamethod
  deriving DecidableEq, Repr

inductive Object where
  | nil
  | boolean (value : Bool)
  | integer (value : LuaInteger)
  | number (bits : UInt64)
  | string (bytes : Bytes)
  | lightuserdata (address : UInt64)
  | table (address : Nat)
  /-- functions, full userdata and threads -/
  | other (address : Nat)
  deriving DecidableEq

namespace Object

def normalizeKey : Object → Except Failure Object
  | .nil => .error .indexIsNil
  | .number bits =>
      match floatToInteger bits with
      | some value => .ok (.integer value)
      | none => if isNaN bits then .error .indexIsNaN else .ok (.number bits)
  | key => .ok key

theorem normalizeKey_normalized {key slot : Object} (normal : key.normalizeKey = .ok slot) :
    slot.normalizeKey = .ok slot := by
  cases key with
  | nil => cases normal
  | number bits =>
      simp only [normalizeKey] at normal
      split at normal
      · cases normal
        rfl
      · next noInteger =>
          split at normal
          · cases normal
          · next number =>
              cases normal
              simp only [normalizeKey, noInteger, if_neg number]
  | _ =>
      cases normal
      rfl

def moved (image : Nat → Nat) : Object → Object
  | .table address => .table (image address)
  | object => object

end Object

abbrev Entry := Object × Object

/-- Keys are stored normalised, no two are the same, and no value is nil. -/
structure Table where
  entries : List Entry
  metatable : Option Nat
  distinct : (entries.map Prod.fst).Nodup
  normalized : ∀ entry ∈ entries, entry.1.normalizeKey = .ok entry.1
  present : ∀ entry ∈ entries, entry.2 ≠ .nil

namespace Table

def empty : Table where
  entries := []
  metatable := none
  distinct := .nil
  normalized _ member := by cases member
  present _ member := by cases member

def rawget (table : Table) (key : Object) : Object :=
  ((table.entries.find? fun entry => entry.1 = key).map Prod.snd).getD .nil

def setEntries (entries : List Entry) (slot value : Object) : List Entry :=
  if value = .nil then entries.filter fun entry => entry.1 ≠ slot
  else if slot ∈ entries.map Prod.fst then
    entries.map fun entry => if entry.1 = slot then (slot, value) else entry
  else entries ++ [(slot, value)]

theorem mem_setEntries {entries : List Entry} {slot value : Object} {entry : Entry}
    (member : entry ∈ setEntries entries slot value) :
    entry ∈ entries ∨ value ≠ .nil ∧ entry = (slot, value) := by
  unfold setEntries at member
  split at member
  · exact Or.inl (List.mem_filter.mp member).1
  · next notNil =>
      split at member
      · obtain ⟨old, among, rfl⟩ := List.mem_map.mp member
        by_cases same : old.1 = slot
        · exact Or.inr ⟨notNil, if_pos same⟩
        · rw [if_neg same]
          exact Or.inl among
      · rcases List.mem_append.mp member with old | new
        · exact Or.inl old
        · exact Or.inr ⟨notNil, List.mem_singleton.mp new⟩

theorem setEntries_distinct {entries : List Entry} (slot value : Object)
    (distinct : (entries.map Prod.fst).Nodup) :
    ((setEntries entries slot value).map Prod.fst).Nodup := by
  unfold setEntries
  split
  · exact distinct.sublist (List.filter_sublist.map _)
  · split
    · have keys : (entries.map fun entry => if entry.1 = slot then (slot, value) else entry).map
          Prod.fst = entries.map Prod.fst := by
        rw [List.map_map]
        refine List.map_congr_left fun entry _ => ?_
        change (if entry.1 = slot then (slot, value) else entry).1 = entry.1
        split
        · next same => exact same.symm
        · rfl
      rw [keys]
      exact distinct
    · next absent =>
        rw [List.map_append]
        refine List.nodup_append.mpr ⟨distinct, List.nodup_singleton _, ?_⟩
        intro key among other single same
        rw [same, List.mem_singleton.mp single] at among
        exact absent among

def setSlot (table : Table) (slot value : Object) (normal : slot.normalizeKey = .ok slot) :
    Table where
  entries := setEntries table.entries slot value
  metatable := table.metatable
  distinct := setEntries_distinct slot value table.distinct
  normalized entry member := by
    rcases mem_setEntries member with old | ⟨-, rfl⟩
    · exact table.normalized entry old
    · exact normal
  present entry member := by
    rcases mem_setEntries member with old | ⟨notNil, rfl⟩
    · exact table.present entry old
    · exact notNil

def rawset (table : Table) (key value : Object) : Except Failure Table :=
  match normal : key.normalizeKey with
  | .error failure => .error failure
  | .ok slot => .ok (table.setSlot slot value (Object.normalizeKey_normalized normal))

theorem rawset_new {table : Table} {key value : Object}
    (normal : key.normalizeKey = .ok key) (new : key ∉ table.entries.map Prod.fst)
    (notNil : value ≠ .nil) :
    ∃ stored, table.rawset key value = .ok stored ∧
      stored.entries = table.entries ++ [(key, value)] ∧ stored.metatable = table.metatable := by
  unfold rawset
  split
  · next failure failed =>
      rw [normal] at failed
      cases failed
  · next slot found =>
      cases normal.symm.trans found
      refine ⟨_, rfl, ?_, rfl⟩
      change setEntries table.entries key value = _
      rw [setEntries, if_neg notNil, if_neg new]

/-- `next`, which starts from nil -/
def next (table : Table) : Object → Except Failure (Option Entry)
  | .nil => .ok table.entries.head?
  | key =>
      match table.entries.dropWhile fun entry => entry.1 ≠ key with
      | [] => .error .invalidKeyToNext
      | _ :: behind => .ok behind.head?

end Table

/-- An address that no table has yet reads as an empty table. -/
def tableAt (tables : List Table) (address : Nat) : Table := tables[address]?.getD Table.empty

/-- `lookup_table` of the call, and all other tables. -/
structure State where
  tables : List Table
  lookupTable : List (Nat × Nat)

abbrev Run := Program State Failure

def newTable : Run Nat := do
  let s ← get
  set { s with tables := s.tables ++ [Table.empty] }
  pure s.tables.length

/-- `lookup_table[object] = newObject` -/
def remember (object newObject : Nat) : Run Unit :=
  modify fun s => { s with lookupTable := (object, newObject) :: s.lookupTable }

def writeTable (address : Nat) (table : Table) : Run Unit :=
  modify fun s => { s with tables := s.tables.set address table }

/-- `table[key] = value` for a table without a metatable -/
def rawset (address : Nat) (key value : Object) : Run Unit := do
  let s ← get
  match (tableAt s.tables address).rawset key value with
  | .error failure => throw failure
  | .ok table => writeTable address table

def next (address : Nat) (key : Object) : Run (Option Entry) := do
  let s ← get
  match (tableAt s.tables address).next key with
  | .error failure => throw failure
  | .ok entry => pure entry

/-- `__pairs` -/
def pairsField : Object := .string [95, 95, 112, 97, 105, 114, 115]

/-- `__metatable` -/
def metatableField : Object := .string [95, 95, 109, 101, 116, 97, 116, 97, 98, 108, 101]

def getmetafield (tables : List Table) (address : Nat) (field : Object) : Object :=
  match (tableAt tables address).metatable with
  | none => .nil
  | some metatable => (tableAt tables metatable).rawget field

/-- A table without the metamethod is gone through by `next`. -/
def pairs (address : Nat) : Run Unit := do
  let s ← get
  if getmetafield s.tables address pairsField = .nil then pure () else throw .pairsMetamethod

def getmetatable (address : Nat) : Run Object := do
  let s ← get
  match (tableAt s.tables address).metatable with
  | none => pure .nil
  | some metatable =>
      if getmetafield s.tables address metatableField = .nil then pure (.table metatable)
      else pure (getmetafield s.tables address metatableField)

def Table.withMetatable (table : Table) (metatable : Option Nat) : Table :=
  { table with metatable := metatable }

def setmetatable (address : Nat) (metatable : Object) : Run Unit := do
  let s ← get
  let given ← match metatable with
    | .nil => pure none
    | .table metatable => pure (some metatable)
    | _ => throw .notAMetatable
  if getmetafield s.tables address metatableField = .nil then
    writeTable address ((tableAt s.tables address).withMetatable given)
  else throw .protectedMetatable

mutual

def copy : Nat → Object → Run Object
  | 0, _ => throw .unfinished
  | fuel + 1, .table object => do
      let s ← get
      match s.lookupTable.lookup object with
      | some newObject => pure (.table newObject)
      | none =>
          let newObject ← newTable
          remember object newObject
          pairs object
          copyPairs fuel object newObject .nil
          let metatable ← getmetatable object
          setmetatable newObject metatable
          pure (.table newObject)
  | _ + 1, object => pure object

def copyPairs : Nat → Nat → Nat → Object → Run Unit
  | 0, _, _, _ => throw .unfinished
  | fuel + 1, object, newObject, key => do
      match ← next object key with
      | none => pure ()
      | some entry =>
          let newKey ← copy fuel entry.1
          let newValue ← copy fuel entry.2
          rawset newObject newKey newValue
          copyPairs fuel object newObject entry.1

end

def clone (fuel : Nat) (tables : List Table) (object : Object) :
    Except Failure (Object × List Table) :=
  match copy fuel object ⟨tables, []⟩ with
  | (.ok newObject, s) => .ok (newObject, s.tables)
  | (.error failure, _) => .error failure

section Addresses

variable {tables more : List Table} {table : Table} {a b : Nat}

theorem tableAt_append (inside : a < tables.length) :
    tableAt (tables ++ more) a = tableAt tables a := by
  rw [tableAt, List.getElem?_append_left inside, tableAt]

theorem tableAt_base (part : tables <+: more) (inside : a < tables.length) :
    tableAt more a = tableAt tables a := by
  obtain ⟨rest, rfl⟩ := part
  exact tableAt_append inside

theorem tableAt_new : tableAt (tables ++ [table]) tables.length = table := by
  rw [tableAt, List.getElem?_concat_length, Option.getD_some]

theorem tableAt_set_self (inside : a < tables.length) :
    tableAt (tables.set a table) a = table := by
  rw [tableAt, List.getElem?_set_self inside, Option.getD_some]

theorem tableAt_set_other (differ : a ≠ b) :
    tableAt (tables.set a table) b = tableAt tables b := by
  rw [tableAt, List.getElem?_set_ne differ, tableAt]

end Addresses

/-- An address that the tables have. -/
def Object.Inside (size : Nat) (object : Object) : Prop :=
  ∀ address, object = .table address → address < size

/-- Table `a` has table `b` as a key or a value. -/
def Refers (tables : List Table) (a b : Nat) : Prop :=
  ∃ entry ∈ (tableAt tables a).entries, entry.1 = .table b ∨ entry.2 = .table b

/-- The tables of the graph of `object`. -/
def Reachable (tables : List Table) (object : Object) (a : Nat) : Prop :=
  ∃ root, object = .table root ∧ Relation.ReflTransGen (Refers tables) root a

/-- Every address stands for a table. -/
structure Closed (tables : List Table) : Prop where
  entries : ∀ table ∈ tables, ∀ entry ∈ table.entries,
    entry.1.Inside tables.length ∧ entry.2.Inside tables.length
  metatable : ∀ table ∈ tables, ∀ m ∈ table.metatable, m < tables.length

/-- The metatable of `a`, if any, has neither `__pairs` nor `__metatable`. -/
structure IsPlain (tables : List Table) (a : Nat) : Prop where
  pairs : getmetafield tables a pairsField = .nil
  metatable : getmetafield tables a metatableField = .nil

theorem Reachable.refers {tables : List Table} {object : Object} {a b : Nat}
    (reached : Reachable tables object a) (step : Refers tables a b) :
    Reachable tables object b := by
  obtain ⟨root, isRoot, steps⟩ := reached
  exact ⟨root, isRoot, steps.tail step⟩

theorem tableAt_mem_or (tables : List Table) (a : Nat) :
    tableAt tables a ∈ tables ∨ tableAt tables a = .empty := by
  unfold tableAt
  cases found : tables[a]? with
  | none => exact Or.inr rfl
  | some table => exact Or.inl (List.mem_of_getElem? found)

theorem Closed.refers_lt {tables : List Table} (closed : Closed tables) {a b : Nat}
    (refers : Refers tables a b) : b < tables.length := by
  obtain ⟨entry, member, isTable⟩ := refers
  rcases tableAt_mem_or tables a with among | isEmpty
  · have inside := closed.entries _ among entry member
    rcases isTable with isKey | isValue
    · exact inside.1 b isKey
    · exact inside.2 b isValue
  · rw [isEmpty] at member
    cases member

theorem Closed.metatable_lt {tables : List Table} (closed : Closed tables) {a m : Nat}
    (found : (tableAt tables a).metatable = some m) : m < tables.length := by
  rcases tableAt_mem_or tables a with among | isEmpty
  · exact closed.metatable _ among m found
  · rw [isEmpty] at found
    cases found

theorem Reachable.inside {tables : List Table} {object : Object} {a : Nat}
    (closed : Closed tables) (inside : object.Inside tables.length)
    (reached : Reachable tables object a) : a < tables.length := by
  obtain ⟨root, rfl, steps⟩ := reached
  exact reached_of_closed (· < tables.length) (inside root rfl)
    (fun _ _ _ step => closed.refers_lt step) steps

/-! ## Values and pairs under the table of copies -/

/-- A table that was entered is copied to the new table, all else to itself. -/
inductive Copied (lookupTable : List (Nat × Nat)) : Object → Object → Prop
  | table {a b : Nat} (entered : (a, b) ∈ lookupTable) : Copied lookupTable (.table a) (.table b)
  | same {object : Object} (noTable : ∀ a, object ≠ .table a) : Copied lookupTable object object

def CopiedEntry (lookupTable : List (Nat × Nat)) (entry new : Entry) : Prop :=
  Copied lookupTable entry.1 new.1 ∧ Copied lookupTable entry.2 new.2

section Copied

variable {lookupTable larger : List (Nat × Nat)} {object other copied : Object}
  {entries new : List Entry}

theorem Copied.mono (grown : lookupTable ⊆ larger) (made : Copied lookupTable object copied) :
    Copied larger object copied := by
  cases made with
  | table entered => exact .table (grown entered)
  | same noTable => exact .same noTable

theorem copiedEntries_mono (grown : lookupTable ⊆ larger)
    (made : List.Forall₂ (CopiedEntry lookupTable) entries new) :
    List.Forall₂ (CopiedEntry larger) entries new :=
  made.imp fun _ _ entry => ⟨entry.1.mono grown, entry.2.mono grown⟩

/-- Where no two tables have the same copy, no two values do. -/
theorem Copied.injective (distinct : (lookupTable.map Prod.snd).Nodup)
    (first : Copied lookupTable object copied) (second : Copied lookupTable other copied) :
    object = other := by
  cases first with
  | table entered =>
      cases second with
      | table enteredToo =>
          cases List.inj_on_of_nodup_map distinct entered enteredToo rfl
          rfl
      | same noTable => exact absurd rfl (noTable _)
  | same noTable =>
      cases second with
      | table _ => exact absurd rfl (noTable _)
      | same _ => rfl

theorem Copied.normalized (made : Copied lookupTable object copied)
    (normal : object.normalizeKey = .ok object) : copied.normalizeKey = .ok copied := by
  cases made with
  | table _ => rfl
  | same _ => exact normal

theorem Copied.ne_nil (made : Copied lookupTable object copied) (notNil : object ≠ .nil) :
    copied ≠ .nil := by
  cases made with
  | table _ => exact fun isNil => by cases isNil
  | same _ => exact notNil

theorem copied_key (made : List.Forall₂ (CopiedEntry lookupTable) entries new)
    (among : copied ∈ new.map Prod.fst) :
    ∃ key ∈ entries.map Prod.fst, Copied lookupTable key copied := by
  induction made with
  | nil => cases among
  | cons entry _ inductionHypothesis =>
      rw [List.map_cons, List.mem_cons] at among
      rcases among with rfl | among
      · exact ⟨_, List.mem_cons_self, entry.1⟩
      · obtain ⟨key, old, made⟩ := inductionHypothesis among
        exact ⟨key, List.mem_cons_of_mem _ old, made⟩

end Copied

/-! ## What the run keeps -/

structure IsCopy (base : List Table) (s : State) (a b : Nat) : Prop where
  entries : List.Forall₂ (CopiedEntry s.lookupTable) (tableAt base a).entries
    (tableAt s.tables b).entries
  metatable : (tableAt s.tables b).metatable = (tableAt base a).metatable

structure Running (base : List Table) (object : Object) (pending : List Nat) (s : State) :
    Prop where
  unchanged : base <+: s.tables
  visited : (s.lookupTable.map Prod.fst).Nodup
  copies : (s.lookupTable.map Prod.snd).Nodup
  reached : ∀ pair ∈ s.lookupTable, Reachable base object pair.1
  fresh : ∀ pair ∈ s.lookupTable, base.length ≤ pair.2 ∧ pair.2 < s.tables.length
  finished : ∀ pair ∈ s.lookupTable, pair.2 ∉ pending → IsCopy base s pair.1 pair.2

/-- What a part of the run leaves: it writes to `written` only among the tables there are. -/
structure Grows (written : List Nat) (s t : State) : Prop where
  remembered : s.lookupTable <:+ t.lookupTable
  longer : s.tables.length ≤ t.tables.length
  kept : ∀ b < s.tables.length, b ∉ written → tableAt t.tables b = tableAt s.tables b

theorem Grows.refl (written : List Nat) (s : State) : Grows written s s :=
  ⟨List.suffix_rfl, le_rfl, fun _ _ _ => rfl⟩

theorem Grows.trans {written : List Nat} {s t u : State} (first : Grows written s t)
    (second : Grows written t u) : Grows written s u where
  remembered := first.remembered.trans second.remembered
  longer := first.longer.trans second.longer
  kept b inside outside := by
    rw [second.kept b (by have := first.longer; omega) outside, first.kept b inside outside]

theorem Grows.weaken {s t : State} (grows : Grows [] s t) (written : List Nat) :
    Grows written s t where
  remembered := grows.remembered
  longer := grows.longer
  kept b inside _ := grows.kept b inside List.not_mem_nil

/-- What is written to a new table only leaves those that were there. -/
theorem Grows.fresh {s t : State} (grows : Grows [s.tables.length] s t) : Grows [] s t where
  remembered := grows.remembered
  longer := grows.longer
  kept b inside _ := by
    refine grows.kept b inside fun same => ?_
    rw [List.mem_singleton.mp same] at inside
    exact Nat.lt_irrefl _ inside

theorem grows_write (s : State) (b : Nat) (table : Table) :
    Grows [b] s { s with tables := s.tables.set b table } where
  remembered := List.suffix_rfl
  longer := by rw [List.length_set]
  kept c _ outside := tableAt_set_other fun same => outside (by simp [same])

theorem grows_enter (s : State) (a : Nat) :
    Grows [] s ⟨s.tables ++ [.empty], (a, s.tables.length) :: s.lookupTable⟩ where
  remembered := List.suffix_cons _ _
  longer := by rw [List.length_append]; omega
  kept _ inside _ := tableAt_append inside

section Running

variable {base : List Table} {object : Object} {pending : List Nat} {s : State} {a b : Nat}

theorem IsCopy.mono {t : State} (copy : IsCopy base s a b)
    (grown : s.lookupTable ⊆ t.lookupTable) (same : tableAt t.tables b = tableAt s.tables b) :
    IsCopy base t a b where
  entries := by
    rw [same]
    exact copiedEntries_mono grown copy.entries
  metatable := by rw [same, copy.metatable]

theorem running_start (base : List Table) (object : Object) :
    Running base object [] ⟨base, []⟩ where
  unchanged := List.prefix_rfl
  visited := .nil
  copies := .nil
  reached _ entered := by cases entered
  fresh _ entered := by cases entered
  finished _ entered := by cases entered

/-- A new table is entered as the copy of one that was not entered before. -/
theorem Running.enter (running : Running base object pending s)
    (reached : Reachable base object a) (new : a ∉ s.lookupTable.map Prod.fst) :
    Running base object (s.tables.length :: pending)
      ⟨s.tables ++ [.empty], (a, s.tables.length) :: s.lookupTable⟩ where
  unchanged := running.unchanged.trans (List.prefix_append _ _)
  visited := by
    rw [List.map_cons]
    exact List.nodup_cons.mpr ⟨new, running.visited⟩
  copies := by
    rw [List.map_cons]
    refine List.nodup_cons.mpr ⟨fun old => ?_, running.copies⟩
    obtain ⟨pair, entered, same⟩ := List.mem_map.mp old
    have bound := (running.fresh pair entered).2
    omega
  reached pair entered := by
    rcases List.mem_cons.mp entered with rfl | old
    · exact reached
    · exact running.reached pair old
  fresh pair entered := by
    have larger : base.length ≤ s.tables.length := running.unchanged.length_le
    change _ ∧ _ < (s.tables ++ [Table.empty]).length
    rw [List.length_append, List.length_singleton]
    rcases List.mem_cons.mp entered with rfl | old
    · exact ⟨larger, Nat.lt_succ_self _⟩
    · exact ⟨(running.fresh pair old).1, Nat.lt_succ_of_lt (running.fresh pair old).2⟩
  finished pair entered outside := by
    rcases List.mem_cons.mp entered with rfl | old
    · exact absurd List.mem_cons_self outside
    · have copy := running.finished pair old fun among =>
        outside (List.mem_cons_of_mem _ among)
      exact copy.mono (List.subset_cons_self _ _) (tableAt_append (running.fresh pair old).2)

theorem Running.write (running : Running base object pending s) (isPending : b ∈ pending)
    (outside : base.length ≤ b) (table : Table) :
    Running base object pending { s with tables := s.tables.set b table } where
  unchanged := by
    obtain ⟨rest, same⟩ := running.unchanged
    refine ⟨rest.set (b - base.length) table, ?_⟩
    change _ = s.tables.set b table
    rw [← same, List.set_append_right _ _ outside]
  visited := running.visited
  copies := running.copies
  reached := running.reached
  fresh pair entered := by
    change _ ∧ _ < (s.tables.set b table).length
    rw [List.length_set]
    exact running.fresh pair entered
  finished pair entered notPending := by
    refine (running.finished pair entered notPending).mono (List.Subset.refl _) ?_
    exact tableAt_set_other fun same => notPending (same ▸ isPending)

theorem Running.finish (running : Running base object (b :: pending) s)
    (entered : (a, b) ∈ s.lookupTable) (copy : IsCopy base s a b) :
    Running base object pending s where
  unchanged := running.unchanged
  visited := running.visited
  copies := running.copies
  reached := running.reached
  fresh := running.fresh
  finished pair enteredToo notPending := by
    by_cases same : pair.2 = b
    · have isSame := List.inj_on_of_nodup_map running.copies enteredToo entered same
      rw [isSame]
      exact copy
    · refine running.finished pair enteredToo fun among => ?_
      rcases List.mem_cons.mp among with isB | among
      · exact same isB
      · exact notPending among

end Running

end CrossOver.Lua.Clone
