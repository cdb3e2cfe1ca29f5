import Mathlib.Data.List.AList

/-!
# `hotfix_table`

The script takes a module's entry out of `package.loaded`, requires the module
again, copies the pairs of the new table into the old one and puts the old table
back.  Nothing puts the entry back when the module does not load, and nothing
removes a key that the new version no longer has.

A table is its pairs in the order in which `next` goes through them; assignment
and traversal are the raw ones.  `nil` is `none`.
-/

namespace CrossOver.Lua.Hotfix

variable {Key Datum : Type}

/-- A value other than `nil`; a table is its place in the heap. -/
inductive Value (Datum : Type)
  | boolean (value : Bool)
  | table (ref : Nat)
  | other (datum : Datum)
  deriving DecidableEq, Repr

abbrev Table (Key Datum : Type) := AList fun _ : Key => Value Datum

/-- `package.loaded[module_name]` and all tables. -/
structure State (Key Datum : Type) where
  loaded : Option (Value Datum)
  tables : List (Table Key Datum)

inductive Failure
  | load
  | run
  | notIterable
  | notIndexable
  deriving DecidableEq, Repr

/-- What a module leaves somewhere: a value that is there already, or a new table. -/
inductive Left (Key Datum : Type)
  | value (value : Option (Value Datum))
  | newTable (content : Table Key Datum)

/-- How requiring the module again goes.  `assigned` is what its code puts into
`package.loaded[module_name]` by itself, and `result` is what it returns. -/
inductive Reload (Key Datum : Type)
  | loadError
  | runError (assigned : Left Key Datum)
  | ran (assigned result : Left Key Datum)

namespace State

def put (s : State Key Datum) : Left Key Datum → State Key Datum
  | .value value => { s with loaded := value }
  | .newTable content =>
      { loaded := some (.table s.tables.length), tables := s.tables ++ [content] }

/-- A result of `nil` leaves the entry that the module made; no entry at all becomes `true`. -/
def putResult (s : State Key Datum) (result : Left Key Datum) : State Key Datum :=
  let returned := match result with
    | .value none => s
    | _ => s.put result
  if returned.loaded.isNone then { returned with loaded := some (.boolean true) } else returned

/-- The table in `package.loaded[module_name]`. -/
def loadedTable (s : State Key Datum) : Option (Table Key Datum) :=
  match s.loaded with
  | some (.table ref) => s.tables[ref]?
  | _ => none

end State

section Entry

variable {s : State Key Datum} {oldRef : Nat} {oldModule : Table Key Datum}

theorem put_keeps (present : s.tables[oldRef]? = some oldModule) (left : Left Key Datum) :
    (s.put left).tables[oldRef]? = some oldModule := by
  cases left with
  | value value => exact present
  | newTable content =>
      have inside := (List.getElem?_eq_some_iff.mp present).1
      exact (List.getElem?_append_left inside).trans present

theorem putResult_keeps (present : s.tables[oldRef]? = some oldModule)
    (result : Left Key Datum) : (s.putResult result).tables[oldRef]? = some oldModule := by
  unfold State.putResult
  dsimp only
  split <;> split <;> first
    | exact present
    | exact put_keeps present _

/-- A new table is not the old one. -/
theorem put_loaded_iff (present : s.tables[oldRef]? = some oldModule) (left : Left Key Datum) :
    (s.put left).loaded = some (.table oldRef) ↔ left = .value (some (.table oldRef)) := by
  cases left with
  | value value =>
      constructor
      · intro same
        exact congrArg Left.value same
      · intro same
        cases same
        rfl
  | newTable content =>
      have inside := (List.getElem?_eq_some_iff.mp present).1
      refine iff_of_false ?_ fun same => by cases same
      intro same
      cases same
      omega

theorem loadedTable_eq (loaded : s.loaded = some (.table oldRef)) :
    s.loadedTable = s.tables[oldRef]? := by
  rw [State.loadedTable, loaded]

end Entry

def truthy : Option (Value Datum) → Bool
  | none => false
  | some (.boolean value) => value
  | some _ => true

def require (reload : Reload Key Datum) (s : State Key Datum) :
    Except Failure Unit × State Key Datum :=
  if truthy s.loaded then (.ok (), s)
  else
    match reload with
    | .loadError => (.error .load, s)
    | .runError assigned => (.error .run, s.put assigned)
    | .ran assigned result => (.ok (), (s.put assigned).putResult result)

variable [DecidableEq Key]

/-- The loop over `pairs(new_module)`, which assigns to `old_module`. -/
def copyPairs (oldModule : Option (Value Datum)) :
    List (Sigma fun _ : Key => Value Datum) → State Key Datum →
      Except Failure Unit × State Key Datum
  | [], s => (.ok (), s)
  | entry :: rest, s =>
      match oldModule with
      | some (.table ref) =>
          copyPairs oldModule rest
            { s with tables := s.tables.modify ref fun table => table.insert entry.1 entry.2 }
      | _ => (.error .notIndexable, s)

def hotfixTable (reload : Reload Key Datum) (s : State Key Datum) :
    Except Failure (Option (Value Datum)) × State Key Datum :=
  if truthy s.loaded then
    let oldModule := s.loaded
    let required := require reload { s with loaded := none }
    match required.1 with
    | .error failure => (.error failure, required.2)
    | .ok () =>
        match required.2.loadedTable with
        | none => (.error .notIterable, required.2)
        | some newModule =>
            let copied := copyPairs oldModule newModule.entries required.2
            match copied.1 with
            | .error failure => (.error failure, copied.2)
            | .ok () => (.ok oldModule, { copied.2 with loaded := oldModule })
  else (.ok s.loaded, s)

/-! ## Pairs laid over a table -/

/-- The table after the assignments of the loop. -/
def lay (entries : List (Sigma fun _ : Key => Value Datum)) (table : Table Key Datum) :
    Table Key Datum :=
  entries.foldl (fun laid entry => laid.insert entry.1 entry.2) table

theorem lookup_lay {entries : List (Sigma fun _ : Key => Value Datum)}
    (nodup : entries.NodupKeys) (table : Table Key Datum) (key : Key) :
    (lay entries table).lookup key = (entries.dlookup key).or (table.lookup key) := by
  induction entries generalizing table with
  | nil => rfl
  | cons entry rest inductionHypothesis =>
      have apart := List.nodupKeys_cons.mp nodup
      rw [lay, List.foldl_cons, ← lay, inductionHypothesis apart.2]
      by_cases same : key = entry.1
      · subst same
        rw [List.dlookup_eq_none.mpr apart.1, AList.lookup_insert, List.dlookup_cons_eq]
        rfl
      · rw [AList.lookup_insert_ne same, List.dlookup_cons_ne rest entry same]

/-- The old table with the new pairs over it is the new table when no old key is missing. -/
theorem lay_iff (old new : Table Key Datum) :
    (∀ key, (lay new.entries old).lookup key = new.lookup key) ↔
      ∀ key ∈ old, key ∈ new := by
  have laid : ∀ key, (lay new.entries old).lookup key =
      (new.lookup key).or (old.lookup key) := lookup_lay new.nodupKeys old
  simp only [laid]
  constructor
  · intro same key inOld
    by_contra missing
    have absent := same key
    rw [AList.lookup_eq_none.mpr missing, Option.none_or] at absent
    exact AList.lookup_eq_none.mp absent inOld
  · intro covered key
    by_cases inNew : key ∈ new
    · obtain ⟨value, found⟩ := Option.isSome_iff_exists.mp (AList.lookup_isSome.mpr inNew)
      rw [found, Option.some_or]
    · rw [AList.lookup_eq_none.mpr inNew, Option.none_or]
      exact AList.lookup_eq_none.mpr (mt (covered key) inNew)

theorem copyPairs_table (ref : Nat) (entries : List (Sigma fun _ : Key => Value Datum))
    (s : State Key Datum) : copyPairs (some (.table ref)) entries s =
      (.ok (), { s with tables := s.tables.modify ref (lay entries) }) := by
  induction entries generalizing s with
  | nil =>
      have same : s.tables.modify ref (lay []) = s.tables := List.modify_id ref s.tables
      rw [same]
      rfl
  | cons entry rest inductionHypothesis =>
      rw [copyPairs, inductionHypothesis, List.modify_modify_eq]
      rfl

/-! ## Atomic and exact -/

section Reloading

variable {s : State Key Datum} {oldRef : Nat} {oldModule : Table Key Datum}

/-- The state in which the loop starts, or that a failed `require` leaves. -/
def reloaded (reload : Reload Key Datum) (s : State Key Datum) : State Key Datum :=
  (require reload { s with loaded := none }).2

/-- The entry is the old table, which has the pairs of `content`. -/
def Holds (s : State Key Datum) (oldRef : Nat) (content : Table Key Datum) : Prop :=
  s.loaded = some (.table oldRef) ∧ ∃ table, s.tables[oldRef]? = some table ∧
    ∀ key, table.lookup key = content.lookup key

/-- After an error the entry is the old table, unchanged; after a return it is the old table
with the pairs of the new one. -/
def AtomicAndExact (reload : Reload Key Datum) (s : State Key Datum) (oldRef : Nat)
    (oldModule : Table Key Datum) : Prop :=
  match (hotfixTable reload s).1 with
  | .error _ => Holds (hotfixTable reload s).2 oldRef oldModule
  | .ok _ => ∃ newModule, (reloaded reload s).loadedTable = some newModule ∧
      Holds (hotfixTable reload s).2 oldRef newModule

/-- The module runs and leaves a table that has every key of the old one.  (A module that
fails after it put the old table back by itself does no harm either.) -/
def Renews (s : State Key Datum) (oldRef : Nat) (oldModule : Table Key Datum) :
    Reload Key Datum → Prop
  | .loadError => False
  | .runError assigned => assigned = .value (some (.table oldRef))
  | .ran assigned result => ∃ newModule,
      (({ s with loaded := none }.put assigned).putResult result).loadedTable =
        some newModule ∧ ∀ key ∈ oldModule, key ∈ newModule

variable (loaded : s.loaded = some (.table oldRef))
include loaded

theorem hotfixTable_failed (reload : Reload Key Datum) {failure : Failure}
    (failed : (require reload { s with loaded := none }).1 = .error failure) :
    hotfixTable reload s = (.error failure, reloaded reload s) := by
  have isTable : truthy s.loaded = true := by rw [loaded]; rfl
  rw [hotfixTable, if_pos isTable]
  dsimp only
  rw [failed]
  rfl

variable {reload : Reload Key Datum}
  (ran : (require reload { s with loaded := none }).1 = .ok ())
include ran

theorem hotfixTable_notIterable (noTable : (reloaded reload s).loadedTable = none) :
    hotfixTable reload s = (.error .notIterable, reloaded reload s) := by
  have isTable : truthy s.loaded = true := by rw [loaded]; rfl
  rw [reloaded] at noTable
  rw [hotfixTable, if_pos isTable]
  dsimp only
  rw [ran]
  dsimp only
  rw [noTable]
  rfl

theorem hotfixTable_copied {newModule : Table Key Datum}
    (found : (reloaded reload s).loadedTable = some newModule) :
    hotfixTable reload s = (.ok (some (.table oldRef)),
      { loaded := some (.table oldRef)
        tables := (reloaded reload s).tables.modify oldRef (lay newModule.entries) }) := by
  have isTable : truthy s.loaded = true := by rw [loaded]; rfl
  rw [reloaded] at found
  rw [hotfixTable, if_pos isTable]
  dsimp only
  rw [ran]
  dsimp only
  rw [found, loaded]
  dsimp only
  rw [copyPairs_table]
  rfl

end Reloading

section Exact

variable {s : State Key Datum} {oldRef : Nat} {oldModule : Table Key Datum}

theorem holds_same_iff (present : s.tables[oldRef]? = some oldModule) :
    Holds s oldRef oldModule ↔ s.loaded = some (.table oldRef) :=
  ⟨And.left, fun same => ⟨same, oldModule, present, fun _ => rfl⟩⟩

/-- The old table comes out of `hotfix_table` as claimed exactly when the module runs and
leaves a table with every key of the old one. -/
theorem hotfixTable_exact_iff (reload : Reload Key Datum)
    (loaded : s.loaded = some (.table oldRef)) (present : s.tables[oldRef]? = some oldModule) :
    AtomicAndExact reload s oldRef oldModule ↔ Renews s oldRef oldModule reload := by
  cases reload with
  | loadError =>
      have failed := hotfixTable_failed loaded .loadError rfl
      rw [AtomicAndExact, failed]
      exact iff_of_false (fun holds => by cases holds.1) id
  | runError assigned =>
      have failed := hotfixTable_failed loaded (.runError assigned) rfl
      have kept : (reloaded (.runError assigned) s).tables[oldRef]? = some oldModule :=
        put_keeps (s := { s with loaded := none }) present assigned
      rw [AtomicAndExact, failed]
      exact (holds_same_iff kept).trans
        (put_loaded_iff (s := { s with loaded := none }) present assigned)
  | ran assigned result =>
      have kept : (reloaded (.ran assigned result) s).tables[oldRef]? = some oldModule :=
        putResult_keeps (put_keeps (s := { s with loaded := none }) present assigned) result
      cases found : (reloaded (.ran assigned result) s).loadedTable with
      | none =>
          rw [AtomicAndExact, hotfixTable_notIterable loaded rfl found]
          refine iff_of_false ?_ ?_
          · intro holds
            have table := (loadedTable_eq holds.1).trans kept
            cases found.symm.trans table
          · rintro ⟨newModule, table, -⟩
            cases found.symm.trans table
      | some newModule =>
          have after : ((reloaded (.ran assigned result) s).tables.modify oldRef
              (lay newModule.entries))[oldRef]? = some (lay newModule.entries oldModule) := by
            rw [List.getElem?_modify_eq, kept]
            rfl
          rw [AtomicAndExact, hotfixTable_copied loaded rfl found]
          constructor
          · rintro ⟨other, same, -, table, there, pairs⟩
            cases found.symm.trans same
            cases after.symm.trans there
            exact ⟨newModule, found, (lay_iff oldModule newModule).mp pairs⟩
          · rintro ⟨other, same, covered⟩
            cases found.symm.trans same
            exact ⟨newModule, found, rfl, _, after, (lay_iff oldModule newModule).mpr covered⟩

/-- A module of one pair, in `package.loaded`. -/
def oneTable : State String Nat :=
  { loaded := some (.table 0), tables := [AList.singleton "port" (.other 80)] }

/-- The new version changes the pair and adds one. -/
theorem growing_module_exact : AtomicAndExact
    (.ran (.value none) (.newTable ((AList.singleton "port" (.other 81)).insert "host"
      (.boolean true)))) oneTable 0 (AList.singleton "port" (.other 80)) := by
  refine (hotfixTable_exact_iff _ rfl rfl).mpr ⟨_, rfl, ?_⟩
  intro key old
  rw [AList.mem_insert]
  exact .inr old

/-- A module that does not load any more is taken out of `package.loaded`. -/
theorem load_error_loses_module : ¬ ∀ (reload : Reload String Nat) (s : State String Nat)
    (oldRef : Nat) (oldModule : Table String Nat), s.loaded = some (.table oldRef) →
      s.tables[oldRef]? = some oldModule → AtomicAndExact reload s oldRef oldModule := by
  intro always
  have holds := always .loadError oneTable 0 (AList.singleton "port" (.other 80)) rfl rfl
  cases holds.1

end Exact

end CrossOver.Lua.Hotfix
