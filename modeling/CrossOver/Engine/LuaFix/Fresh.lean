import CrossOver.Engine.LuaFix
import CrossOver.Lib.Cycle
import CrossOver.Lib.Transition

/-!
# Ids of registered values stay apart

The id for the next call is looked for ahead of time.  It stays free because an
id is taken only by the call that it was kept for, and removals only make ids
free.  The search itself is a walk on the ring `1, …, 0x7fffffff`.
-/

namespace CrossOver.Engine.LuaFix

open CrossOver.Lib
open CrossOver.Engine.Network (HandleInfo)

variable {Value : Type}

/-- The largest positive `int`. -/
def lastId : Nat := 2 ^ 31 - 1

/-- Which of the two tables a call is about. -/
inductive Kind where
  | function
  | param
  deriving DecidableEq

namespace Registry

def table (r : Registry Value) : Kind → RefTable Value
  | .function => r.functions
  | .param => r.params

def setTable (r : Registry Value) (t : RefTable Value) : Kind → Registry Value
  | .function => { r with functions := t }
  | .param => { r with params := t }

/-- A call of `toluafix_ref_…` with what lies on the Lua stack, or of
`toluafix_remove_…_by_refid`. -/
inductive Call (Value : Type) where
  | ref (kind : Kind) (value : Option Value)
  | remove (kind : Kind) (refid : UInt32)

/-- A call that does not end has no result. -/
def Call.exec : Call Value → Registry Value → Option (Registry Value)
  | .ref kind value, r => ((r.table kind).ref value).map fun made => r.setTable made.2 kind
  | .remove kind refid, r => some (r.setTable ((r.table kind).remove refid) kind)

def calls (Value : Type) : System (Registry Value) (Call Value) where
  initial r := r = Registry.initial
  step r call r' := call.exec r = some r'

variable {r : Registry Value} {t : RefTable Value} {kind other : Kind}

@[simp]
theorem table_setTable : (r.setTable t kind).table kind = t := by
  cases kind <;> rfl

theorem table_setTable_of_ne (differ : other ≠ kind) :
    (r.setTable t kind).table other = r.table other := by
  cases kind <;> cases other <;> first | rfl | exact absurd rfl differ

end Registry

/-! ## The walk -/

theorem step_toNat (refId : UInt32) :
    (if refId < 0x7fffffff then refId + 1 else 1).toNat = ring lastId refId.toNat := by
  have same : refId < 0x7fffffff ↔ refId.toNat < lastId := UInt32.lt_iff_toNat_lt
  unfold ring
  by_cases inner : refId < 0x7fffffff
  · have bound := same.mp inner
    rw [if_pos inner, if_pos bound, UInt32.toNat_add]
    exact Nat.mod_eq_of_lt (by unfold lastId at bound; simp only [UInt32.toNat_one]; omega)
  · rw [if_neg inner, if_neg (mt same.mpr inner)]
    rfl

theorem nextFree_toNat (ids : List UInt32) (turns : Nat) (refId : UInt32) :
    (nextFree ids turns refId).map UInt32.toNat =
      firstFree (ring lastId) (ids.map UInt32.toNat) turns (ring lastId refId.toNat) := by
  induction turns generalizing refId with
  | zero => rfl
  | succ turns inductionHypothesis =>
      rw [nextFree, firstFree, ← step_toNat]
      generalize (if refId < 0x7fffffff then refId + 1 else 1) = next
      have same : next.toNat ∈ ids.map UInt32.toNat ↔ next ∈ ids :=
        List.mem_map_of_injective fun _ _ => UInt32.toNat_inj.mp
      simp only [same]
      split
      · exact inductionHypothesis _
      · rfl

theorem nextFree_ends {ids : List UInt32} (few : ids.length < lastId) (refId : UInt32) :
    ∃ next, nextFree ids (ids.length + 1) refId = some next := by
  have inside := ring_inside (by decide : 0 < lastId) refId.toNat
  rw [← List.length_map UInt32.toNat] at few
  obtain ⟨m, found, -⟩ := firstFree_ring inside.1 inside.2 few
  rw [List.length_map, ← nextFree_toNat] at found
  obtain ⟨next, found, -⟩ := Option.map_eq_some_iff.mp found
  exact ⟨next, found⟩

theorem nextFree_inside {ids : List UInt32} {turns : Nat} {refId next : UInt32}
    (found : nextFree ids turns refId = some next) :
    1 ≤ next.toNat ∧ next.toNat ≤ lastId := by
  have walked := nextFree_toNat ids turns refId
  rw [found, Option.map_some] at walked
  have inside := ring_inside (by decide : 0 < lastId) refId.toNat
  obtain ⟨-, k, -, place⟩ := firstFree_spec walked.symm
  rw [ring_iterate inside.1 inside.2] at place
  have below := Nat.mod_lt (ring lastId refId.toNat - 1 + k) (by decide : lastId > 0)
  omega

/-! ## Every table of every run -/

/-- The next id is positive, free and waiting; the ids in use are the keys of
the table in the Lua registry. -/
structure RefTable.Fresh (t : RefTable Value) : Prop where
  inside : 1 ≤ t.refId.toNat ∧ t.refId.toNat ≤ lastId
  free : t.refId ∉ t.idMap
  within : ∀ id ∈ t.idMap, 1 ≤ id.toNat ∧ id.toNat ≤ lastId
  nodup : t.idMap.Nodup
  keys : ∀ id, id ∈ t.idMap ↔ (t.get id).isSome

namespace RefTable.Fresh

variable {t t' : RefTable Value} {id other : UInt32} {value : Value}

theorem initial : (RefTable.initial : RefTable Value).Fresh where
  inside := ⟨le_refl 1, (by decide : 1 ≤ lastId)⟩
  free := List.not_mem_nil
  within := fun id membership => absurd membership List.not_mem_nil
  nodup := List.nodup_nil
  keys := fun id => iff_of_false List.not_mem_nil Bool.false_ne_true

/-- With an id to spare the id that was kept is given out. -/
theorem generate (fresh : t.Fresh) (few : t.idMap.length < 2 ^ 31 - 2) :
    ∃ made, t.generate = some (t.refId, made) := by
  have lengths : (t.idMap.insert t.refId).length < lastId := by
    rw [List.length_insert_of_not_mem fresh.free]
    unfold lastId
    omega
  obtain ⟨next, found⟩ := nextFree_ends lengths t.refId
  refine ⟨{ t with refId := next, idMap := t.idMap.insert t.refId }, ?_⟩
  unfold RefTable.generate
  dsimp only
  rw [found, Option.map_some]

theorem ref (fresh : t.Fresh) (made : t.ref (some value) = some (id, t')) : t'.Fresh := by
  obtain ⟨same, free, ids, mapping⟩ := RefTable.ref_spec made
  obtain ⟨⟨generated, between⟩, found, rest⟩ := Option.map_eq_some_iff.mp made
  obtain ⟨next, walked, moved⟩ := Option.map_eq_some_iff.mp found
  cases moved
  cases rest
  refine ⟨nextFree_inside walked, free, ?_, ?_, ?_⟩
  · intro other membership
    rcases List.mem_insert_iff.mp membership with rfl | old
    · exact fresh.inside
    · exact fresh.within other old
  · exact fresh.nodup.insert
  · intro other
    rw [ids, List.mem_insert_iff, RefTable.get, mapping]
    by_cases new : other = t.refId
    · rw [new, Function.update_self]
      exact iff_of_true (Or.inl rfl) rfl
    · rw [Function.update_of_ne new]
      exact (or_iff_right new).trans (fresh.keys other)

theorem remove (fresh : t.Fresh) (id : UInt32) : (t.remove id).Fresh where
  inside := fresh.inside
  free := fun membership => fresh.free (List.mem_filter.mp membership).1
  within := fun other membership => fresh.within other (List.mem_filter.mp membership).1
  nodup := fresh.nodup.filter _
  keys := by
    intro other
    unfold RefTable.remove RefTable.get
    rw [List.mem_filter, decide_eq_true_eq]
    dsimp only
    by_cases gone : other = id
    · rw [gone, Function.update_self]
      exact iff_of_false (fun membership => membership.2 rfl) Bool.false_ne_true
    · rw [Function.update_of_ne gone]
      exact (and_iff_left gone).trans (fresh.keys other)

end RefTable.Fresh

theorem RefTable.ref_get {t t' : RefTable Value} {value value' : Value} {id other : UInt32}
    (fresh : t.Fresh) (made : t.ref (some value) = some (id, t'))
    (known : t.get other = some value') : t'.get other = some value' := by
  obtain ⟨rfl, -, -, mapping⟩ := RefTable.ref_spec made
  have live : other ∈ t.idMap := (fresh.keys other).mpr (by rw [known]; rfl)
  have differ : other ≠ t.refId := fun same => fresh.free (same ▸ live)
  rw [RefTable.get, mapping, Function.update_of_ne differ]
  exact known

/-- A registered value gets an id that leads to it; any other value gets `0`. -/
def RefTable.Given (t : RefTable Value) (value : Option Value) (id : UInt32) : Prop :=
  match value with
  | none => id = 0
  | some value => 0 < id ∧ t.get id = some value

namespace RefTable

variable {t t' : RefTable Value} {values : List (Option Value)} {ids : List UInt32}

theorem refAll_given (fresh : t.Fresh) (made : t.refAll values = some (ids, t')) :
    t'.Fresh ∧ (∀ id value, t.get id = some value → t'.get id = some value) ∧
      List.Forall₂ t'.Given values ids := by
  induction values generalizing t ids with
  | nil =>
      cases made
      exact ⟨fresh, fun _ _ known => known, .nil⟩
  | cons value rest inductionHypothesis =>
      obtain ⟨⟨id, between⟩, first, made⟩ := Option.bind_eq_some_iff.mp made
      obtain ⟨⟨others, last⟩, later, made⟩ := Option.map_eq_some_iff.mp made
      cases made
      cases value with
      | none =>
          cases first
          obtain ⟨freshAfter, kept, given⟩ := inductionHypothesis fresh later
          exact ⟨freshAfter, kept, .cons rfl given⟩
      | some value =>
          obtain ⟨freshAfter, kept, given⟩ := inductionHypothesis (fresh.ref first) later
          obtain ⟨same, -, -, mapping⟩ := ref_spec first
          have leads : between.get id = some value := by
            rw [RefTable.get, mapping, Function.update_self]
          have positive : 0 < id := by
            have inside := fresh.inside.1
            rw [same]
            exact UInt32.lt_iff_toNat_lt.mpr inside
          refine ⟨freshAfter, ?_, .cons ⟨positive, kept _ _ leads⟩ given⟩
          exact fun other otherValue known => kept _ _ (ref_get fresh first known)

/-- With room for all of them the registrations end. -/
theorem refAll_ends (fresh : t.Fresh) (room : t.idMap.length + values.length ≤ 2 ^ 31 - 2) :
    ∃ made, t.refAll values = some made := by
  induction values generalizing t with
  | nil => exact ⟨_, rfl⟩
  | cons value rest inductionHypothesis =>
      rw [List.length_cons] at room
      cases value with
      | none =>
          obtain ⟨made, later⟩ := inductionHypothesis fresh (by omega)
          exact ⟨_, by rw [refAll, ref, Option.bind_some, later, Option.map_some]⟩
      | some value =>
          obtain ⟨between, generated⟩ := fresh.generate (by omega)
          have first : t.ref (some value) = some (t.refId,
              { between with mapping := Function.update between.mapping t.refId (some value) }) := by
            rw [ref, generated, Option.map_some]
          have longer := (ref_spec first).2.2.1
          obtain ⟨made, later⟩ := inductionHypothesis (fresh.ref first) (by
            rw [longer, List.length_insert_of_not_mem fresh.free]
            omega)
          exact ⟨_, by rw [refAll, first, Option.bind_some, later, Option.map_some]⟩

theorem Fresh.removeAll (fresh : t.Fresh) (ids : List UInt32) : (t.removeAll ids).Fresh := by
  unfold RefTable.removeAll
  induction ids generalizing t with
  | nil => exact fresh
  | cons id rest inductionHypothesis =>
      refine inductionHypothesis ?_
      unfold removeHandler
      split
      · exact fresh.remove id
      · exact fresh

end RefTable

namespace Registry

variable {r r' : Registry Value} {kind : Kind} {id : UInt32} {value : Value}

theorem register_fresh (fresh : ∀ kind, (r.table kind).Fresh) {values : List (Value × Option Value)}
    {handles : List HandleInfo} (made : r.register values = some (handles, r')) :
    ∀ kind, (r'.table kind).Fresh := by
  obtain ⟨functions, params⟩ := register_spec made
  intro kind
  cases kind with
  | function => exact (RefTable.refAll_given (fresh .function) functions).1
  | param => exact (RefTable.refAll_given (fresh .param) params).1

theorem removeHandlers_fresh (fresh : ∀ kind, (r.table kind).Fresh) (handles : List HandleInfo) :
    ∀ kind, ((r.removeHandlers handles).table kind).Fresh := by
  intro kind
  cases kind with
  | function => exact (fresh .function).removeAll _
  | param => exact (fresh .param).removeAll _

theorem Call.fresh {call : Call Value} (fresh : ∀ kind, (r.table kind).Fresh)
    (called : call.exec r = some r') : ∀ kind, (r'.table kind).Fresh := by
  intro other
  cases call with
  | ref kind value =>
      obtain ⟨⟨id, t⟩, made, rest⟩ := Option.map_eq_some_iff.mp called
      subst rest
      by_cases same : other = kind
      · subst same
        rw [table_setTable]
        cases value with
        | none =>
            cases made
            exact fresh other
        | some value => exact (fresh other).ref made
      · rw [table_setTable_of_ne same]
        exact fresh other
  | remove kind refid =>
      obtain rfl := Option.some.inj called
      by_cases same : other = kind
      · subst same
        rw [table_setTable]
        exact (fresh other).remove refid
      · rw [table_setTable_of_ne same]
        exact fresh other

/-- Only the removal of an id takes its value away. -/
theorem Call.keeps {call : Call Value} (fresh : ∀ kind, (r.table kind).Fresh)
    (called : call.exec r = some r') (other : call ≠ .remove kind id)
    (known : (r.table kind).get id = some value) : (r'.table kind).get id = some value := by
  cases call with
  | ref changed entered =>
      obtain ⟨⟨id, t⟩, made, rest⟩ := Option.map_eq_some_iff.mp called
      subst rest
      by_cases same : kind = changed
      · subst same
        rw [table_setTable]
        cases entered with
        | none =>
            cases made
            exact known
        | some entered => exact RefTable.ref_get (fresh kind) made known
      · rw [table_setTable_of_ne same]
        exact known
  | remove changed refid =>
      obtain rfl := Option.some.inj called
      by_cases same : kind = changed
      · subst same
        have differ : id ≠ refid := fun same => other (congrArg _ same.symm)
        rw [table_setTable, RefTable.get, RefTable.remove]
        exact (Function.update_of_ne differ ..).trans known
      · rw [table_setTable_of_ne same]
        exact known

theorem fresh_of_reachable (reached : (calls Value).Reachable r) :
    ∀ kind, (r.table kind).Fresh := by
  induction reached with
  | start initially =>
      subst initially
      intro kind
      cases kind with
      | function => exact .initial
      | param => exact .initial
  | next _ called inductionHypothesis => exact Call.fresh inductionHypothesis called

/-- A registered value stays under its id as long as nobody removes the id. -/
theorem get_until_removed (fresh : ∀ kind, (r.table kind).Fresh)
    (known : (r.table kind).get id = some value) {later : Registry Value}
    (reached : (((calls Value).startingAt r).restrict
      fun _ call => call ≠ .remove kind id).Reachable later) :
    (later.table kind).get id = some value := by
  have both : (∀ kind, (later.table kind).Fresh) ∧ (later.table kind).get id = some value := by
    induction reached with
    | start initially =>
        subst initially
        exact ⟨fresh, known⟩
    | next _ step inductionHypothesis =>
        obtain ⟨other, called⟩ := step
        exact ⟨Call.fresh inductionHypothesis.1 called,
          Call.keeps inductionHypothesis.1 called other inductionHypothesis.2⟩
  exact both.2

/-- With fewer than `2 ^ 31 - 2` ids in use the next call ends, its id is free,
and the id leads to the value from then on. -/
theorem ids_never_confused (reached : (calls Value).Reachable r) (kind : Kind) :
    (r.table kind).Fresh ∧
      ((r.table kind).idMap.length < 2 ^ 31 - 2 → ∃ id made,
        (r.table kind).generate = some (id, made) ∧ 1 ≤ id.toNat ∧ id.toNat ≤ 0x7fffffff ∧
          id ∉ (r.table kind).idMap ∧
          ∀ value, ∃ t, (r.table kind).ref (some value) = some (id, t) ∧
            Call.exec (.ref kind (some value)) r = some (r.setTable t kind) ∧
            ∀ later, (((calls Value).startingAt (r.setTable t kind)).restrict
              fun _ call => call ≠ .remove kind id).Reachable later →
                (later.table kind).get id = some value) := by
  have fresh := fresh_of_reachable reached
  refine ⟨fresh kind, fun few => ?_⟩
  obtain ⟨made, generated⟩ := (fresh kind).generate few
  refine ⟨_, made, generated, (fresh kind).inside.1, (fresh kind).inside.2, (fresh kind).free, ?_⟩
  intro value
  obtain ⟨t, registered⟩ :
      ∃ t, (r.table kind).ref (some value) = some ((r.table kind).refId, t) := by
    unfold RefTable.ref
    dsimp only
    rw [generated]
    exact ⟨_, rfl⟩
  have called : Call.exec (.ref kind (some value)) r = some (r.setTable t kind) := by
    rw [Call.exec, registered, Option.map_some]
  refine ⟨t, registered, called, fun later continued => ?_⟩
  refine get_until_removed (Call.fresh fresh called) ?_ continued
  rw [table_setTable, RefTable.get, (RefTable.ref_spec registered).2.2.2, Function.update_self]

def oneFunction : Registry Nat :=
  Registry.initial.setTable
    { refId := 2, idMap := [1], mapping := Function.update (fun _ => none) 1 (some 7) } .function

theorem ids_never_confused_second : ∃ id made,
    (oneFunction.table .function).generate = some (id, made) ∧ id ∉ [(1 : UInt32)] ∧
      (oneFunction.table .function).Fresh := by
  have called : Call.exec (.ref .function (some 7)) Registry.initial = some oneFunction := by rfl
  have reached : (calls Nat).Reachable oneFunction := .next (.start rfl) called
  obtain ⟨fresh, ends⟩ := ids_never_confused reached .function
  obtain ⟨id, made, generated, -, -, free, -⟩ := ends (by decide)
  exact ⟨id, made, generated, free, fresh⟩

end Registry

end CrossOver.Engine.LuaFix
