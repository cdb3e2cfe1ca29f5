import Mathlib.Logic.Function.Basic
import Mathlib.Data.List.Perm.Subperm
import CrossOver.Engine.Network.State

/-!
# Functions and parameters that Lua code has registered

`lua_fix.cpp` keeps two tables of the same shape, one for functions and one for
parameters.  A value gets an id; the id leads to the value until it is removed.
An `int` that counts ids stays positive, so an id is the `uint32` of a handler.

`Sound` is what several parties that share a table rely on: the ids of those
that will remove theirs are in the table, no two parties have an id in common,
and the ids of those that still need their values lead to them.
-/

namespace CrossOver.Engine.LuaFix

open CrossOver.Engine.Network (HandleInfo)

variable {Value : Type}

/-- A counter for ids, the ids in use, and the table in the Lua registry. -/
structure RefTable (Value : Type) where
  refId : UInt32
  idMap : List UInt32
  mapping : UInt32 → Option Value

def RefTable.initial : RefTable Value where
  refId := 1
  idMap := []
  mapping _ := none

/-- The search for the next free id.  It only sees the ids in use, so one turn
more than there are ids decides whether it ends. -/
def nextFree (ids : List UInt32) : Nat → UInt32 → Option UInt32
  | 0, _ => none
  | turns + 1, refId =>
      let next := if refId < 0x7fffffff then refId + 1 else 1
      if next ∈ ids then nextFree ids turns next else some next

namespace RefTable

/-- `generate_function_id` and `generate_param_id` -/
def generate (t : RefTable Value) : Option (UInt32 × RefTable Value) :=
  let ids := t.idMap.insert t.refId
  (nextFree ids (ids.length + 1) t.refId).map fun next =>
    (t.refId, { t with refId := next, idMap := ids })

/-- `toluafix_ref_function` and `toluafix_ref_param`; a value of the wrong type
is not registered. -/
def ref (t : RefTable Value) : Option Value → Option (UInt32 × RefTable Value)
  | none => some (0, t)
  | some value => t.generate.map fun made =>
      (made.1, { made.2 with mapping := Function.update made.2.mapping made.1 (some value) })

/-- `toluafix_get_function_by_refid` and `toluafix_get_param_by_refid` -/
def get (t : RefTable Value) (refid : UInt32) : Option Value := t.mapping refid

/-- `toluafix_remove_function_by_refid` and `toluafix_remove_param_by_refid` -/
def remove (t : RefTable Value) (refid : UInt32) : RefTable Value where
  refId := t.refId
  idMap := t.idMap.filter (· ≠ refid)
  mapping := Function.update t.mapping refid none

def removeHandler (t : RefTable Value) (refid : UInt32) : RefTable Value :=
  if refid > 0 then t.remove refid else t

/-- One call after another. -/
def refAll (t : RefTable Value) : List (Option Value) → Option (List UInt32 × RefTable Value)
  | [] => some ([], t)
  | value :: rest =>
      (t.ref value).bind fun made =>
        (made.2.refAll rest).map fun others => (made.1 :: others.1, others.2)

def removeAll (t : RefTable Value) (ids : List UInt32) : RefTable Value :=
  ids.foldl removeHandler t

end RefTable

/-! ## Sharing a table -/

/-- The values that a call of `refAll` has registered, with their ids. -/
def bindings (ids : List UInt32) (values : List (Option Value)) : List (UInt32 × Value) :=
  (ids.zip values).filterMap fun entry => entry.2.map (entry.1, ·)

/-- The parties of `owned` will remove their ids; those of `bound` need theirs. -/
structure Sound {Party : Type} (owned : Party → List UInt32 → Prop) (t : RefTable Value)
    (bound : List (UInt32 × Value)) : Prop where
  free : t.refId ∉ t.idMap
  inUse : ∀ party ids, owned party ids → ∀ id ∈ ids, 0 < id → id ∈ t.idMap
  apart : ∀ party ids other otherIds, owned party ids → owned other otherIds → party ≠ other →
    ∀ id ∈ ids, 0 < id → id ∉ otherIds
  yields : ∀ entry ∈ bound, entry.1 ∈ t.idMap ∧ t.get entry.1 = some entry.2
  distinct : (bound.map Prod.fst).Nodup
  away : ∀ entry ∈ bound, ∀ party ids, owned party ids → 0 < entry.1 → entry.1 ∉ ids

theorem nextFree_free {ids : List UInt32} {turns : Nat} {refId next : UInt32}
    (found : nextFree ids turns refId = some next) : next ∉ ids := by
  induction turns generalizing refId with
  | zero => cases found
  | succ turns inductionHypothesis =>
      rw [nextFree] at found
      generalize (if refId < 0x7fffffff then refId + 1 else 1) = candidate at found
      split at found
      · exact inductionHypothesis found
      · next free =>
          cases found
          exact free

namespace RefTable

theorem generate_spec {t t' : RefTable Value} {id : UInt32} (made : t.generate = some (id, t')) :
    id = t.refId ∧ t'.refId ∉ t'.idMap ∧ t'.idMap = t.idMap.insert id ∧ t'.mapping = t.mapping := by
  obtain ⟨next, found, rest⟩ := Option.map_eq_some_iff.mp made
  cases rest
  exact ⟨rfl, nextFree_free found, rfl, rfl⟩

theorem ref_spec {t t' : RefTable Value} {value : Value} {id : UInt32}
    (made : t.ref (some value) = some (id, t')) :
    id = t.refId ∧ t'.refId ∉ t'.idMap ∧ t'.idMap = t.idMap.insert id ∧
      t'.mapping = Function.update t.mapping id (some value) := by
  obtain ⟨⟨id', generated⟩, found, rest⟩ := Option.map_eq_some_iff.mp made
  cases rest
  obtain ⟨same, free, ids, mapping⟩ := generate_spec found
  refine ⟨same, free, ids, ?_⟩
  dsimp only
  rw [mapping]

end RefTable

namespace Sound

variable {Party : Type} {owned : Party → List UInt32 → Prop} {t t' : RefTable Value}
  {bound mine : List (UInt32 × Value)}

theorem initial (none : ∀ party ids, ¬owned party ids) :
    Sound owned (RefTable.initial : RefTable Value) [] where
  free := List.not_mem_nil
  inUse := fun party ids owns => absurd owns (none party ids)
  apart := fun party ids _ _ owns => absurd owns (none party ids)
  yields := fun _ membership => absurd membership List.not_mem_nil
  distinct := List.nodup_nil
  away := fun _ membership => absurd membership List.not_mem_nil

/-- Fewer parties want less. -/
theorem mono {fewer : Party → List UInt32 → Prop} (sound : Sound owned t bound)
    (subset : ∀ party ids, fewer party ids → owned party ids) : Sound fewer t bound where
  free := sound.free
  inUse := fun party ids owns => sound.inUse party ids (subset _ _ owns)
  apart := fun party ids other otherIds owns otherOwns =>
    sound.apart party ids other otherIds (subset _ _ owns) (subset _ _ otherOwns)
  yields := sound.yields
  distinct := sound.distinct
  away := fun entry membership party ids owns =>
    sound.away entry membership party ids (subset _ _ owns)

/-- A new value gets an id that nobody has. -/
theorem ref (sound : Sound owned t bound) {value : Value} {id : UInt32}
    (made : t.ref (some value) = some (id, t')) : Sound owned t' ((id, value) :: bound) := by
  obtain ⟨rfl, free, ids, mapping⟩ := RefTable.ref_spec made
  have unused : ∀ entry ∈ bound, entry.1 ≠ t.refId := fun entry membership same =>
    sound.free (same ▸ (sound.yields entry membership).1)
  refine ⟨free, ?_, sound.apart, ?_, ?_, ?_⟩
  · intro party ids' owns id membership positive
    rw [ids]
    exact List.mem_insert_of_mem (sound.inUse party ids' owns id membership positive)
  · intro entry membership
    rw [ids, RefTable.get, mapping]
    rcases List.mem_cons.mp membership with rfl | old
    · exact ⟨List.mem_insert_self, Function.update_self ..⟩
    · exact ⟨List.mem_insert_of_mem (sound.yields entry old).1,
        (Function.update_of_ne (unused entry old) ..).trans (sound.yields entry old).2⟩
  · refine List.nodup_cons.mpr ⟨?_, sound.distinct⟩
    intro membership
    obtain ⟨entry, old, same⟩ := List.mem_map.mp membership
    exact unused entry old same
  · intro entry membership party ids' owns positive
    rcases List.mem_cons.mp membership with rfl | old
    · exact fun owned => sound.free (sound.inUse party ids' owns _ owned positive)
    · exact sound.away entry old party ids' owns positive

theorem refAll (sound : Sound owned t bound) {values : List (Option Value)} {ids : List UInt32}
    (made : t.refAll values = some (ids, t')) :
    Sound owned t' ((bindings ids values).reverse ++ bound) := by
  induction values generalizing t ids bound with
  | nil =>
      cases made
      exact sound
  | cons value rest inductionHypothesis =>
      obtain ⟨⟨id, t₁⟩, first, made⟩ := Option.bind_eq_some_iff.mp made
      obtain ⟨⟨others, t₂⟩, later, made⟩ := Option.map_eq_some_iff.mp made
      cases made
      cases value with
      | none =>
          cases first
          exact inductionHypothesis sound later
      | some value =>
          have more := inductionHypothesis (sound.ref first) later
          simpa [bindings] using more

/-- The ids that a party has just got become its own. -/
theorem assign (sound : Sound owned t (mine ++ bound)) {party : Party} {ids : List UInt32}
    (registered : ∀ id ∈ ids, 0 < id → id ∈ mine.map Prod.fst) :
    Sound (fun other otherIds => other ≠ party ∧ owned other otherIds ∨
      other = party ∧ otherIds = ids) t bound := by
  have away : ∀ id ∈ ids, 0 < id → ∀ other otherIds, owned other otherIds → id ∉ otherIds := by
    intro id membership positive other otherIds owns
    obtain ⟨entry, entered, rfl⟩ := List.mem_map.mp (registered id membership positive)
    exact sound.away entry (List.mem_append_left _ entered) other otherIds owns positive
  have separate := sound.distinct
  rw [List.map_append, List.nodup_append] at separate
  refine ⟨sound.free, ?_, ?_, ?_, separate.2.1, ?_⟩
  · rintro other otherIds (⟨-, owns⟩ | ⟨rfl, rfl⟩) id membership positive
    · exact sound.inUse other otherIds owns id membership positive
    · obtain ⟨entry, entered, rfl⟩ := List.mem_map.mp (registered id membership positive)
      exact (sound.yields entry (List.mem_append_left _ entered)).1
  · rintro one oneIds other otherIds (⟨-, owns⟩ | ⟨rfl, rfl⟩) (⟨-, otherOwns⟩ | ⟨rfl, rfl⟩) differ
      id membership positive
    · exact sound.apart one oneIds other otherIds owns otherOwns differ id membership positive
    · exact fun shared => away id shared positive one oneIds owns membership
    · exact away id membership positive other otherIds otherOwns
    · exact absurd rfl differ
  · exact fun entry membership => sound.yields entry (List.mem_append_right _ membership)
  · rintro entry membership other otherIds (⟨-, owns⟩ | ⟨rfl, rfl⟩) positive
    · exact sound.away entry (List.mem_append_right _ membership) other otherIds owns positive
    · intro shared
      exact separate.2.2 _ (registered entry.1 shared positive) _
        (List.mem_map_of_mem membership) rfl

/-- An id that no party has can be removed. -/
theorem removeHandler (sound : Sound owned t bound) {id : UInt32}
    (unowned : 0 < id → ∀ party ids, owned party ids → id ∉ ids)
    (unbound : 0 < id → id ∉ bound.map Prod.fst) : Sound owned (t.removeHandler id) bound := by
  unfold RefTable.removeHandler
  split
  · next positive =>
      refine ⟨?_, ?_, sound.apart, ?_, sound.distinct, sound.away⟩
      · exact fun membership => sound.free (List.mem_filter.mp membership).1
      · intro party ids owns other membership otherPositive
        refine List.mem_filter.mpr ⟨sound.inUse party ids owns other membership otherPositive, ?_⟩
        refine decide_eq_true ?_
        rintro rfl
        exact unowned positive party ids owns membership
      · intro entry membership
        have differ : entry.1 ≠ id := by
          rintro rfl
          exact unbound positive (List.mem_map_of_mem membership)
        exact ⟨List.mem_filter.mpr ⟨(sound.yields entry membership).1, decide_eq_true differ⟩,
          (Function.update_of_ne differ ..).trans (sound.yields entry membership).2⟩
  · exact sound

theorem removeAll {ids : List UInt32} (sound : Sound owned t bound)
    (unowned : ∀ id ∈ ids, 0 < id → ∀ party ids, owned party ids → id ∉ ids)
    (unbound : ∀ id ∈ ids, 0 < id → id ∉ bound.map Prod.fst) :
    Sound owned (t.removeAll ids) bound := by
  unfold RefTable.removeAll
  induction ids generalizing t with
  | nil => exact sound
  | cons id rest inductionHypothesis =>
      refine inductionHypothesis (sound.removeHandler (unowned id List.mem_cons_self)
        (unbound id List.mem_cons_self)) ?_ ?_
      · exact fun other membership => unowned other (List.mem_cons_of_mem _ membership)
      · exact fun other membership => unbound other (List.mem_cons_of_mem _ membership)

theorem part (sound : Sound owned t bound) {party : Party} {ids : List UInt32}
    (owns : owned party ids) :
    Sound (fun other otherIds => other ≠ party ∧ owned other otherIds) (t.removeAll ids) bound := by
  refine (sound.mono fun _ _ => And.right).removeAll ?_ ?_
  · rintro id membership positive other otherIds ⟨differ, otherOwns⟩
    exact sound.apart party ids other otherIds owns otherOwns (Ne.symm differ) id membership positive
  · intro id membership positive entered
    obtain ⟨entry, bound, rfl⟩ := List.mem_map.mp entered
    exact sound.away entry bound party ids owns positive membership

/-- Some no longer need their values. -/
theorem forget (sound : Sound owned t (mine ++ bound)) : Sound owned t bound := by
  have separate := sound.distinct
  rw [List.map_append, List.nodup_append] at separate
  refine ⟨sound.free, sound.inUse, sound.apart, ?_, separate.2.1, ?_⟩
  · exact fun entry membership => sound.yields entry (List.mem_append_right _ membership)
  · exact fun entry membership => sound.away entry (List.mem_append_right _ membership)

/-- Those who need their values no longer remove them. -/
theorem release (sound : Sound owned t (mine ++ bound)) {ids : List UInt32}
    (registered : ∀ id ∈ ids, 0 < id → id ∈ mine.map Prod.fst) :
    Sound owned (t.removeAll ids) bound := by
  have separate := sound.distinct
  rw [List.map_append, List.nodup_append] at separate
  refine sound.forget.removeAll ?_ ?_
  · intro id membership positive party ids owns
    obtain ⟨entry, entered, rfl⟩ := List.mem_map.mp (registered id membership positive)
    exact sound.away entry (List.mem_append_left _ entered) party ids owns positive
  · intro id membership positive bound
    exact separate.2.2 _ (registered id membership positive) _ bound rfl

theorem perm {other : List (UInt32 × Value)} (sound : Sound owned t bound)
    (same : other.Perm bound) : Sound owned t other where
  free := sound.free
  inUse := sound.inUse
  apart := sound.apart
  yields := fun entry membership => sound.yields entry (same.subset membership)
  distinct := (same.map Prod.fst).nodup_iff.mpr sound.distinct
  away := fun entry membership => sound.away entry (same.subset membership)

end Sound

/-! ## Both tables -/

structure Registry (Value : Type) where
  functions : RefTable Value
  params : RefTable Value

def Registry.initial : Registry Value where
  functions := .initial
  params := .initial

/-- The functions and the optional parameters that a Lua call hands over, and
the handlers made of them. -/
structure Registration (Value : Type) where
  handles : List HandleInfo
  values : List (Value × Option Value)

namespace Registry

/-- What every function that takes handlers does first. -/
def register (r : Registry Value) (values : List (Value × Option Value)) :
    Option (List HandleInfo × Registry Value) :=
  (r.functions.refAll (values.map fun value => some value.1)).bind fun functions =>
    (r.params.refAll (values.map Prod.snd)).map fun params =>
      ((functions.1.zip params.1).map fun ids => { funId := ids.1, paramId := ids.2 },
        { functions := functions.2, params := params.2 })

/-- `SocketClientDeleteTask::process`, and the end of any other task with handlers. -/
def removeHandlers (r : Registry Value) (handles : List HandleInfo) : Registry Value where
  functions := r.functions.removeAll (handles.map HandleInfo.funId)
  params := r.params.removeAll (handles.map HandleInfo.paramId)

end Registry

namespace Registration

def functions (made : Registration Value) : List (UInt32 × Value) :=
  bindings (made.handles.map HandleInfo.funId) (made.values.map fun value => some value.1)

def params (made : Registration Value) : List (UInt32 × Value) :=
  bindings (made.handles.map HandleInfo.paramId) (made.values.map Prod.snd)

/-- Every handler still leads to what was registered. -/
def Stands (made : Registration Value) (r : Registry Value) : Prop :=
  (∀ entry ∈ made.functions, r.functions.get entry.1 = some entry.2) ∧
    ∀ entry ∈ made.params, r.params.get entry.1 = some entry.2

end Registration

/-- There is no more to remove than was registered. -/
def Registration.Complete (made : Registration Value) : Prop :=
  (∀ id ∈ made.handles.map HandleInfo.funId, 0 < id → id ∈ made.functions.map Prod.fst) ∧
    ∀ id ∈ made.handles.map HandleInfo.paramId, 0 < id → id ∈ made.params.map Prod.fst

/-- The ids of one kind that a party has through its handlers. -/
def Held {Party : Type} (pick : HandleInfo → UInt32) (owned : Party → List HandleInfo → Prop)
    (party : Party) (ids : List UInt32) : Prop :=
  ∃ handles, owned party handles ∧ handles.map pick = ids

/-- `Sound` of both tables, for parties that own handlers. -/
structure Registry.Sound {Party : Type} (owned : Party → List HandleInfo → Prop)
    (r : Registry Value) (holders : List (Registration Value)) : Prop where
  functions : LuaFix.Sound (Held HandleInfo.funId owned) r.functions
    (holders.flatMap Registration.functions)
  params : LuaFix.Sound (Held HandleInfo.paramId owned) r.params
    (holders.flatMap Registration.params)
  complete : ∀ holder ∈ holders, holder.Complete

theorem refAll_length {t t' : RefTable Value} {values : List (Option Value)} {ids : List UInt32}
    (made : t.refAll values = some (ids, t')) : ids.length = values.length := by
  induction values generalizing t ids with
  | nil =>
      cases made
      rfl
  | cons value rest inductionHypothesis =>
      obtain ⟨⟨id, t₁⟩, first, made⟩ := Option.bind_eq_some_iff.mp made
      obtain ⟨⟨others, t₂⟩, later, made⟩ := Option.map_eq_some_iff.mp made
      cases made
      exact congrArg (· + 1) (inductionHypothesis later)

theorem refAll_registered {t t' : RefTable Value} {values : List (Option Value)}
    {ids : List UInt32} (made : t.refAll values = some (ids, t')) :
    ∀ id ∈ ids, 0 < id → id ∈ (bindings ids values).map Prod.fst := by
  induction values generalizing t ids with
  | nil =>
      cases made
      exact fun _ membership => absurd membership List.not_mem_nil
  | cons value rest inductionHypothesis =>
      obtain ⟨⟨id, t₁⟩, first, made⟩ := Option.bind_eq_some_iff.mp made
      obtain ⟨⟨others, t₂⟩, later, made⟩ := Option.map_eq_some_iff.mp made
      cases made
      have tail := inductionHypothesis later
      intro wanted membership positive
      cases value with
      | none =>
          cases first
          rcases List.mem_cons.mp membership with rfl | old
          · exact absurd positive (lt_irrefl 0)
          · exact tail wanted old positive
      | some value =>
          rcases List.mem_cons.mp membership with rfl | old
          · exact List.mem_cons_self
          · exact List.mem_cons_of_mem _ (tail wanted old positive)

namespace Registry

variable {Party : Type} {owned : Party → List HandleInfo → Prop} {r r' : Registry Value}
  {holders : List (Registration Value)}

theorem register_spec {values : List (Value × Option Value)} {handles : List HandleInfo}
    (made : r.register values = some (handles, r')) :
    r.functions.refAll (values.map fun value => some value.1) =
        some (handles.map HandleInfo.funId, r'.functions) ∧
      r.params.refAll (values.map Prod.snd) =
        some (handles.map HandleInfo.paramId, r'.params) := by
  obtain ⟨⟨funIds, functions⟩, first, made⟩ := Option.bind_eq_some_iff.mp made
  obtain ⟨⟨paramIds, params⟩, second, made⟩ := Option.map_eq_some_iff.mp made
  cases made
  have lengths : funIds.length = paramIds.length := by
    rw [refAll_length first, refAll_length second, List.length_map, List.length_map]
  constructor
  · rw [first, List.map_map]
    have same := List.map_fst_zip (Nat.le_of_eq lengths)
    exact congrArg some (Prod.ext same.symm rfl)
  · rw [second, List.map_map]
    have same := List.map_snd_zip (Nat.le_of_eq lengths.symm)
    exact congrArg some (Prod.ext same.symm rfl)

end Registry

namespace Sound

variable {Party : Type} {pick : HandleInfo → UInt32} {owned : Party → List HandleInfo → Prop}
  {t : RefTable Value} {mine bound : List (UInt32 × Value)}

theorem monoHeld {fewer : Party → List HandleInfo → Prop} (sound : Sound (Held pick owned) t bound)
    (subset : ∀ party handles, fewer party handles → owned party handles) :
    Sound (Held pick fewer) t bound :=
  sound.mono fun party _ ⟨handles, owns, same⟩ => ⟨handles, subset party handles owns, same⟩

theorem assignHeld (sound : Sound (Held pick owned) t (mine ++ bound)) (party : Party)
    {own : List HandleInfo} (registered : ∀ id ∈ own.map pick, 0 < id → id ∈ mine.map Prod.fst) :
    Sound (Held pick fun other handles => other ≠ party ∧ owned other handles ∨
      other = party ∧ handles = own) t bound := by
  have assigned : Sound (fun other ids => other ≠ party ∧ Held pick owned other ids ∨
      other = party ∧ ids = own.map pick) t bound := sound.assign registered
  refine assigned.mono ?_
  rintro other _ ⟨handles, ⟨differ, owns⟩ | ⟨rfl, rfl⟩, rfl⟩
  · exact Or.inl ⟨differ, handles, owns, rfl⟩
  · exact Or.inr ⟨rfl, rfl⟩

theorem partHeld (sound : Sound (Held pick owned) t bound) {party : Party}
    {handles : List HandleInfo} (owns : owned party handles) :
    Sound (Held pick fun other handles => other ≠ party ∧ owned other handles)
      (t.removeAll (handles.map pick)) bound := by
  have parted := sound.part ⟨handles, owns, rfl⟩
  refine parted.mono ?_
  rintro other _ ⟨otherHandles, ⟨differ, otherOwns⟩, rfl⟩
  exact ⟨differ, otherHandles, otherOwns, rfl⟩

end Sound

namespace Registry.Sound

variable {Party : Type} {owned : Party → List HandleInfo → Prop} {r r' : Registry Value}
  {holders : List (Registration Value)}

theorem initial (none : ∀ party handles, ¬owned party handles) :
    Sound owned (Registry.initial : Registry Value) [] where
  functions := .initial fun party _ ⟨handles, owns, _⟩ => none party handles owns
  params := .initial fun party _ ⟨handles, owns, _⟩ => none party handles owns
  complete := fun _ membership => absurd membership List.not_mem_nil

theorem mono {fewer : Party → List HandleInfo → Prop} (sound : Sound owned r holders)
    (subset : ∀ party handles, fewer party handles → owned party handles) :
    Sound fewer r holders where
  functions := sound.functions.monoHeld subset
  params := sound.params.monoHeld subset
  complete := sound.complete

/-- Handlers that somebody needs from now on. -/
theorem register (sound : Sound owned r holders) {values : List (Value × Option Value)}
    {handles : List HandleInfo} (made : r.register values = some (handles, r')) :
    Sound owned r' ({ handles := handles, values := values } :: holders) := by
  obtain ⟨functions, params⟩ := register_spec made
  constructor
  · exact (sound.functions.refAll functions).perm ((List.reverse_perm _).symm.append_right _)
  · exact (sound.params.refAll params).perm ((List.reverse_perm _).symm.append_right _)
  · intro holder membership
    rcases List.mem_cons.mp membership with rfl | old
    · exact ⟨refAll_registered functions, refAll_registered params⟩
    · exact sound.complete holder old

/-- Handlers that a new party will remove. -/
theorem assign (sound : Sound owned r holders) {values : List (Value × Option Value)}
    {handles own : List HandleInfo} (made : r.register values = some (handles, r'))
    (party : Party) (among : own ⊆ handles) :
    Sound (fun other handles => other ≠ party ∧ owned other handles ∨
      other = party ∧ handles = own) r' holders := by
  have registered := sound.register made
  have whole := registered.complete _ List.mem_cons_self
  constructor
  · refine registered.functions.assignHeld party ?_
    exact fun id membership => whole.1 id (List.map_subset _ among membership)
  · refine registered.params.assignHeld party ?_
    exact fun id membership => whole.2 id (List.map_subset _ among membership)
  · exact sound.complete

theorem part (sound : Sound owned r holders) {party : Party} {handles : List HandleInfo}
    (owns : owned party handles) :
    Sound (fun other handles => other ≠ party ∧ owned other handles)
      (r.removeHandlers handles) holders where
  functions := sound.functions.partHeld owns
  params := sound.params.partHeld owns
  complete := sound.complete

/-- A holder that needs its handlers no longer removes them. -/
theorem release {holder : Registration Value} (sound : Sound owned r (holder :: holders)) :
    Sound owned (r.removeHandlers holder.handles) holders where
  functions := sound.functions.release (sound.complete holder List.mem_cons_self).1
  params := sound.params.release (sound.complete holder List.mem_cons_self).2
  complete := fun other membership => sound.complete other (List.mem_cons_of_mem _ membership)

/-- A holder gives up its handlers without removing them. -/
theorem forget {holder : Registration Value} (sound : Sound owned r (holder :: holders)) :
    Sound owned r holders where
  functions := sound.functions.forget
  params := sound.params.forget
  complete := fun other membership => sound.complete other (List.mem_cons_of_mem _ membership)

/-- Handlers that no holder has and no party owns can be removed. -/
theorem removeOthers (sound : Sound owned r holders) {handles : List HandleInfo}
    (unowned : ∀ party others, ¬owned party others)
    (functions : ∀ handle ∈ handles, 0 < handle.funId →
      handle.funId ∉ (holders.flatMap Registration.functions).map Prod.fst)
    (params : ∀ handle ∈ handles, 0 < handle.paramId →
      handle.paramId ∉ (holders.flatMap Registration.params).map Prod.fst) :
    Sound owned (r.removeHandlers handles) holders where
  functions := by
    refine sound.functions.removeAll ?_ ?_
    · rintro id - - party ids ⟨others, owns, -⟩
      exact absurd owns (unowned party others)
    · intro id membership positive
      obtain ⟨handle, among, rfl⟩ := List.mem_map.mp membership
      exact functions handle among positive
  params := by
    refine sound.params.removeAll ?_ ?_
    · rintro id - - party ids ⟨others, owns, -⟩
      exact absurd owns (unowned party others)
    · intro id membership positive
      obtain ⟨handle, among, rfl⟩ := List.mem_map.mp membership
      exact params handle among positive
  complete := sound.complete

theorem perm {others : List (Registration Value)} (sound : Sound owned r holders)
    (same : others.Perm holders) : Sound owned r others where
  functions := sound.functions.perm (same.flatMap_right _)
  params := sound.params.perm (same.flatMap_right _)
  complete := fun holder membership => sound.complete holder (same.subset membership)

theorem stands (sound : Sound owned r holders) {holder : Registration Value}
    (membership : holder ∈ holders) : holder.Stands r :=
  ⟨fun entry entered =>
      (sound.functions.yields entry (List.mem_flatMap.mpr ⟨holder, membership, entered⟩)).2,
    fun entry entered =>
      (sound.params.yields entry (List.mem_flatMap.mpr ⟨holder, membership, entered⟩)).2⟩

end Registry.Sound

end CrossOver.Engine.LuaFix
