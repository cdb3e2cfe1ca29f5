import CrossOver.Lua.Pb.Table

/-!
# The chains of the hash table

The array is read as a scatter table: an entry whose key is zero is none, and an offset
that is not zero is a link.  A new key keeps the chains sound.
-/

namespace CrossOver.Lua.Pb

open CrossOver.Lib

variable {Value : Type}

def Slot.item (entry : Slot Value) : Option (Int64 × Option Value) :=
  if entry.key = 0 then none else some (entry.key, entry.value)

def Slot.link (i : Nat) (entry : Slot Value) : Option Nat :=
  if entry.next = 0 then none else Table.index i entry.next

namespace Table

def scatter (t : Table Value) : Scatter Nat Int64 (Option Value) where
  entry i := t.hash[i]?.bind Slot.item
  next i := t.hash[i]?.bind (Slot.link i)

section Positions

theorem hashOf_pos (size : Nat) {key : Int64} (nonzero : key ≠ 0) : 1 ≤ hashOf size key := by
  simp only [hashOf]
  split
  case isTrue => exact le_rfl
  case isFalse other => exact Nat.one_le_iff_ne_zero.mpr fun zero => other ⟨nonzero, zero⟩

theorem hashOf_lt {size : Nat} (large : 2 ≤ size) (key : Int64) : hashOf size key < size := by
  simp only [hashOf]
  split
  case isTrue => exact large
  case isFalse =>
      refine lt_of_le_of_lt Nat.and_le_right ?_
      exact Nat.sub_lt (lt_of_lt_of_le Nat.two_pos large) Nat.one_pos

theorem index_eq_some {i t : Nat} {offset : Int} :
    index i offset = some t ↔ (i : Int) + offset = t := by
  rw [index]
  split
  case isTrue positive =>
      rw [Option.some.injEq]
      omega
  case isFalse negative =>
      simp only [reduceCtorEq, false_iff]
      omega

theorem index_offset (i j : Nat) : index i ((j : Int) - i) = some j :=
  index_eq_some.mpr (by omega)

end Positions

section Slots

variable {t : Table Value} {i j : Nat} {entry : Slot Value} {key : Int64} {value : Option Value}

theorem entry_eq_some : t.scatter.entry i = some (key, value) ↔
    ∃ entry, t.hash[i]? = some entry ∧ entry.key = key ∧ key ≠ 0 ∧ entry.value = value := by
  simp only [scatter, Option.bind_eq_some_iff, Slot.item]
  refine exists_congr fun entry => and_congr_right fun _ => ?_
  split
  case isTrue zero =>
      simp only [reduceCtorEq, false_iff]
      rintro ⟨same, nonzero, -⟩
      exact nonzero (same.symm.trans zero)
  case isFalse nonzero =>
      rw [Option.some.injEq, Prod.mk.injEq]
      refine and_congr_right fun same => ?_
      rw [← same, and_iff_right nonzero]

theorem put_size (t : Table Value) (i : Nat) (entry : Slot Value) : (t.put i entry).size = t.size :=
  List.length_set

theorem put_hash (t : Table Value) (i j : Nat) (entry : Slot Value) :
    (t.put i entry).hash[j]? =
      if j = i then (if i < t.size then some entry else none) else t.hash[j]? := by
  simp only [put, List.getElem?_set, eq_comm (a := i)]
  rfl

theorem lt_of_slot (read : t.hash[i]? = some entry) : i < t.size :=
  (List.getElem?_eq_some_iff.mp read).1

theorem exists_slot (inside : i < t.size) : ∃ entry, t.hash[i]? = some entry :=
  ⟨_, List.getElem?_eq_getElem inside⟩

theorem put_entry (inside : i < t.size) (entry : Slot Value) :
    (t.put i entry).scatter.entry = Function.update t.scatter.entry i entry.item := by
  funext j
  simp only [scatter, put_hash, Function.update_apply, inside, if_true]
  split <;> rfl

theorem put_next (inside : i < t.size) (entry : Slot Value) :
    (t.put i entry).scatter.next = Function.update t.scatter.next i (entry.link i) := by
  funext j
  simp only [scatter, put_hash, Function.update_apply, inside, if_true]
  split
  case isTrue same => rw [same]; rfl
  case isFalse => rfl

theorem entry_of_slot (read : t.hash[i]? = some entry) : t.scatter.entry i = entry.item := by
  simp only [scatter, read, Option.bind_some]

theorem next_of_slot (read : t.hash[i]? = some entry) : t.scatter.next i = entry.link i := by
  simp only [scatter, read, Option.bind_some]

theorem slot_of_next (link : t.scatter.next i = some j) :
    ∃ entry, t.hash[i]? = some entry ∧ entry.next ≠ 0 ∧ index i entry.next = some j := by
  rcases Option.bind_eq_some_iff.mp link with ⟨entry, read, link⟩
  rw [Slot.link] at link
  split at link
  case isTrue => cases link
  case isFalse filled => exact ⟨entry, read, filled, link⟩

theorem map_item (entry : Slot Value) (nonzero : key ≠ 0) :
    entry.item.map Prod.fst = some key ↔ entry.key = key := by
  rw [Slot.item]
  split
  case isTrue zero =>
      rw [zero]
      simp only [Option.map_none, reduceCtorEq, false_iff]
      exact nonzero.symm
  case isFalse => rw [Option.map_some, Option.some.injEq]

end Slots

/-- The places that have been given away by `lastfree`. -/
def Claimed (t : Table Value) (i : Nat) : Prop := t.lastfree ≤ i ∧ i < t.size

/-- Offsets lead to positions, the first slot stands for zero alone, and what has no key has
no value. -/
structure Formed (t : Table Value) : Prop where
  linked : ∀ i entry, t.hash[i]? = some entry → entry.next ≠ 0 →
    ∃ j, index i entry.next = some j
  zero : ∀ entry, t.hash[0]? = some entry → entry.key = 0 ∧ entry.next = 0
  holes : ∀ i entry, t.hash[i]? = some entry → 1 ≤ i → entry.key = 0 → entry.value = none
  blank : ∀ entry, t.hash[0]? = some entry → t.hasZero = false → entry.value = none
  large : 8 ≤ t.size
  low : 1 ≤ t.lastfree
  high : t.lastfree ≤ t.size

structure Sound (t : Table Value) : Prop extends Formed t where
  chains : t.scatter.Sound (hashOf t.size) t.Claimed

section Formed

variable {t : Table Value} {i lastfree : Nat} {entry : Slot Value}

theorem Formed.pos (formed : t.Formed) : 0 < t.size := Nat.lt_of_lt_of_le (by decide) formed.large

theorem Formed.home_lt (formed : t.Formed) (key : Int64) : hashOf t.size key < t.size :=
  hashOf_lt (le_trans (by decide) formed.large) key

theorem Formed.put (formed : t.Formed) (position : 1 ≤ i)
    (leads : entry.next ≠ 0 → ∃ j, index i entry.next = some j)
    (hole : entry.key = 0 → entry.value = none) : (t.put i entry).Formed where
  linked j other read := by
    rw [put_hash] at read
    split at read
    case isTrue same =>
        split at read
        · cases read
          exact same ▸ leads
        · cases read
    case isFalse => exact formed.linked j other read
  zero other read := by
    rw [put_hash, if_neg (Nat.ne_of_lt position)] at read
    exact formed.zero other read
  holes j other read behind := by
    rw [put_hash] at read
    split at read
    case isTrue =>
        split at read
        · cases read
          exact hole
        · cases read
    case isFalse => exact formed.holes j other read behind
  blank other read := by
    rw [put_hash, if_neg (Nat.ne_of_lt position)] at read
    exact formed.blank other read
  large := formed.large.trans_eq (put_size t i entry).symm
  low := formed.low
  high := formed.high.trans_eq (put_size t i entry).symm

theorem Formed.lower (formed : t.Formed) (low : 1 ≤ lastfree) (less : lastfree ≤ t.lastfree) :
    { t with lastfree := lastfree }.Formed :=
  { formed with low := low, high := less.trans formed.high }

end Formed

theorem before_of_scatter {t : Table Value} {mp fuel on p : Nat}
    (found : t.scatter.before mp fuel on = some p) : t.before mp fuel on = some p := by
  induction fuel generalizing on with
  | zero => cases found
  | succ fuel inductionHypothesis =>
      rw [Scatter.before] at found
      split at found
      case h_1 => cases found
      case h_2 next link =>
          rcases slot_of_next link with ⟨entry, read, -, leads⟩
          simp only [Table.before, read, leads, Option.bind_eq_bind, Option.bind_some]
          split at found
          case isTrue same =>
              rw [if_pos same]
              exact found
          case isFalse other =>
              rw [if_neg other]
              exact inductionHypothesis found

section Walks

variable {t : Table Value} {claimed : Nat → Prop} {i j : Nat}

theorem lt_of_leads (chains : t.scatter.Sound (hashOf t.size) claimed)
    (bound : ∀ i, claimed i → i < t.size) (inside : i < t.size) (leads : t.scatter.Leads i j) :
    j < t.size := by
  induction leads with
  | refl => exact inside
  | tail _ link _ => exact bound _ (chains.claims _ _ link)

theorem within_of_claims (chains : t.scatter.Sound (hashOf t.size) claimed)
    (bound : ∀ i, claimed i → i < t.size) (inside : i < t.size) :
    t.scatter.Within t.size i := by
  refine ⟨Finset.range t.size, ?_, fun j leads => ?_⟩
  · rw [Finset.card_range]
  · exact Finset.mem_range.mpr (lt_of_leads chains bound inside leads)

end Walks

namespace Sound

variable {t : Table Value} {i j f mp fuel : Nat} {entry : Slot Value} {key : Int64}
  {value : Option Value}

theorem within (sound : t.Sound) (inside : i < t.size) : t.scatter.Within t.size i :=
  within_of_claims sound.chains (fun _ claimed => claimed.2) inside

theorem find_eq (sound : t.Sound) (nonzero : key ≠ 0) (inside : i < t.size) :
    t.find key fuel i = t.scatter.search key fuel i := by
  induction fuel generalizing i with
  | zero => exact rfl
  | succ fuel inductionHypothesis =>
      rcases exists_slot inside with ⟨entry, read⟩
      simp only [find, Scatter.search, read, Option.bind_eq_bind, Option.bind_some,
        entry_of_slot read, next_of_slot read, map_item entry nonzero]
      split
      case isTrue => exact rfl
      case isFalse =>
          split
          case isTrue last =>
              rw [Slot.link, if_pos last]
              exact rfl
          case isFalse link =>
              rcases sound.linked i entry read link with ⟨j, found⟩
              have next : t.scatter.next i = some j := by
                rw [next_of_slot read, Slot.link, if_neg link, found]
              rw [Slot.link, if_neg link, found]
              exact inductionHypothesis (sound.chains.claims _ _ next).2

/-- `pb_gettable` finds the entry of a key. -/
theorem gettable_found (sound : t.Sound) (stored : t.scatter.entry i = some (key, value)) :
    t.gettable key = some (some i) := by
  rcases entry_eq_some.mp stored with ⟨entry, -, -, nonzero, -⟩
  have inside := sound.home_lt key
  rw [gettable, if_neg sound.pos.ne', if_neg nonzero, sound.find_eq nonzero inside]
  exact Scatter.search_found sound.chains (sound.within inside)
    (sound.chains.reached _ _ _ stored) stored

theorem gettable_missing (sound : t.Sound) (nonzero : key ≠ 0)
    (missing : t.scatter.Missing key) : t.gettable key = some none := by
  have inside := sound.home_lt key
  rw [gettable, if_neg sound.pos.ne', if_neg nonzero, sound.find_eq nonzero inside]
  apply Scatter.search_missing sound.chains (sound.within inside)
  exact fun j value stored => missing value ⟨j, stored⟩

end Sound

section Moves

variable {t : Table Value} {i f mp on : Nat} {entry free : Slot Value} {key : Int64}

/-- Nothing but the slots behind the first one has changed. -/
structure Frame (t later : Table Value) : Prop where
  size : later.size = t.size
  lastfree : later.lastfree = t.lastfree
  hasZero : later.hasZero = t.hasZero
  first : later.hash[0]? = t.hash[0]?

theorem Frame.put (position : 1 ≤ i) (entry : Slot Value) : Frame t (t.put i entry) where
  size := put_size t i entry
  lastfree := rfl
  hasZero := rfl
  first := by rw [put_hash, if_neg (Nat.ne_of_lt position)]

theorem Frame.trans {middle later : Table Value} (first : Frame t middle)
    (second : Frame middle later) : Frame t later where
  size := second.size.trans first.size
  lastfree := second.lastfree.trans first.lastfree
  hasZero := second.hasZero.trans first.hasZero
  first := second.first.trans first.first

/-- A step of the array has the effect of a step of the scatter table. -/
structure Effect (t later : Table Value) (s : Scatter Nat Int64 (Option Value)) : Prop where
  formed : later.Formed
  frame : Frame t later
  scatter : later.scatter = s

theorem Effect.put {s : Scatter Nat Int64 (Option Value)} {later : Table Value}
    (effect : Effect t later s) (entry : Slot Value) (position : 1 ≤ i) (inside : i < t.size)
    (leads : entry.next ≠ 0 → ∃ j, index i entry.next = some j)
    (hole : entry.key = 0 → entry.value = none) :
    Effect t (later.put i entry)
      ⟨Function.update s.entry i entry.item, Function.update s.next i (entry.link i)⟩ where
  formed := effect.formed.put position leads hole
  frame := effect.frame.trans (.put position entry)
  scatter := by
    have there : i < later.size := effect.frame.size.symm ▸ inside
    rw [← effect.scatter, ← put_entry there, ← put_next there]

theorem Formed.effect (formed : t.Formed) : Effect t t t.scatter where
  formed := formed
  frame := ⟨rfl, rfl, rfl, rfl⟩
  scatter := rfl

theorem Formed.claim (formed : t.Formed) (read : t.hash[mp]? = some entry) (position : 1 ≤ mp)
    (nonzero : key ≠ 0) :
    ∃ later, t.claim mp key = some (later, some mp) ∧
      Effect t later (t.scatter.settle mp (key, none)) := by
  refine ⟨_, by rw [Table.claim, read]; rfl, ?_⟩
  have effect := formed.effect.put { entry with key := key, value := none } position
    (lt_of_slot read) (formed.linked mp entry read) fun _ => rfl
  have item : ({ entry with key := key, value := none } : Slot Value).item = some (key, none) :=
    if_neg nonzero
  have same : Function.update t.scatter.next mp (entry.link mp) = t.scatter.next := by
    rw [← next_of_slot read, Function.update_eq_self]
  rw [item] at effect
  change Effect t _ ⟨_, Function.update t.scatter.next mp (entry.link mp)⟩ at effect
  rwa [same] at effect

theorem Effect.trans {middle later : Table Value} {s r : Scatter Nat Int64 (Option Value)}
    (first : Effect t middle s) (second : Effect middle later r) : Effect t later r where
  formed := second.formed
  frame := first.frame.trans second.frame
  scatter := second.scatter

theorem link_offset {i j : Nat} (entry : Slot Value) (apart : j ≠ i) :
    ({ entry with next := (j : Int) - i } : Slot Value).link i = some j := by
  have filled : (j : Int) - i ≠ 0 := by omega
  rw [Slot.link, if_neg filled, index_offset]

/-- The place that an offset leads to, seen from somewhere else. -/
theorem link_moved {other : Slot Value} {i j : Nat} (filled : entry.next ≠ 0)
    (away : entry.link i ≠ some j) (same : other.next = (i : Int) - j + entry.next) :
    other.link j = entry.link i := by
  have target (t : Nat) : index j other.next = some t ↔ index i entry.next = some t := by
    rw [index_eq_some, index_eq_some, same]
    omega
  rw [Slot.link, if_neg filled] at away
  have nonzero : other.next ≠ 0 := by
    intro zero
    apply away
    rw [index_eq_some]
    omega
  rw [Slot.link, Slot.link, if_neg nonzero, if_neg filled]
  exact Option.ext target

theorem exists_index_of_link {i j : Nat} (link : entry.link i = some j) (_ : entry.next ≠ 0) :
    ∃ j, index i entry.next = some j := by
  rw [Slot.link] at link
  split at link
  · cases link
  · exact ⟨j, link⟩

/-- The free place comes behind the main position and is claimed for the key. -/
theorem Formed.hook (formed : t.Formed) (home : t.hash[mp]? = some entry)
    (place : t.hash[f]? = some free) (empty : free.key = 0) (last : free.next = 0)
    (behind : 1 ≤ f) (position : 1 ≤ mp) (apart : f ≠ mp) (held : entry.key ≠ 0)
    (away : t.scatter.next mp ≠ some f) (nonzero : key ≠ 0) :
    ∃ later, (t.hook f mp >>= fun t => t.claim f key) = some (later, some f) ∧
      Effect t later (t.scatter.hook f mp (key, none)) := by
  rw [next_of_slot home] at away
  let moved : Slot Value :=
    { free with next := if entry.next ≠ 0 then mp - f + entry.next else free.next }
  have link : moved.link f = entry.link mp := by
    by_cases filled : entry.next ≠ 0
    · exact link_moved filled away (if_pos filled)
    · have none' : moved.next = 0 := (if_neg filled).trans last
      rw [Slot.link, Slot.link, if_pos none', if_pos (not_not.mp filled)]
  have leads : moved.next ≠ 0 → ∃ j, index f moved.next = some j := by
    intro nonzero
    by_cases filled : entry.next ≠ 0
    · rcases formed.linked mp entry home filled with ⟨j, found⟩
      refine exists_index_of_link (j := j) ?_ nonzero
      rw [link, Slot.link, if_neg filled, found]
    · exact absurd ((if_neg filled).trans last) nonzero
  have first := formed.effect.put moved behind (lt_of_slot place) leads
    fun _ => formed.holes f free place behind empty
  have second := first.put { entry with next := (f : Int) - mp } position
    (lt_of_slot home) (fun _ => ⟨f, index_offset mp f⟩) fun zero => absurd zero held
  have read : ((t.put f moved).put mp { entry with next := (f : Int) - mp }).hash[f]? =
      some moved := by
    rw [put_hash, if_neg apart, put_hash, if_pos rfl, if_pos (lt_of_slot place)]
  rcases second.formed.claim read behind nonzero with ⟨later, claimed, third⟩
  refine ⟨later, ?_, ?_⟩
  · rw [Table.hook, home, place]
    exact claimed
  · have whole := second.trans third
    have item : ({ entry with next := (f : Int) - mp } : Slot Value).item = t.scatter.entry mp :=
      (entry_of_slot home).symm
    have links := link_offset entry apart
    rw [second.scatter, item, link, links, ← next_of_slot home] at whole
    have entries : Function.update (Function.update (Function.update t.scatter.entry f
        moved.item) mp (t.scatter.entry mp)) f (some (key, none)) =
        Function.update t.scatter.entry f (some (key, none)) := by
      rw [Function.update_comm apart, Function.update_eq_self, Function.update_idem]
    have nexts : Function.update (Function.update t.scatter.next f (t.scatter.next mp)) mp
        (some f) = Function.update (Function.update t.scatter.next mp (some f)) f
          (t.scatter.next mp) := Function.update_comm apart _ _ _
    rw [Scatter.settle, entries, nexts] at whole
    exact whole

/-- The entry of the position goes to the free place, and the key gets the position. -/
theorem Formed.evict (formed : t.Formed) {claimed : Nat → Prop}
    (chains : t.scatter.Sound (hashOf t.size) claimed) (bound : ∀ i, claimed i → i < t.size)
    (home : t.hash[mp]? = some entry) (place : t.hash[f]? = some free) (behind : 1 ≤ f)
    (position : 1 ≤ mp) (held : entry.key ≠ 0) (guest : hashOf t.size entry.key ≠ mp)
    (spare : t.scatter.Free claimed f) (nonzero : key ≠ 0) :
    ∃ later on, (t.evict f mp >>= fun t => t.claim mp key) = some (later, some mp) ∧
      t.scatter.next on = some mp ∧ Effect t later (t.scatter.evict f mp on (key, none)) := by
  have stored : t.scatter.entry mp = some (entry.key, entry.value) :=
    entry_eq_some.mpr ⟨entry, home, rfl, held, rfl⟩
  rcases Scatter.before_found chains
    (within_of_claims chains bound (formed.home_lt entry.key))
    (chains.reached _ _ _ stored) guest with ⟨on, walked, link⟩
  rcases slot_of_next link with ⟨front, read, filled, -⟩
  have first : 1 ≤ on := by
    refine Nat.one_le_iff_ne_zero.mpr ?_
    rintro rfl
    exact filled (formed.zero front read).2
  have apart : f ≠ mp := by
    rintro rfl
    exact spare.not_next chains link
  have before : on ≠ f := by
    rintro rfl
    cases spare.last.symm.trans link
  have away : entry.link mp ≠ some f := by
    rw [← next_of_slot home]
    exact spare.not_next chains
  let moved : Slot Value :=
    { entry with next := if entry.next ≠ 0 then entry.next + (mp - f) else entry.next }
  have moves : moved.link f = entry.link mp ∧
      (moved.next ≠ 0 → ∃ j, index f moved.next = some j) := by
    by_cases filled : entry.next ≠ 0
    · have links : moved.link f = entry.link mp :=
        link_moved filled away ((if_pos filled).trans (Int.add_comm _ _))
      rcases formed.linked mp entry home filled with ⟨j, found⟩
      refine ⟨links, exists_index_of_link (j := j) ?_⟩
      rw [links, Slot.link, if_neg filled, found]
    · have last : moved.next = 0 := (if_neg filled).trans (not_not.mp filled)
      refine ⟨?_, fun nonzero => absurd last nonzero⟩
      rw [Slot.link, Slot.link, if_pos last, if_pos (not_not.mp filled)]
  have effect := formed.effect.put { front with next := (f : Int) - on } first
    (lt_of_slot read) (fun _ => ⟨f, index_offset on f⟩) (formed.holes on front read first)
  have effect := effect.put moved behind (lt_of_slot place) moves.2
    fun zero => absurd zero held
  have effect := effect.put { entry with next := 0 } position (lt_of_slot home)
    (fun nonzero => absurd rfl nonzero) fun zero => absurd zero held
  have there : (((t.put on { front with next := (f : Int) - on }).put f moved).put mp
      { entry with next := 0 }).hash[mp]? = some { entry with next := 0 } := by
    rw [put_hash, if_pos rfl, if_pos]
    exact (put_size _ _ _).symm ▸ (put_size _ _ _).symm ▸ lt_of_slot home
  rcases effect.formed.claim there position nonzero with ⟨later, claimed, settled⟩
  refine ⟨later, on, ?_, link, ?_⟩
  · rw [Table.evict, home]
    simp only [Option.bind_eq_bind, Option.bind_some, before_of_scatter walked, read]
    exact claimed
  · have whole := effect.trans settled
    have kept : ({ front with next := (f : Int) - on } : Slot Value).item =
        t.scatter.entry on := (entry_of_slot read).symm
    have carried : moved.item = t.scatter.entry mp := (entry_of_slot home).symm
    have ends : ({ entry with next := 0 } : Slot Value).link mp = none := if_pos rfl
    rw [effect.scatter, kept, carried, Function.update_eq_self, link_offset front before.symm,
      moves.1, ends, ← next_of_slot home, Scatter.settle, Function.update_idem] at whole
    exact whole

end Moves

end Table

end CrossOver.Lua.Pb
